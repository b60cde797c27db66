/-
The sources that settings configure.

Settings name their sources by texts and are refused for one of two reasons: a text has a colon, or
two texts name one source. Only the root has two texts. They are taken in the order of their bytes,
where nothing comes before the word for the root, so it is the word that finds its source there
already. Whether a text is refused can therefore be told from the settings alone, without taking the
texts before it, and the first one that is refused, if there is any, is the reason that is given.

If there is none, every text has its own source. These stand in another order than the texts, the
root before all others.
-/
import Stencil.Proofs.Runs
import Stencil.Proofs.SourceOrder
import Stencil.Settings.Basic

set_option autoImplicit false

namespace Stencil

/-! ## Tables of distinct keys -/

namespace Table

open Entries

variable {κ α : Type} [SortKey κ] [DecidableEq κ] {given : List (κ × α)}

/-- Where no key is given twice, a table has just what was given. -/
theorem entries_ofList_perm (h : (given.map Prod.fst).Nodup) : (ofList given).entries.Perm given := by
  have hkeys : ((ofList given).entries.map Prod.fst).Nodup :=
    (ofList given).keys_sorted.imp SortKey.ne_of_before
  rw [List.perm_ext_iff_of_nodup (.of_map _ hkeys) (.of_map _ h)]
  intro e
  rw [← lastGiven?_eq_some_iff h, ← get?_ofList]
  exact ⟨fun he => get?_of_mem he, fun he => mem_keys_of_get? he⟩

/-- What is given in order stays as it is. -/
theorem entries_ofList_of_sorted (h : Entries.Sorted given) : (ofList given).entries = given := by
  have hkeys : (given.map Prod.fst).Nodup :=
    List.pairwise_map.2 (h.imp SortKey.ne_of_before)
  refine Entries.Sorted.ext (ofList given).sorted h fun k => ?_
  apply Option.ext
  intro v
  show (ofList given).get? k = some v ↔ _
  rw [get?_ofList, lastGiven?_eq_some_iff hkeys]
  exact ⟨fun hv => h.get?_of_mem hv, fun hv => mem_keys_of_get? hv⟩

/-- Of keys in order, the first with a property comes before all others with it. -/
theorem find?_eq_some_iff_of_sorted {ks : List κ}
    (hsorted : ks.Pairwise fun a b => SortKey.before a b = true) (p : κ → Bool) {k : κ} :
    ks.find? p = some k ↔
      k ∈ ks ∧ p k = true ∧
        ∀ other ∈ ks, p other = true → other ≠ k → SortKey.before k other = true := by
  induction ks with
  | nil => simp
  | cons first rest ih =>
    obtain ⟨hfirst, hrest⟩ := List.pairwise_cons.1 hsorted
    rw [List.find?_cons]
    cases hp : p first with
    | true =>
      rw [Option.some.injEq]
      constructor
      · rintro rfl
        refine ⟨List.mem_cons_self, hp, fun other hother _ hne => ?_⟩
        exact hfirst other ((List.mem_cons.1 hother).resolve_left hne)
      · rintro ⟨hk, -, hleast⟩
        refine Decidable.byContradiction fun hne => ?_
        have hback : SortKey.before k first = true := hleast first List.mem_cons_self hp hne
        rcases List.mem_cons.1 hk with rfl | hk
        · exact hne rfl
        · rw [SortKey.asymm (hfirst k hk)] at hback
          exact Bool.false_ne_true hback
    | false =>
      rw [ih hrest]
      have hkeep : p k = true → k ≠ first := by
        rintro hk rfl
        rw [hp] at hk
        exact Bool.false_ne_true hk
      constructor
      · rintro ⟨hk, hpk, hleast⟩
        refine ⟨List.mem_cons_of_mem first hk, hpk, fun other hother hpo hne => ?_⟩
        rcases List.mem_cons.1 hother with rfl | hother
        · rw [hp] at hpo
          exact absurd hpo Bool.false_ne_true
        · exact hleast other hother hpo hne
      · rintro ⟨hk, hpk, hleast⟩
        refine ⟨(List.mem_cons.1 hk).resolve_left (hkeep hpk), hpk, fun other hother => ?_⟩
        exact hleast other (List.mem_cons_of_mem first hother)

end Table

/-! ## Texts for sources -/

namespace SourceId

theorem ofText_eq_root_iff {text : String} : ofText text = .root ↔ text = "" ∨ text = rootText := by
  unfold ofText
  split
  · rename_i hroot
    exact iff_of_true rfl hroot
  · rename_i hnamed
    exact iff_of_false (by simp) hnamed

/-- Only the root has two texts. -/
theorem ofText_eq_iff {text other : String} :
    ofText text = ofText other ↔ text = other ∨ ofText text = .root ∧ ofText other = .root := by
  constructor
  · intro h
    by_cases hroot : ofText other = .root
    · exact Or.inr ⟨h.trans hroot, hroot⟩
    · have hnamed : ¬ (other = "" ∨ other = rootText) := mt ofText_eq_root_iff.2 hroot
      have hnamed' : ¬ (text = "" ∨ text = rootText) := mt ofText_eq_root_iff.2 (h ▸ hroot)
      unfold ofText at h
      rw [if_neg hnamed, if_neg hnamed'] at h
      exact Or.inl (named.inj h)
  · rintro (rfl | ⟨htext, hother⟩)
    · rfl
    · rw [htext, hother]

/-- Of two texts for one source, the first is nothing and the other the word for the root. -/
theorem ofText_eq_iff_of_before {text other : String} (h : SortKey.before text other = true) :
    ofText text = ofText other ↔ text = "" ∧ other = rootText := by
  rw [ofText_eq_iff, or_iff_right (SortKey.ne_of_before h), ofText_eq_root_iff, ofText_eq_root_iff]
  constructor
  · rintro ⟨rfl | rfl, rfl | rfl⟩
    · exact absurd h (by decide)
    · exact ⟨rfl, rfl⟩
    · exact absurd h (by decide)
    · exact absurd h (by decide)
  · rintro ⟨rfl, rfl⟩
    exact ⟨Or.inl rfl, Or.inr rfl⟩

end SourceId

namespace Settings

variable {s : Settings} {base : Path}

/-! ## What settings say -/

/-- Says that settings are refused for a text: it has a colon, or it is the word for the root and the
root is named by nothing as well. -/
def Offends (s : Settings) (id : String) : Prop :=
  ':' ∈ id.toList ∨ id = SourceId.rootText ∧ "" ∈ s.sources.keys

instance (s : Settings) (id : String) : Decidable (s.Offends id) :=
  inferInstanceAs (Decidable (_ ∈ _ ∨ _ = _ ∧ _ ∈ _))

/-- Says that settings can be used: no text for a source has a colon, and the root is not named both by
nothing and by its word. -/
structure Acceptable (s : Settings) : Prop where
  plain : ∀ id ∈ s.sources.keys, ':' ∉ id.toList
  oneRoot : ¬ ("" ∈ s.sources.keys ∧ SourceId.rootText ∈ s.sources.keys)

/-- The reason for which a text is refused. -/
def refusal (id : String) : SettingsError :=
  if ':' ∈ id.toList then .invalidSourceId id else .duplicateSource .root

/-- Says that of the texts for which settings are refused one is the first, in the order of their
bytes. -/
def FirstOffence (s : Settings) (id : String) : Prop :=
  id ∈ s.sources.keys ∧ s.Offends id ∧
    ∀ other ∈ s.sources.keys, s.Offends other → other ≠ id → bytesOf id < bytesOf other

/-- The source that an entry stands for, and its directory: as it is if it is absolute, and otherwise
below the base. -/
def configured (base : Path) (entry : String × Path) : SourceId × Directory :=
  (SourceId.ofText entry.1, ⟨if entry.2.isAbsolute then entry.2 else base.join entry.2⟩)

theorem find?_offends_eq_some_iff {id : String} :
    s.sources.keys.find? (fun id => s.Offends id) = some id ↔ s.FirstOffence id := by
  rw [Table.find?_eq_some_iff_of_sorted s.sources.keys_sorted, FirstOffence, decide_eq_true_iff]
  simp only [decide_eq_true_iff, before_iff_bytesOf_lt]

theorem find?_offends_eq_none_iff :
    s.sources.keys.find? (fun id => s.Offends id) = none ↔ s.Acceptable := by
  rw [List.find?_eq_none]
  simp only [decide_eq_true_eq]
  constructor
  · intro h
    refine ⟨fun id hid hcolon => h id hid (Or.inl hcolon), ?_⟩
    rintro ⟨hempty, hroot⟩
    exact h _ hroot (Or.inr ⟨rfl, hempty⟩)
  · rintro h id hid (hcolon | ⟨rfl, hempty⟩)
    · exact h.plain id hid hcolon
    · exact h.oneRoot ⟨hempty, hid⟩

/-! ## Taking the entries -/

/-- Whether a text finds its source taken already can be told from the settings: the entries before it
are all those whose texts come before it. -/
theorem mem_keys_configured_iff (base : Path) {done rest : List (String × Path)} {entry : String × Path}
    (h : s.sources.entries = done ++ entry :: rest) :
    SourceId.ofText entry.1 ∈ (done.map (configured base)).map Prod.fst ↔
      entry.1 = SourceId.rootText ∧ "" ∈ s.sources.keys := by
  have hsorted : (done ++ entry :: rest).Pairwise
      fun a b => SortKey.before a.1 b.1 = true := h ▸ s.sources.sorted
  obtain ⟨-, hbehind, hbefore⟩ := List.pairwise_append.1 hsorted
  have hkeys : s.sources.keys = (done ++ entry :: rest).map Prod.fst := congrArg _ h
  rw [List.map_map, List.mem_map]
  constructor
  · rintro ⟨other, hother, hsame⟩
    have hlt := hbefore other hother entry List.mem_cons_self
    obtain ⟨hempty, hroot⟩ := (SourceId.ofText_eq_iff_of_before hlt).1 hsame
    refine ⟨hroot, ?_⟩
    rw [hkeys, ← hempty]
    exact List.mem_map_of_mem (List.mem_append_left _ hother)
  · rintro ⟨hroot, hempty⟩
    rw [hkeys] at hempty
    obtain ⟨other, hother, hotherEmpty⟩ := List.mem_map.1 hempty
    have hsame : SourceId.ofText other.1 = SourceId.ofText entry.1 := by
      rw [hotherEmpty, hroot]
      rfl
    rcases List.mem_append.1 hother with hother | hother
    · exact ⟨other, hother, hsame⟩
    · rcases List.mem_cons.1 hother with rfl | hother
      · rw [hroot] at hotherEmpty
        exact absurd hotherEmpty (by decide)
      · -- Nothing would have to come behind the word for the root.
        have hlt := (List.pairwise_cons.1 hbehind).1 other hother
        rw [hroot, hotherEmpty] at hlt
        exact absurd hlt (by decide)

/-- One step: an entry is refused if its text offends, and otherwise its source is added. -/
theorem addDirectory_eq {done rest : List (String × Path)} {entry : String × Path}
    (h : s.sources.entries = done ++ entry :: rest) :
    addDirectory base (Table.ofList (done.map (configured base))) entry.1 entry.2
      = if s.Offends entry.1 then .error (refusal entry.1)
        else .ok (Table.ofList ((done ++ [entry]).map (configured base))) := by
  have hcontains : (Table.ofList (done.map (configured base))).contains (SourceId.ofText entry.1)
      = true ↔ entry.1 = SourceId.rootText ∧ "" ∈ s.sources.keys := by
    rw [← mem_keys_configured_iff base h]
    unfold Table.contains
    rw [Table.get?_ofList, Option.isSome_iff_ne_none, Ne, Entries.lastGiven?_eq_none_iff, List.mem_map]
    simp only [not_forall, not_not, exists_prop]
  unfold addDirectory
  by_cases hcolon : ':' ∈ entry.1.toList
  · have hoffends : s.Offends entry.1 := Or.inl hcolon
    rw [if_pos (by simpa using hcolon), if_pos hoffends, refusal, if_pos hcolon]
  · rw [if_neg (by simpa using hcolon)]
    by_cases htaken : entry.1 = SourceId.rootText ∧ "" ∈ s.sources.keys
    · have hoffends : s.Offends entry.1 := Or.inr htaken
      rw [if_pos (hcontains.2 htaken), if_pos hoffends, refusal, if_neg hcolon, htaken.1]
      rfl
    · have hoffends : ¬ s.Offends entry.1 := not_or.2 ⟨hcolon, htaken⟩
      have hplace : (⟨base.join entry.2⟩ : Directory) = (configured base entry).2 := by
        unfold configured Path.join
        split <;> rfl
      rw [if_neg (fun hyes => htaken (hcontains.1 hyes)), if_neg hoffends, List.map_append,
        List.map_singleton, Table.ofList_append_singleton, hplace]
      rfl

/-- A whole run: the first text that offends is refused, and if there is none all sources are added.
The induction is on the entries that are left. -/
theorem directories_eq (s : Settings) (base : Path) :
    s.directories base = match s.sources.keys.find? (fun id => s.Offends id) with
      | some id => .error (refusal id)
      | none => .ok (Table.ofList (s.sources.entries.map (configured base))) := by
  have hrun : ∀ rest done, s.sources.entries = done ++ rest →
      rest.foldlM (fun t entry => addDirectory base t entry.1 entry.2)
          (Table.ofList (done.map (configured base)))
        = match (rest.map Prod.fst).find? (fun id => s.Offends id) with
          | some id => .error (refusal id)
          | none => .ok (Table.ofList (s.sources.entries.map (configured base))) := by
    intro rest
    induction rest with
    | nil =>
      intro done h
      rw [h, List.append_nil]
      rfl
    | cons entry rest ih =>
      intro done h
      rw [List.foldlM_cons, addDirectory_eq h, List.map_cons, List.find?_cons]
      by_cases hoffends : s.Offends entry.1
      · rw [if_pos hoffends, decide_eq_true hoffends]
        rfl
      · rw [if_neg hoffends, decide_eq_false hoffends]
        exact ih (done ++ [entry]) (by rw [h, List.append_assoc, List.singleton_append])
  exact hrun s.sources.entries [] rfl

theorem directories_eq_ok_iff {dirs : Table SourceId Directory} :
    s.directories base = .ok dirs ↔
      s.Acceptable ∧ dirs = Table.ofList (s.sources.entries.map (configured base)) := by
  rw [directories_eq, ← find?_offends_eq_none_iff]
  cases s.sources.keys.find? (fun id => s.Offends id) with
  | some id => simp
  | none => simp [eq_comm]

theorem directories_eq_error_iff {e : SettingsError} :
    s.directories base = .error e ↔ ∃ id, s.FirstOffence id ∧ e = refusal id := by
  simp only [← find?_offends_eq_some_iff]
  rw [directories_eq]
  cases s.sources.keys.find? (fun id => s.Offends id) with
  | some id => simp [eq_comm]
  | none => simp

/-! ## Accepted settings -/

/-- The texts of acceptable settings name different sources. -/
theorem Acceptable.nodup (h : s.Acceptable) (base : Path) :
    ((s.sources.entries.map (configured base)).map Prod.fst).Nodup := by
  rw [List.map_map, List.Nodup, List.pairwise_map]
  refine s.sources.sorted.imp_of_mem fun {a b} ha hb hlt hsame => h.oneRoot ?_
  obtain ⟨hempty, hroot⟩ := (SourceId.ofText_eq_iff_of_before hlt).1 hsame
  exact ⟨hempty ▸ List.mem_map_of_mem ha, hroot ▸ List.mem_map_of_mem hb⟩

/-- The sources are those of the entries, one for each. -/
theorem perm_of_directories {dirs : Table SourceId Directory}
    (h : s.directories base = .ok dirs) :
    dirs.entries.Perm (s.sources.entries.map (configured base)) := by
  obtain ⟨haccepted, rfl⟩ := directories_eq_ok_iff.1 h
  exact Table.entries_ofList_perm (haccepted.nodup base)

/-- A source is there exactly if one of the texts names it. -/
theorem mem_keys_directories_iff {dirs : Table SourceId Directory}
    (h : s.directories base = .ok dirs) {id : SourceId} :
    id ∈ dirs.keys ↔ ∃ text ∈ s.sources.keys, SourceId.ofText text = id := by
  have hkeys : dirs.keys.Perm (s.sources.keys.map SourceId.ofText) := by
    have hmapped := (perm_of_directories h).map Prod.fst
    rw [List.map_map] at hmapped
    unfold Table.keys
    rwa [List.map_map]
  rw [hkeys.mem_iff, List.mem_map]

theorem root_mem_keys_directories_iff {dirs : Table SourceId Directory}
    (h : s.directories base = .ok dirs) :
    .root ∈ dirs.keys ↔ "" ∈ s.sources.keys ∨ SourceId.rootText ∈ s.sources.keys := by
  rw [mem_keys_directories_iff h]
  simp only [SourceId.ofText_eq_root_iff]
  constructor
  · rintro ⟨text, htext, rfl | rfl⟩
    · exact Or.inl htext
    · exact Or.inr htext
  · rintro (hempty | hroot)
    · exact ⟨"", hempty, Or.inl rfl⟩
    · exact ⟨SourceId.rootText, hroot, Or.inr rfl⟩

/-- Directories of a disk stay in their order as sources. -/
theorem entries_sourcesOn (d : Disk) (dirs : Table SourceId Directory) (walker : Walker) :
    (sourcesOn d dirs walker).entries
      = dirs.entries.map fun entry => (entry.1, entry.2.source d walker) :=
  Table.entries_ofList_of_sorted (List.pairwise_map.2 dirs.sorted)

/-- **Settings are checked and become sources.** They are accepted exactly if no text for a source has
a colon and the root is not named in both ways. If they are refused, the reason is that of the first
text that offends in the order of the bytes: the text itself if it has a colon, and otherwise the root,
which is there twice. If they are accepted, the sources stand in their order, the root first; they are
those of the entries, one for each, and their directories are those of the entries if these are
absolute, and otherwise these taken from the base; the root is among them exactly if it is named in
one of the two ways. A site on a disk gets these directories as its sources, in this order, whoever
walks over them. -/
theorem directories_faithful (s : Settings) (base : Path) :
    ((∃ dirs, s.directories base = .ok dirs) ↔ s.Acceptable)
      ∧ (∀ e, s.directories base = .error e ↔ ∃ id, s.FirstOffence id ∧ e = refusal id)
      ∧ ∀ dirs, s.directories base = .ok dirs →
        dirs.keys.Pairwise SourceId.Precedes
          ∧ dirs.entries.Perm (s.sources.entries.map (configured base))
          ∧ (.root ∈ dirs.keys ↔ "" ∈ s.sources.keys ∨ SourceId.rootText ∈ s.sources.keys)
          ∧ ∀ d walker, (s.optionsOn d dirs walker).sources.entries
              = dirs.entries.map fun entry => (entry.1, entry.2.source d walker) := by
  refine ⟨?_, fun e => directories_eq_error_iff, ?_⟩
  · simp only [directories_eq_ok_iff, exists_and_left, exists_eq, and_true]
  · intro dirs hdirs
    refine ⟨?_, perm_of_directories hdirs, root_mem_keys_directories_iff hdirs,
      fun d walker => entries_sourcesOn d dirs walker⟩
    exact dirs.keys_sorted.imp fun hab => (SourceId.before_iff_precedes _ _).1 hab

/-- Settings with the root behind another source, and one directory that is absolute. -/
def themedSettings : Settings :=
  ⟨none, Table.ofList [("root", ⟨"site"⟩), ("plain", ⟨"/srv/plain"⟩)]⟩

/-- Settings that are refused for three of their texts. -/
def refusedSettings : Settings :=
  ⟨none, Table.ofList [("root", ⟨"a"⟩), ("", ⟨"b"⟩), ("x:y", ⟨"c"⟩), ("a:b", ⟨"d"⟩)]⟩

/-- The root comes first although its text does not, and the first of several texts is refused. -/
theorem directories_faithful_themed :
    (∃ dirs, themedSettings.directories ⟨"/project"⟩ = .ok dirs
        ∧ dirs.keys.Pairwise SourceId.Precedes
        ∧ dirs.entries.Perm
          [(.named "plain", ⟨⟨"/srv/plain"⟩⟩), (.root, ⟨⟨"/project/site"⟩⟩)])
      ∧ refusedSettings.directories ⟨"/project"⟩ = .error (.invalidSourceId "a:b") := by
  obtain ⟨haccepted, -, hthemed⟩ := directories_faithful themedSettings ⟨"/project"⟩
  obtain ⟨-, hrefused, -⟩ := directories_faithful refusedSettings ⟨"/project"⟩
  refine ⟨?_, (hrefused _).2 ⟨"a:b", ?_, by decide +kernel⟩⟩
  · obtain ⟨dirs, hdirs⟩ := haccepted.2 ⟨by decide +kernel, by decide +kernel⟩
    obtain ⟨hsorted, hperm, -⟩ := hthemed dirs hdirs
    have hentries : themedSettings.sources.entries.map (configured ⟨"/project"⟩)
        = [(.named "plain", ⟨⟨"/srv/plain"⟩⟩), (.root, ⟨⟨"/project/site"⟩⟩)] := by decide +kernel
    rw [hentries] at hperm
    exact ⟨dirs, hdirs, hsorted, hperm⟩
  · refine ⟨by decide +kernel, by decide +kernel, ?_⟩
    decide +kernel

end Settings

end Stencil
