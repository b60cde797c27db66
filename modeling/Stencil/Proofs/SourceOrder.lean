/-
The sources of a site, however they were given.

Sources are given one after the other, in any order and some of them again. What is left is for each
identity the source that was given last, and they stand in one order: the root first, then by the
bytes of their names, where a source may well have the name that is the word for the root, or no name
at all. So a site does not depend on how its sources were listed.
-/
import Mathlib.Data.Finset.Card
import Stencil.Proofs.ByteOrder
import Stencil.Proofs.Halving
import Stencil.Files.Memory
import Stencil.Site.Registry

set_option autoImplicit false

namespace Stencil

namespace Entries

variable {κ α : Type} [DecidableEq κ] {k : κ} {v : α} {given : List (κ × α)}

/-- The value that was given last for a key. -/
def lastGiven? (k : κ) (given : List (κ × α)) : Option α :=
  ((given.filter fun e => e.1 = k).getLast?).map Prod.snd

theorem lastGiven?_append (k : κ) (given more : List (κ × α)) :
    lastGiven? k (given ++ more) = (lastGiven? k more).or (lastGiven? k given) := by
  unfold lastGiven?
  rw [List.filter_append, List.getLast?_append, Option.map_or]

theorem lastGiven?_singleton (k : κ) (e : κ × α) :
    lastGiven? k [e] = if k = e.1 then some e.2 else none := by
  by_cases hk : k = e.1
  · simp [lastGiven?, hk]
  · simp [lastGiven?, hk, Ne.symm hk]

theorem lastGiven?_eq_none_iff : lastGiven? k given = none ↔ ∀ e ∈ given, e.1 ≠ k := by
  unfold lastGiven?
  rw [Option.map_eq_none_iff, List.getLast?_eq_none_iff, List.filter_eq_nil_iff]
  simp

/-- Where no key is given twice, all that is given is given last. -/
theorem lastGiven?_eq_some_iff (h : (given.map Prod.fst).Nodup) :
    lastGiven? k given = some v ↔ (k, v) ∈ given := by
  induction given with
  | nil => simp [lastGiven?]
  | cons e given ih =>
    obtain ⟨hfirst, hrest⟩ := List.nodup_cons.1 h
    have hsplit : lastGiven? k (e :: given) = (lastGiven? k given).or (lastGiven? k [e]) :=
      lastGiven?_append k [e] given
    rw [hsplit, lastGiven?_singleton, List.mem_cons]
    by_cases hk : k = e.1
    · have hnone : lastGiven? k given = none := by
        rw [lastGiven?_eq_none_iff]
        intro x hx hxk
        exact hfirst (by rw [← hk, ← hxk]; exact List.mem_map_of_mem hx)
      have hmem : (k, v) ∉ given := by
        rw [← ih hrest, hnone]
        simp
      rw [hnone, if_pos hk, Option.none_or, or_iff_left hmem, Option.some.injEq, Prod.ext_iff]
      exact ⟨fun hv => ⟨hk, hv.symm⟩, fun hv => hv.2.symm⟩
    · have hne : (k, v) ≠ e := fun heq => hk (congrArg Prod.fst heq)
      rw [if_neg hk, Option.or_none, ih hrest, or_iff_right hne]

/-- Where no key is given twice, it does not matter in which order. -/
theorem lastGiven?_perm {given' : List (κ × α)} (hperm : given'.Perm given)
    (h : (given.map Prod.fst).Nodup) (k : κ) : lastGiven? k given' = lastGiven? k given := by
  have h' : (given'.map Prod.fst).Nodup := (hperm.map Prod.fst).nodup_iff.2 h
  apply Option.ext
  intro v
  rw [lastGiven?_eq_some_iff h', lastGiven?_eq_some_iff h, hperm.mem_iff]

end Entries

namespace Table

open Entries

variable {κ α : Type} [SortKey κ] [DecidableEq κ]

theorem ofList_append_singleton (given : List (κ × α)) (e : κ × α) :
    ofList (given ++ [e]) = (ofList given).insert e.1 e.2 := by
  unfold ofList
  rw [List.foldl_append]
  rfl

/-- A table looks up what was given last. The induction is on what was given from the end, since the
last insertion decides. -/
theorem get?_ofList (given : List (κ × α)) (k : κ) :
    (ofList given).get? k = lastGiven? k given := by
  induction given using List.reverseRecOn with
  | nil => rfl
  | append_singleton given e ih =>
    rw [ofList_append_singleton, get?_insert, lastGiven?_append, lastGiven?_singleton, ih]
    by_cases hk : k = e.1
    · rw [if_pos hk, if_pos hk, Option.some_or]
    · rw [if_neg hk, if_neg hk, Option.none_or]

/-- Tables are the same exactly if the same was given last for every key. -/
theorem ofList_eq_iff (given given' : List (κ × α)) :
    ofList given' = ofList given ↔ ∀ k, lastGiven? k given' = lastGiven? k given := by
  constructor
  · intro h k
    rw [← get?_ofList, ← get?_ofList, h]
  · intro h
    apply ext_get?
    intro k
    rw [get?_ofList, get?_ofList, h]

/-- A table has as many entries as there were keys. -/
theorem size_ofList (given : List (κ × α)) :
    (ofList given).size = (given.map Prod.fst).toFinset.card := by
  have hnodup : (ofList given).keys.Nodup := (ofList given).keys_sorted.imp SortKey.ne_of_before
  have hkeys : (ofList given).keys.toFinset = (given.map Prod.fst).toFinset := by
    ext k
    rw [List.mem_toFinset, List.mem_toFinset, mem_keys_iff, get?_ofList, Option.isSome_iff_ne_none,
      Ne, lastGiven?_eq_none_iff]
    simp
  rw [← hkeys, List.toFinset_card_of_nodup hnodup]
  exact (List.length_map Prod.fst).symm

end Table

namespace SourceId

/-- Says that a source comes before another: the root before all others, and these in the order of the
bytes of their names. -/
def Precedes : SourceId → SourceId → Prop
  | .root, .named _ => True
  | .named a, .named b => bytesOf a < bytesOf b
  | _, .root => False

theorem before_iff_precedes (a b : SourceId) : SortKey.before a b = true ↔ a.Precedes b := by
  cases a with
  | root =>
    cases b with
    | root => exact iff_of_false Bool.false_ne_true id
    | named b => exact iff_of_true rfl trivial
  | named a =>
    cases b with
    | root => exact iff_of_false Bool.false_ne_true id
    | named b => exact before_iff_bytesOf_lt a b

end SourceId

namespace Sources

open Entries

/-- **The sources of a site are a sorted map.** Whatever sources have been given in whatever order, they
stand in the order of their identities, each once. An identity finds the source that was given last
for it, and none exactly if there was none. There are as many sources as identities. Two runs leave
the same sources exactly if they have given the same source last for every identity, so sites whose
sources are the same ones in another order are the same site. And a plain row that is searched by
halving for every insertion and every look-up holds and finds the same. -/
theorem ofList_sorted_map (given : List (SourceId × Source)) :
    (Table.ofList given).keys.Pairwise SourceId.Precedes ∧
    (∀ id, (Table.ofList given).get? id = lastGiven? id given) ∧
    (∀ id, (Table.ofList given).get? id = none ↔ ∀ e ∈ given, e.1 ≠ id) ∧
    (Table.ofList given).size = (given.map Prod.fst).toFinset.card ∧
    (∀ given', Table.ofList given' = Table.ofList given
      ↔ ∀ id, lastGiven? id given' = lastGiven? id given) ∧
    (∀ given', given'.Perm given → (given.map Prod.fst).Nodup → ∀ ext functions,
      Site.ofOptions ⟨ext, Table.ofList given', functions⟩
        = Site.ofOptions ⟨ext, Table.ofList given, functions⟩) ∧
    putAll given = (Table.ofList given).entries ∧
    ∀ id, valueAt (putAll given) (spot id (putAll given)) = lastGiven? id given := by
  refine ⟨?_, Table.get?_ofList given, ?_, Table.size_ofList given, ?_, ?_,
    putAll_eq_entries given, ?_⟩
  · refine (Table.ofList given).keys_sorted.imp ?_
    intro a b hab
    exact (SourceId.before_iff_precedes a b).1 hab
  · intro id
    rw [Table.get?_ofList, lastGiven?_eq_none_iff]
  · intro given'
    exact Table.ofList_eq_iff given given'
  · intro given' hperm hdistinct ext functions
    rw [(Table.ofList_eq_iff given given').2 (lastGiven?_perm hperm hdistinct)]
  · intro id
    rw [putAll_eq_entries, valueAt_spot, Table.get?_ofList]

/-- A source with a single file. -/
def withFile (name : String) : Source := (Memory.ofFiles [(⟨name⟩, "")]).source

/-- The root and two sources that are named for it and not at all, given in another order. -/
theorem ofList_sorted_map_namesakes :
    (Table.ofList [(SourceId.named "root", withFile "a"), (.named "", withFile "b"),
        (.root, withFile "c")]).keys = [.root, .named "", .named "root"] ∧
      ∀ ext functions,
        Site.ofOptions ⟨ext, Table.ofList [(SourceId.named "root", withFile "a"),
            (.named "", withFile "b"), (.root, withFile "c")], functions⟩
          = Site.ofOptions ⟨ext, Table.ofList [(SourceId.root, withFile "c"),
            (.named "root", withFile "a"), (.named "", withFile "b")], functions⟩ := by
  obtain ⟨_, _, _, _, _, horder, _, _⟩ := ofList_sorted_map
    [(SourceId.root, withFile "c"), (.named "root", withFile "a"), (.named "", withFile "b")]
  have hperm : ([(SourceId.named "root", withFile "a"), (.named "", withFile "b")]
      ++ [(SourceId.root, withFile "c")]).Perm ([(SourceId.root, withFile "c")]
      ++ [(SourceId.named "root", withFile "a"), (.named "", withFile "b")]) :=
    List.perm_append_comm
  exact ⟨by decide +kernel, horder _ hperm (by decide)⟩

end Sources

end Stencil
