/-
What slugs look like.

Two facts about characters carry everything here: a small form consists of characters that are their
own small forms, which the table of letters says run against run, and a hyphen is not part of a word.
So a slug is words of small letters and digits with single hyphens between them, it keeps the letters
and digits of the lowered text in their order, and it is its own slug.

A slug can also be written from left to right without looking for words: every character that is no
letter or digit asks for a hyphen, which is written unless nothing or a hyphen stands in front of it,
and what hyphens stand at the end are taken back. That gives the same slug.
-/
import Mathlib.Data.List.Infix
import Stencil.Function.Helper
import Stencil.Proofs.Locations

set_option autoImplicit false
set_option maxRecDepth 16384

namespace Stencil

namespace Text

/-! ## Small letters -/

/-- Whether a counterpart that the run `r` gives can never be one of the letters of the run `s`: it is
below them or above them, or both runs have every second code point and never the same ones. -/
def CaseRun.misses (r s : CaseRun) : Bool :=
  Nat.blt (r.target + (r.last - r.first)) s.first || Nat.blt s.last r.target ||
    ((r.first == r.last || r.step == 2) && s.step == 2 && (r.target + s.first) % 2 == 1)

theorem CaseRun.image?_eq_some_iff {r : CaseRun} {n code : Nat} :
    r.image? n = some code ↔
      (r.first ≤ n ∧ n ≤ r.last ∧ (n - r.first) % r.step = 0) ∧ code = r.target + (n - r.first) := by
  unfold image?
  split
  · rename_i hrun
    rw [and_iff_right hrun, Option.some.injEq, eq_comm]
  · rename_i hrun
    simp [hrun]

theorem CaseRun.image?_eq_none_of_misses {r s : CaseRun} (h : r.misses s = true) {n code : Nat}
    (hcode : r.image? n = some code) : s.image? code = none := by
  obtain ⟨⟨hfirst, hlast, hstep⟩, rfl⟩ := image?_eq_some_iff.1 hcode
  refine Option.eq_none_iff_forall_ne_some.2 fun small hsmall => ?_
  obtain ⟨⟨hbelow, habove, hstep'⟩, -⟩ := image?_eq_some_iff.1 hsmall
  simp only [misses, Bool.or_eq_true, Bool.and_eq_true, Nat.blt_eq, beq_iff_eq] at h
  rcases h with (h | h) | ⟨⟨hone | htwo, htwo'⟩, hodd⟩
  · omega
  · omega
  · rw [htwo'] at hstep'
    omega
  · rw [htwo] at hstep
    rw [htwo'] at hstep'
    omega

/-- No counterpart in the table is a capital of it. -/
theorem misses_lowerRuns :
    (lowerRuns.all fun r => lowerRuns.all fun s => r.misses s) = true := by decide +kernel

/-- Nor is one a capital with more than one small letter. -/
theorem misses_lowerExpansions :
    (lowerRuns.all fun r => lowerExpansions.all fun e => r.misses ⟨e.1, e.1, 1, 0⟩) = true := by
  decide +kernel

/-- Says that the table has no small letter for a code point. -/
def IsSmall (n : Nat) : Prop :=
  lowerExpansions.lookup n = none ∧ lowerRuns.findSome? (·.image? n) = none

instance (n : Nat) : Decidable (IsSmall n) :=
  inferInstanceAs (Decidable (lowerExpansions.lookup n = none ∧ _ = none))

theorem isSmall_of_image? {r : CaseRun} (hr : r ∈ lowerRuns) {n code : Nat}
    (hcode : r.image? n = some code) : IsSmall code := by
  have hruns := List.all_eq_true.1 misses_lowerRuns r hr
  have hexpansions := List.all_eq_true.1 misses_lowerExpansions r hr
  constructor
  · rw [List.lookup_eq_none_iff]
    intro e he
    -- A single capital is a run of its own.
    have hnone := CaseRun.image?_eq_none_of_misses (List.all_eq_true.1 hexpansions e he) hcode
    rw [bne_iff_ne]
    rintro rfl
    simp [CaseRun.image?] at hnone
  · rw [List.findSome?_eq_none_iff]
    intro s hs
    exact CaseRun.image?_eq_none_of_misses (List.all_eq_true.1 hruns s hs) hcode

theorem lowerChar_of_isSmall {c : Char} (h : IsSmall c.toNat) : lowerChar c = [c] := by
  unfold lowerChar counterpart
  rw [h.1, h.2]

/-- A character is given by its code point; what is none stands for the first character. -/
theorem toNat_ofNat_eq_or (n : Nat) : (Char.ofNat n).toNat = n ∨ (Char.ofNat n).toNat = 0 := by
  by_cases hvalid : n.isValidChar
  · rw [Char.ofNat, dif_pos hvalid]
    exact Or.inl rfl
  · rw [Char.ofNat, dif_neg hvalid]
    exact Or.inr rfl

theorem isSmall_ofNat {n : Nat} (h : IsSmall n) : IsSmall (Char.ofNat n).toNat := by
  rcases toNat_ofNat_eq_or n with hn | hn
  · rwa [hn]
  · rw [hn]
    decide +kernel

/-- **Small forms are small.** Every character of a small form is its own small form. -/
theorem lowerChar_of_mem_lowerChar {c d : Char} (h : d ∈ lowerChar c) : lowerChar d = [d] := by
  apply lowerChar_of_isSmall
  unfold lowerChar counterpart at h
  split at h
  · rename_i codes hcodes
    obtain ⟨code, hcode, rfl⟩ := List.mem_map.1 h
    obtain ⟨front, rest, hlist, -⟩ := List.lookup_eq_some_iff.1 hcodes
    have hall : ∀ e ∈ lowerExpansions, ∀ code ∈ e.2, IsSmall code := by decide +kernel
    exact isSmall_ofNat (hall (c.toNat, codes) (by simp [hlist]) code hcode)
  · rename_i hnone
    split at h
    · rename_i code hcode
      obtain ⟨r, hr, himage⟩ := List.exists_of_findSome?_eq_some hcode
      rw [List.mem_singleton.1 h]
      exact isSmall_ofNat (isSmall_of_image? hr himage)
    · rename_i hruns
      rw [List.mem_singleton.1 h]
      exact ⟨hnone, hruns⟩

/-- A text whose characters are their own small forms is its own lowered text. -/
theorem flatMap_lowerChar_eq_self {s : List Char} (h : ∀ c ∈ s, lowerChar c = [c]) :
    s.flatMap lowerChar = s := by
  rw [List.flatMap_congr h, List.flatMap_singleton']

/-! ## Words -/

variable {word run rest s : List Char} {runs : List (List Char)}

/-- Says that a text is a word: some letters or digits and nothing else. -/
def IsWord (run : List Char) : Prop := run ≠ [] ∧ ∀ c ∈ run, isAlphanumeric c = true

theorem ne_hyphen_of_isAlphanumeric {c : Char} (h : isAlphanumeric c = true) : c ≠ '-' := by
  rintro rfl
  rw [isAlphanumeric_hyphen] at h
  exact Bool.false_ne_true h

theorem finishedWord_of_ne_nil (h : word ≠ []) : finishedWord word = [word.reverse] := by
  cases word with
  | nil => exact absurd rfl h
  | cons c word => rfl

/-- Letters and digits go on with the word that is being read. -/
theorem wordsFrom_append (h : ∀ c ∈ run, isAlphanumeric c = true) (word rest : List Char) :
    wordsFrom word (run ++ rest) = wordsFrom (run.reverse ++ word) rest := by
  induction run generalizing word with
  | nil => rfl
  | cons c run ih =>
    rw [List.forall_mem_cons] at h
    rw [List.cons_append, wordsFrom, if_pos h.1, ih h.2, List.reverse_cons, List.append_assoc,
      List.singleton_append]

/-- A hyphen ends the word that is being read. -/
theorem wordsFrom_hyphen (word rest : List Char) :
    wordsFrom word ('-' :: rest) = finishedWord word ++ wordsFrom [] rest := by
  rw [wordsFrom, isAlphanumeric_hyphen, if_neg Bool.false_ne_true]

/-- Words with hyphens between them are read as these words. -/
theorem words_intercalate (h : ∀ run ∈ runs, IsWord run) :
    words (['-'].intercalate runs) = runs := by
  unfold words
  induction runs with
  | nil => rfl
  | cons run runs ih =>
    rw [List.forall_mem_cons] at h
    obtain ⟨⟨hne, hrun⟩, hruns⟩ := h
    have hread : finishedWord (run.reverse ++ []) = [run] := by
      rw [List.append_nil, finishedWord_of_ne_nil (List.reverse_ne_nil_iff.2 hne),
        List.reverse_reverse]
    cases runs with
    | nil =>
      have hall := wordsFrom_append hrun [] []
      rw [List.append_nil, wordsFrom, hread] at hall
      rw [List.intercalate_singleton, hall]
    | cons next runs =>
      rw [List.intercalate_cons_cons, List.append_assoc, wordsFrom_append hrun,
        List.singleton_append, wordsFrom_hyphen, hread, ih hruns, List.singleton_append]

/-- Reading words loses no letter or digit and keeps their order. -/
theorem flatten_wordsFrom (word s : List Char) :
    (wordsFrom word s).flatten = word.reverse ++ s.filter isAlphanumeric := by
  fun_induction wordsFrom word s with
  | case1 word => cases word <;> simp [finishedWord]
  | case2 word c rest hc ih => rw [ih, List.filter_cons_of_pos hc]; simp
  | case3 word c rest hc ih =>
    rw [List.flatten_append, ih, List.filter_cons_of_neg hc]
    cases word <;> simp [finishedWord]

theorem flatten_words (s : List Char) : (words s).flatten = s.filter isAlphanumeric :=
  flatten_wordsFrom [] s

theorem ne_nil_of_mem_finishedWord (h : run ∈ finishedWord word) : run ≠ [] := by
  cases word with
  | nil => exact absurd h List.not_mem_nil
  | cons c word => rw [List.mem_singleton.1 h]; simp

theorem ne_nil_of_mem_wordsFrom (h : run ∈ wordsFrom word s) : run ≠ [] := by
  fun_induction wordsFrom word s with
  | case1 word => exact ne_nil_of_mem_finishedWord h
  | case2 word c rest hc ih => exact ih h
  | case3 word c rest hc ih => exact (List.mem_append.1 h).elim ne_nil_of_mem_finishedWord ih

/-- A character of a word is one of the letters and digits of the text. -/
theorem mem_filter_of_mem_words (h : run ∈ words s) {c : Char} (hc : c ∈ run) :
    c ∈ s.filter isAlphanumeric := by
  rw [← flatten_words]
  exact List.mem_flatten.2 ⟨run, h, hc⟩

theorem isWord_of_mem_words (h : run ∈ words s) : IsWord run :=
  ⟨ne_nil_of_mem_wordsFrom h, fun _ hc => (List.mem_filter.1 (mem_filter_of_mem_words h hc)).2⟩

/-! ## Slugs -/

/-- Says that a text is a slug: words of small letters and digits, with single hyphens between them
and none at either end, or nothing at all. -/
def IsSlug (s : List Char) : Prop :=
  ∃ runs : List (List Char), s = ['-'].intercalate runs ∧
    ∀ run ∈ runs, run ≠ [] ∧ ∀ c ∈ run, isAlphanumeric c = true ∧ lowerChar c = [c]

theorem isSlug_slug (s : List Char) : IsSlug (slug s) := by
  refine ⟨words (s.flatMap lowerChar), rfl, fun run hrun => ?_⟩
  obtain ⟨hne, hword⟩ := isWord_of_mem_words hrun
  refine ⟨hne, fun c hc => ⟨hword c hc, ?_⟩⟩
  have hmem : c ∈ s.flatMap lowerChar := (List.mem_filter.1 (mem_filter_of_mem_words hrun hc)).1
  obtain ⟨d, -, hd⟩ := List.mem_flatMap.1 hmem
  exact lowerChar_of_mem_lowerChar hd

/-- A slug keeps the letters and digits of the lowered text in their order. -/
theorem filter_slug (s : List Char) :
    (slug s).filter isAlphanumeric = (s.flatMap lowerChar).filter isAlphanumeric := by
  have hwords : words (slug s) = words (s.flatMap lowerChar) :=
    words_intercalate fun _ hrun => isWord_of_mem_words hrun
  rw [← flatten_words, hwords, flatten_words]

theorem mem_intercalate {sep : List Char} {c : Char} (h : c ∈ sep.intercalate runs) :
    c ∈ sep ∨ ∃ run ∈ runs, c ∈ run := by
  cases runs using List.reverseRecOn with
  | nil => exact absurd h List.not_mem_nil
  | append_singleton front last =>
    rw [intercalate_append_singleton, List.mem_append, List.mem_flatMap] at h
    rcases h with ⟨run, hrun, hc⟩ | hlast
    · rcases List.mem_append.1 hc with hc | hsep
      · exact Or.inr ⟨run, List.mem_append_left _ hrun, hc⟩
      · exact Or.inl hsep
    · exact Or.inr ⟨last, List.mem_append_right _ List.mem_cons_self, hlast⟩

/-- A slug is its own slug, and no other text is. -/
theorem slug_eq_self_iff : slug s = s ↔ IsSlug s := by
  constructor
  · intro h
    rw [← h]
    exact isSlug_slug s
  · rintro ⟨runs, rfl, hruns⟩
    have hlowered : (['-'].intercalate runs).flatMap lowerChar = ['-'].intercalate runs := by
      apply flatMap_lowerChar_eq_self
      intro c hc
      rcases mem_intercalate hc with hhyphen | ⟨run, hrun, hc⟩
      · rw [List.mem_singleton.1 hhyphen]
        decide +kernel
      · exact ((hruns run hrun).2 c hc).2
    have hwords : ∀ run ∈ runs, IsWord run :=
      fun run hrun => ⟨(hruns run hrun).1, fun c hc => ((hruns run hrun).2 c hc).1⟩
    rw [slug, hlowered, words_intercalate hwords]

/-! ## From left to right -/

/-- Words that are done, each with the hyphen behind it. -/
def withHyphens (runs : List (List Char)) : List Char := runs.flatMap (· ++ ['-'])

theorem withHyphens_append (runs : List (List Char)) (run : List Char) :
    withHyphens (runs ++ [run]) = withHyphens runs ++ (run ++ ['-']) := by
  unfold withHyphens
  rw [List.flatMap_append, List.flatMap_singleton]

theorem intercalate_eq_withHyphens (runs : List (List Char)) (last : List Char) :
    ['-'].intercalate (runs ++ [last]) = withHyphens runs ++ last :=
  intercalate_append_singleton ['-'] runs last

theorem dropWhile_hyphen_of_isWord (h : IsWord run) (written : List Char) :
    (run.reverse ++ written).dropWhile (· == '-') = run.reverse ++ written := by
  obtain ⟨c, front, hfront⟩ := List.exists_cons_of_ne_nil (List.reverse_ne_nil_iff.2 h.1)
  have hc : c ≠ '-' := ne_hyphen_of_isAlphanumeric (h.2 c (List.mem_reverse.1 (by simp [hfront])))
  rw [hfront, List.cons_append, List.dropWhile_cons_of_neg (by simpa using hc)]

/-- What stands at the end when the hyphens there are taken back: the words with single hyphens between
them. -/
theorem reverse_dropWhile_withHyphens (h : ∀ run ∈ runs, IsWord run) :
    ((withHyphens runs).reverse.dropWhile (· == '-')).reverse = ['-'].intercalate runs := by
  cases runs using List.reverseRecOn with
  | nil => rfl
  | append_singleton runs last =>
    have hlast : IsWord last := h last (by simp)
    rw [withHyphens_append, intercalate_eq_withHyphens, List.reverse_append, List.reverse_append,
      List.reverse_singleton, List.singleton_append, List.cons_append,
      List.dropWhile_cons_of_pos (by simp), dropWhile_hyphen_of_isWord hlast, List.reverse_append,
      List.reverse_reverse, List.reverse_reverse]

/-- The invariant of writing from left to right: the words that are done have been written with a
hyphen behind each, and behind them the word that is being read. The induction is on what is left. -/
theorem writeNext_words {done : List (List Char)} (hdone : ∀ run ∈ done, IsWord run)
    (hword : ∀ c ∈ word, isAlphanumeric c = true) :
    ((s.foldl writeNext (word ++ (withHyphens done).reverse)).dropWhile (· == '-')).reverse
      = ['-'].intercalate (done ++ wordsFrom word s) := by
  induction s generalizing done word with
  | nil =>
    rw [List.foldl_nil, wordsFrom]
    by_cases hne : word = []
    · rw [hne, List.nil_append, finishedWord, List.append_nil, reverse_dropWhile_withHyphens hdone]
    · have hrun : IsWord word.reverse :=
        ⟨List.reverse_ne_nil_iff.2 hne, fun c hc => hword c (List.mem_reverse.1 hc)⟩
      have hkept := dropWhile_hyphen_of_isWord hrun (withHyphens done).reverse
      rw [List.reverse_reverse] at hkept
      rw [finishedWord_of_ne_nil hne, intercalate_eq_withHyphens, hkept, List.reverse_append,
        List.reverse_reverse]
  | cons c s ih =>
    rw [List.foldl_cons, wordsFrom]
    by_cases hc : isAlphanumeric c = true
    · rw [writeNext, if_pos hc, if_pos hc]
      exact ih hdone (List.forall_mem_cons.2 ⟨hc, hword⟩)
    · rw [writeNext, if_neg hc, if_neg hc]
      by_cases hne : word = []
      · -- Nothing stands in front, or the hyphen behind the last word.
        have hstart : ¬ ((withHyphens done).reverse ≠ [] ∧
            (withHyphens done).reverse.head? ≠ some '-') := by
          cases done using List.reverseRecOn with
          | nil => simp [withHyphens]
          | append_singleton done last => simp [withHyphens_append]
        rw [hne, List.nil_append, if_neg hstart, finishedWord, List.nil_append]
        exact ih hdone (List.forall_mem_nil _)
      · obtain ⟨d, front, rfl⟩ := List.exists_cons_of_ne_nil hne
        have hd : isAlphanumeric d = true := hword d List.mem_cons_self
        have hgoes : (d :: front) ++ (withHyphens done).reverse ≠ [] ∧
            ((d :: front) ++ (withHyphens done).reverse).head? ≠ some '-' := by
          rw [List.cons_append, List.head?_cons, Ne, Ne, Option.some.injEq]
          exact ⟨List.cons_ne_nil _ _, ne_hyphen_of_isAlphanumeric hd⟩
        have hmore : ∀ run ∈ done ++ [(d :: front).reverse], IsWord run := by
          rw [List.forall_mem_append, List.forall_mem_singleton]
          exact ⟨hdone, List.reverse_ne_nil_iff.2 hne, fun c hc => hword c (List.mem_reverse.1 hc)⟩
        have hnext := ih hmore (List.forall_mem_nil fun c => isAlphanumeric c = true)
        rw [withHyphens_append] at hnext
        rw [if_pos hgoes, finishedWord_of_ne_nil hne, ← List.append_assoc, ← hnext]
        simp

/-- Writing from left to right gives the slug. -/
theorem writtenSlug_eq_slug (s : List Char) : writtenSlug s = slug s := by
  have hall := writeNext_words (s := s.flatMap lowerChar) (List.forall_mem_nil IsWord)
    (List.forall_mem_nil fun c => isAlphanumeric c = true)
  exact hall

end Text

namespace Helper

open Text

theorem apply_slugify (s : String) :
    apply .slugify [.string s] = .ok (ofChars (slug s.toList)) := rfl

/-- **Slugs are a normal form.** Every text has a slug, which is nothing or words of small letters and
digits with single hyphens between them. Its letters and digits are those of the text lowered character
by character, in their order. The slug of a slug is that slug. And it is what is written from left to
right with a hyphen for whatever is no letter or digit, unless one stands there or nothing does. -/
theorem slugify_normal (s : String) :
    ∃ slug : String, apply .slugify [.string s] = .ok (.string slug)
      ∧ IsSlug slug.toList
      ∧ slug.toList.filter isAlphanumeric = (s.toList.flatMap lowerChar).filter isAlphanumeric
      ∧ apply .slugify [.string slug] = .ok (.string slug)
      ∧ slug.toList = writtenSlug s.toList := by
  have hslug := isSlug_slug s.toList
  refine ⟨String.ofList (slug s.toList), apply_slugify s, ?_⟩
  rw [apply_slugify, String.toList_ofList, slug_eq_self_iff.2 hslug]
  exact ⟨hslug, filter_slug s.toList, rfl, (writtenSlug_eq_slug s.toList).symm⟩

/-- A capital may have a small form with a mark in it, which separates words like any other. -/
example : slug ['-', 'İ', 'X', ' ', '-', 'É', '!'] = ['i', '-', 'x', '-', 'é'] := by decide +kernel

end Helper

end Stencil
