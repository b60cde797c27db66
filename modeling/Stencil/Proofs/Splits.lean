/-
The split of a source into texts and actions.

A source is split into texts, which may be empty, and actions or comments between them. Which
stretches of characters are actions is asked of the scanner, but of each stretch by itself: it has to
be read as one action when it is the whole source. A split of this kind exists for every source that
can be split at all, there is no second one, and putting other texts between the same actions gives
a source that is split again in the same way.
-/
import Mathlib.Data.List.Forall2
import Stencil.Proofs.ActionTexts

set_option autoImplicit false

namespace Stencil

open Segments

/-! ## Actions by themselves -/

/-- An action or a comment as it stands in a source, with the tokens that it gives. -/
@[ext]
structure ActionText where
  chars : List Char
  tokens : List Token

/-- Says that an action is read as such when nothing else is there: it is all that the source has, and
these are its tokens. -/
def ActionText.IsRead (a : ActionText) : Prop :=
  ∃ action pos, ofSource (String.ofList a.chars) = .ok ⟨⟨.start, []⟩, [(action, ⟨pos, []⟩)]⟩
    ∧ action.tokens.map PlacedToken.token = a.tokens

namespace Segments

/-- A text with an action behind it, and what follows that. -/
theorem segmentsFrom_eq_bind {pos : Position} {s t body : List Char}
    (h : takeText s = (t, '\x7b' :: '\x7b' :: body)) :
    segmentsFrom pos s = (action (pos.past t) body).bind fun read =>
      (segmentsFrom read.2.pos read.2.rest).bind fun more =>
        .ok ⟨⟨pos, t⟩, (⟨read.1, read.2.tokens, read.2.trimsAfter⟩, more.first) :: more.others⟩ := by
  conv =>
    lhs
    unfold segmentsFrom
  split
  · rename_i heq
    rw [h] at heq
    obtain ⟨_, hrest⟩ := List.cons.inj heq
    obtain ⟨_, rfl⟩ := List.cons.inj hrest
    simp only
    split
    · rename_i hfail
      rw [h] at hfail
      rw [hfail]
      rfl
    · rename_i hok
      rw [h] at hok
      rw [hok, h]
      rfl
  · rename_i hnone
    rw [h] at hnone
    exact absurd rfl (hnone _ _ _)

/-- The two ways in which a source is split: it is a text, or a text with an action behind it. -/
theorem segmentsFrom_cases {pos : Position} {s : List Char} {segments : Segments}
    (h : segmentsFrom pos s = .ok segments) :
    (takeText s = (s, []) ∧ segments = ⟨⟨pos, s⟩, []⟩) ∨
    ∃ t body trims f more, takeText s = (t, '\x7b' :: '\x7b' :: body)
      ∧ action (pos.past t) body = .ok (trims, f) ∧ segmentsFrom f.pos f.rest = .ok more
      ∧ segments = ⟨⟨pos, t⟩, (⟨trims, f.tokens, f.trimsAfter⟩, more.first) :: more.others⟩ := by
  have hsplit := takeText_append_rest s
  rcases rest_of_takeText s with hend | ⟨body, hbody⟩
  · left
    rw [hend, List.append_nil] at hsplit
    have htext : takeText s = (s, []) := Prod.ext hsplit hend
    exact ⟨htext, Except.ok.inj (h.symm.trans (segmentsFrom_of_end htext))⟩
  · right
    have htext : takeText s = ((takeText s).1, '\x7b' :: '\x7b' :: body) := Prod.ext rfl hbody
    rw [segmentsFrom_eq_bind htext] at h
    obtain ⟨⟨trims, f⟩, haction, h⟩ := Runs.bind_eq_ok.1 h
    obtain ⟨more, hmore, h⟩ := Runs.bind_eq_ok.1 h
    exact ⟨_, body, trims, f, more, htext, haction, hmore, (Except.ok.inj h).symm⟩

/-- A text without an opening delimiter is the end of a source. -/
theorem takeText_of_noDelimiter {t : List Char} (h : ¬ ['\x7b', '\x7b'] <:+: t) :
    takeText t = (t, []) := by
  have hsplit := takeText_append_rest t
  rcases rest_of_takeText t with hnil | ⟨more, hmore⟩
  · rw [hnil, List.append_nil] at hsplit
    exact Prod.ext hsplit hnil
  · rw [hmore] at hsplit
    exact absurd ⟨(takeText t).1, more, by simpa using hsplit⟩ h

/-- A text in front of an action ends where the first opening delimiter begins. -/
theorem noOpening_takeText {s body : List Char}
    (h : (takeText s).2 = '\x7b' :: '\x7b' :: body) : NoOpening (takeText s).1 := by
  refine ⟨?_, ?_⟩
  · rw [Bool.eq_false_iff]
    intro hoccurs
    exact not_infix_takeText s (Text.occurs_iff.1 hoccurs)
  · fun_induction takeText s with
    | case1 => exact fun h => by cases h
    | case2 => exact fun h => by cases h
    | case3 c rest hnone text more heq ih =>
      have hsplit := takeText_append_rest rest
      rw [heq] at ih hsplit
      cases text with
      | nil =>
        -- A brace here would have begun the delimiter one character earlier.
        intro hlast
        rw [List.nil_append, show more = '\x7b' :: '\x7b' :: body from h] at hsplit
        exact hnone ('\x7b' :: body) (Option.some.inj hlast) hsplit.symm
      | cons d text =>
        rw [List.getLast?_cons_cons]
        exact ih h

end Segments

/-- Being read as an action alone and being read as one everywhere is the same. -/
theorem ActionText.isRead_iff (a : ActionText) : a.IsRead ↔ ReadsAction a.chars a.tokens := by
  constructor
  · rintro ⟨read, pos, h, htokens⟩
    rw [ofSource, String.toList_ofList] at h
    rcases segmentsFrom_cases h with ⟨-, heq⟩ | ⟨t, body, trims, f, more, htext, haction, hmore, heq⟩
    · simp at heq
    · simp only [Segments.mk.injEq, RawText.mk.injEq, true_and, List.cons.injEq, Prod.mk.injEq] at heq
      obtain ⟨rfl, ⟨rfl, hfirst⟩, hothers⟩ := heq
      -- Behind the action there is nothing left, since an empty text is the rest of the source.
      have hrest : f.rest = [] := by
        rcases segmentsFrom_cases hmore with ⟨-, rfl⟩ | ⟨_, _, _, _, _, _, _, _, rfl⟩
        · exact (RawText.mk.inj hfirst).2.symm
        · exact absurd hothers (by simp)
      rw [Position.past_nil, ← Position.behind_nil] at haction
      obtain ⟨w, hw, hreads⟩ := readsAction_of_action haction
      rw [hrest, List.append_nil] at hw
      have hchars : a.chars = '\x7b' :: '\x7b' :: w := by
        rw [← takeText_append_rest a.chars, htext, hw, List.nil_append]
      rw [hchars, ← htokens]
      exact hreads
  · intro h
    obtain ⟨body, hchars, hagain⟩ := h.again
    obtain ⟨f, haction, htokens, -, hrest⟩ := hagain (Position.start.past []) []
    rw [List.append_nil] at haction
    have htext : takeText a.chars = ([], '\x7b' :: '\x7b' :: body) := by
      rw [hchars]
      rfl
    have hend : segmentsFrom f.pos f.rest = .ok ⟨⟨f.pos, []⟩, []⟩ := by
      rw [hrest]
      exact segmentsFrom_of_end rfl
    refine ⟨⟨opensTrimming a.chars, f.tokens, f.trimsAfter⟩, f.pos, ?_, htokens⟩
    rw [ofSource, String.toList_ofList]
    exact segmentsFrom_of_action htext haction hend

/-! ## Splits -/

/-- Texts and actions in turn, each action with the text behind it. -/
@[ext]
structure Split where
  first : List Char
  others : List (ActionText × List Char)

namespace Split

/-- The characters of a text and of everything behind it. -/
def charsFrom (t : List Char) : List (ActionText × List Char) → List Char
  | [] => t
  | (a, next) :: more => t ++ a.chars ++ charsFrom next more

/-- The source that is split. -/
def chars (s : Split) : List Char := charsFrom s.first s.others

/-- Says that actions are read as such and that texts are not: no opening delimiter begins in the last
text, and in a text before an action none begins even with the first brace of the action's own. -/
def ProperFrom (t : List Char) : List (ActionText × List Char) → Prop
  | [] => ¬ ['\x7b', '\x7b'] <:+: t
  | (a, next) :: more => NoOpening t ∧ a.IsRead ∧ ProperFrom next more

/-- Says that a split is one into texts and actions. -/
def Proper (s : Split) : Prop := ProperFrom s.first s.others

theorem takeText_charsFrom_cons {t next : List Char} {a : ActionText}
    {more : List (ActionText × List Char)} (h : ProperFrom t ((a, next) :: more)) :
    ∃ body, a.chars = '\x7b' :: '\x7b' :: body ∧ takeText (charsFrom t ((a, next) :: more))
      = (t, '\x7b' :: '\x7b' :: (body ++ charsFrom next more)) := by
  obtain ⟨ht, ha, -⟩ := h
  obtain ⟨body, hbody, -⟩ := (a.isRead_iff.1 ha).again
  refine ⟨body, hbody, ?_⟩
  rw [charsFrom, hbody, List.append_assoc]
  exact takeText_append ht (Or.inr ⟨_, rfl⟩)

/-- What a source that can be split is split into. -/
theorem exists_proper {before s : List Char} {segments : Segments}
    (h : segmentsFrom (Position.behind before) s = .ok segments) :
    ∃ t others, ProperFrom t others ∧ charsFrom t others = s := by
  generalize hpos : Position.behind before = pos at h
  fun_induction segmentsFrom pos s generalizing before segments with
  | case1 => exact absurd h (by simp)
  | case2 pos s c d body hrest start trims f =>
    rename_i haction ih
    obtain ⟨more, hmore, -⟩ := Runs.monad_bind_eq_ok.1 h
    have hplace : start = Position.behind (before ++ (takeText s).1) := by
      rw [← Position.past_behind, hpos]
    rw [hplace] at haction
    obtain ⟨w, rfl, hreads⟩ := readsAction_of_action haction
    obtain ⟨after, -, hafter, -⟩ := reads_of_action haction
    obtain ⟨next, others, hproper, hchars⟩ := ih hafter.symm hmore
    have hbody := rest_of_takeText_cons hrest
    have hread : ActionText.IsRead
        ⟨'\x7b' :: '\x7b' :: w, f.tokens.map PlacedToken.token⟩ := (ActionText.isRead_iff _).2 hreads
    refine ⟨(takeText s).1, (_, next) :: others, ⟨noOpening_takeText hbody, hread, hproper⟩, ?_⟩
    rw [charsFrom, hchars, List.append_assoc]
    have hsplit := takeText_append_rest s
    rw [hbody] at hsplit
    exact hsplit
  | case3 pos s hnone =>
    have hsplit := takeText_append_rest s
    have hend : (takeText s).2 = [] := by
      rcases rest_of_takeText s with hnil | ⟨body, hbody⟩
      · exact hnil
      · exact absurd hbody (hnone _ _ _)
    rw [hend, List.append_nil] at hsplit
    refine ⟨s, [], ?_, rfl⟩
    have htext := not_infix_takeText s
    rwa [hsplit] at htext

/-- Says that what the scanner has made of an action and the text behind it is what a split has
there. -/
structure Matches (read : Action × RawText) (given : ActionText × List Char) : Prop where
  tokens : read.1.tokens.map PlacedToken.token = given.1.tokens
  before : read.1.trimsBefore = opensTrimming given.1.chars
  after : read.1.trimsAfter = closesTrimming given.1.chars
  text : read.2.chars = given.2

/-- A source that is put together from texts and actions is split into them again. -/
theorem segmentsFrom_of_proper {others : List (ActionText × List Char)} :
    ∀ {t : List Char}, ProperFrom t others → ∀ pos, ∃ segments,
      segmentsFrom pos (charsFrom t others) = .ok segments ∧ segments.first.chars = t
        ∧ List.Forall₂ Matches segments.others others := by
  induction others with
  | nil =>
    intro t h pos
    exact ⟨_, segmentsFrom_of_end (takeText_of_noDelimiter h), rfl, .nil⟩
  | cons p more ih =>
    -- The action is read as if it were alone, and what it leaves is the next text.
    obtain ⟨a, next⟩ := p
    intro t h pos
    obtain ⟨body, hbody, htext⟩ := takeText_charsFrom_cons h
    obtain ⟨body', hbody', hagain⟩ := (a.isRead_iff.1 h.2.1).again
    have hsame : body' = body := (List.cons.inj (List.cons.inj (hbody'.symm.trans hbody)).2).2
    rw [hsame] at hagain
    obtain ⟨f, haction, htokens, htrims, hrest⟩ := hagain (pos.past t) (charsFrom next more)
    obtain ⟨later, hlater, hfirst, hmatches⟩ := ih h.2.2 f.pos
    rw [← hrest] at hlater
    refine ⟨_, segmentsFrom_of_action htext haction hlater, rfl, ?_⟩
    exact .cons ⟨htokens, rfl, htrims, hfirst⟩ hmatches

/-- A source is put together from texts and actions in one way only. -/
theorem eq_of_charsFrom_eq {others others' : List (ActionText × List Char)} :
    ∀ {t t' : List Char}, ProperFrom t others → ProperFrom t' others' →
      charsFrom t others = charsFrom t' others' → t = t' ∧ others = others' := by
  induction others generalizing others' with
  | nil =>
    intro t t' h h' heq
    have htext : takeText (charsFrom t' others') = (t, []) := by
      rw [← heq]
      exact takeText_of_noDelimiter h
    cases others' with
    | nil => exact ⟨heq, rfl⟩
    | cons p more' =>
      -- One split ends where the other one comes to an action.
      obtain ⟨body, -, htext'⟩ := takeText_charsFrom_cons h'
      rw [htext] at htext'
      simp at htext'
  | cons p more ih =>
    obtain ⟨a, next⟩ := p
    intro t t' h h' heq
    obtain ⟨body, hbody, htext⟩ := takeText_charsFrom_cons h
    cases others' with
    | nil =>
      rw [heq] at htext
      have htext' := htext.symm.trans (takeText_of_noDelimiter h')
      simp at htext'
    | cons p' more' =>
      obtain ⟨a', next'⟩ := p'
      obtain ⟨body', hbody', htext'⟩ := takeText_charsFrom_cons h'
      rw [heq, htext'] at htext
      simp only [Prod.mk.injEq, List.cons.injEq, true_and] at htext
      obtain ⟨rfl, hrests⟩ := htext
      -- Both actions are read from the same characters, so they end at the same place.
      obtain ⟨w, hw, hagain⟩ := (a.isRead_iff.1 h.2.1).again
      obtain ⟨w', hw', hagain'⟩ := (a'.isRead_iff.1 h'.2.1).again
      have hbody := (List.cons.inj (List.cons.inj (hw.symm.trans hbody)).2).2
      have hbody' := (List.cons.inj (List.cons.inj (hw'.symm.trans hbody')).2).2
      obtain ⟨f, hf, htokens, -, hrest⟩ := hagain .start (charsFrom next more)
      obtain ⟨f', hf', htokens', -, hrest'⟩ := hagain' .start (charsFrom next' more')
      rw [hbody', hrests, ← hbody, hf] at hf'
      have hff : f = f' := (Prod.mk.inj (Except.ok.inj hf')).2
      have hbehind : charsFrom next more = charsFrom next' more' := by rw [← hrest, ← hrest', hff]
      obtain ⟨rfl, rfl⟩ := ih h.2.2 h'.2.2 hbehind
      have hsame : a = a' := by
        have hchars : a.chars = a'.chars := by
          rw [hw, hw', hbody, hbody', List.append_cancel_right hrests]
        have htokens : a.tokens = a'.tokens := by rw [← htokens, ← htokens', hff]
        exact ActionText.ext hchars htokens
      exact ⟨rfl, by rw [hsame]⟩

end Split

end Stencil
