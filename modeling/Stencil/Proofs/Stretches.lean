/-
Sources without trim markers.

A source is made of stretches, each a text with the action or comment behind it, and of a last text.
If none of the actions has a trim marker, the tokens are those of the texts as they stand and those of
the actions, one after the other. So sources can be taken apart and put together again by appending
lists of stretches, and nothing has to be known about what stands next to a stretch.
-/
import Stencil.Proofs.Trimming
import Stencil.Proofs.Unplaced

set_option autoImplicit false

namespace Stencil

open Segments

/-- Says that no action or comment of a source has a trim marker. -/
def Untrimmed (source : String) : Prop :=
  ∀ segments, ofSource source = .ok segments →
    ∀ p ∈ segments.others, p.1.trimsBefore = false ∧ p.1.trimsAfter = false

instance (source : String) : Decidable (Untrimmed source) :=
  match h : ofSource source with
  | .error _ => .isTrue fun _ hok => by rw [h] at hok; cases hok
  | .ok segments =>
    decidable_of_iff (∀ p ∈ segments.others, p.1.trimsBefore = false ∧ p.1.trimsAfter = false)
      ⟨fun hall _ hok => by rwa [← Except.ok.inj (h.symm.trans hok)], fun hall => hall segments h⟩

/-- Says that an action or a comment is read as such and has no trim marker. -/
structure ActionText.Plain (a : ActionText) : Prop where
  read : a.IsRead
  opens : opensTrimming a.chars = false
  closes : closesTrimming a.chars = false

/-- A text and the action or comment behind it. -/
@[ext]
structure Stretch where
  text : List Char
  action : ActionText

namespace Stretch

/-- The characters of a stretch. -/
def chars (s : Stretch) : List Char := s.text ++ s.action.chars

/-- The tokens of a stretch that is not trimmed. -/
def tokens (s : Stretch) : List Token := tokensOfText s.text ++ s.action.tokens

/-- Says that a stretch is a text and an action, and that the action has no trim marker. -/
structure Plain (s : Stretch) : Prop where
  text : NoOpening s.text
  action : s.action.Plain

/-- The characters of stretches and of a last text. -/
def charsOf (ss : List Stretch) (last : List Char) : List Char := ss.flatMap chars ++ last

/-- The tokens of stretches and of a last text. -/
def tokensOfAll (ss : List Stretch) (last : List Char) : List Token :=
  ss.flatMap tokens ++ tokensOfText last

end Stretch

open Stretch

namespace Split

/-- Stretches and a last text as texts and actions in turn. -/
def ofStretches : List Stretch → List Char → Split
  | [], last => ⟨last, []⟩
  | s :: more, last =>
    ⟨s.text, (s.action, (ofStretches more last).first) :: (ofStretches more last).others⟩

theorem exists_ofStretches (s : Split) : ∃ ss last, ofStretches ss last = s := by
  obtain ⟨first, others⟩ := s
  induction others generalizing first with
  | nil => exact ⟨[], first, rfl⟩
  | cons p more ih =>
    obtain ⟨ss, last, hmore⟩ := ih p.2
    exact ⟨⟨first, p.1⟩ :: ss, last, by rw [ofStretches, hmore]⟩

theorem ofStretches_injective {ss ss' : List Stretch} {last last' : List Char}
    (h : ofStretches ss last = ofStretches ss' last') : ss = ss' ∧ last = last' := by
  induction ss generalizing ss' with
  | nil =>
    cases ss' with
    | nil => exact ⟨rfl, (Split.mk.inj h).1⟩
    | cons s' more' => exact absurd (Split.mk.inj h).2 (by simp)
  | cons s more ih =>
    cases ss' with
    | nil => exact absurd (Split.mk.inj h).2 (by simp)
    | cons s' more' =>
      obtain ⟨htext, hothers⟩ := Split.mk.inj h
      obtain ⟨hpair, hmore⟩ := List.cons.inj hothers
      obtain ⟨haction, hfirst⟩ := Prod.mk.inj hpair
      obtain ⟨rfl, rfl⟩ := ih (Split.ext hfirst hmore)
      exact ⟨by rw [Stretch.ext htext haction], rfl⟩

theorem chars_ofStretches (ss : List Stretch) (last : List Char) :
    (ofStretches ss last).chars = charsOf ss last := by
  induction ss with
  | nil => rfl
  | cons s more ih =>
    show s.text ++ s.action.chars ++ (ofStretches more last).chars = _
    rw [ih, charsOf, charsOf, List.flatMap_cons, List.append_assoc s.chars]
    rfl

theorem actions_ofStretches (ss : List Stretch) (last : List Char) :
    (ofStretches ss last).actions = ss.map Stretch.action := by
  induction ss with
  | nil => rfl
  | cons s more ih => exact congrArg (s.action :: ·) ih

theorem texts_ofStretches (ss : List Stretch) (last : List Char) :
    (ofStretches ss last).texts = ss.map Stretch.text ++ [last] := by
  induction ss with
  | nil => rfl
  | cons s more ih => exact congrArg (s.text :: ·) ih

theorem proper_ofStretches_iff {ss : List Stretch} {last : List Char} :
    (ofStretches ss last).Proper
      ↔ (∀ s ∈ ss, NoOpening s.text ∧ s.action.IsRead) ∧ ¬ ['\x7b', '\x7b'] <:+: last := by
  induction ss with
  | nil => exact ⟨fun h => ⟨fun s hs => absurd hs List.not_mem_nil, h⟩, And.right⟩
  | cons s more ih =>
    show NoOpening s.text ∧ s.action.IsRead ∧ (ofStretches more last).Proper ↔ _
    rw [ih, List.forall_mem_cons, and_assoc, and_assoc]

/-- Without trim markers, texts are kept as they stand. -/
theorem interleave_ofStretches {ss : List Stretch} {last : List Char} (hss : ∀ s ∈ ss, s.Plain) :
    ∀ before : Option ActionText, before.any (closesTrimming ·.chars) = false →
      interleave (keptFrom before (ofStretches ss last).first (ofStretches ss last).others)
        (ofStretches ss last).actions = tokensOfAll ss last := by
  induction ss with
  | nil =>
    intro before hbefore
    simp [ofStretches, keptFrom, actions, interleave, trimmed, hbefore, tokensOfAll]
  | cons s more ih =>
    intro before hbefore
    obtain ⟨hs, hmore⟩ := List.forall_mem_cons.1 hss
    have hrest := ih hmore (some s.action) hs.action.closes
    show tokensOfText (trimmed before s.text (some s.action)) ++ s.action.tokens
      ++ interleave (keptFrom (some s.action) _ _) (ofStretches more last).actions = _
    rw [hrest, tokensOfAll, tokensOfAll, List.flatMap_cons, List.append_assoc s.tokens]
    simp [trimmed, hbefore, hs.action.opens, Stretch.tokens]

end Split

/-! ## What a source is made of -/

/-- Says that a source without trim markers is made of stretches and a last text. -/
structure MadeOf (source : String) (ss : List Stretch) (last : List Char) : Prop where
  plain : ∀ s ∈ ss, s.Plain
  ends : ¬ ['\x7b', '\x7b'] <:+: last
  chars : source = String.ofList (charsOf ss last)

namespace MadeOf

variable {source : String} {ss : List Stretch} {last : List Char}

theorem proper (h : MadeOf source ss last) : (Split.ofStretches ss last).Proper :=
  Split.proper_ofStretches_iff.2 ⟨fun s hs => ⟨(h.plain s hs).text, (h.plain s hs).action.read⟩, h.ends⟩

/-- The tokens of a source are those of what it is made of. -/
theorem exists_tokensOf (h : MadeOf source ss last) :
    ∃ ts, tokensOf source = .ok ts ∧ ts.map PlacedToken.token = tokensOfAll ss last := by
  obtain ⟨ts, hts, hyields⟩ := Split.yields_of_proper h.proper
  rw [Split.chars_ofStretches, ← h.chars] at hts
  refine ⟨ts, hts, ?_⟩
  rw [hyields.tokens, Split.keptTexts_eq]
  exact Split.interleave_ofStretches h.plain none rfl

/-- The scanner finds the texts and actions that a source is made of. -/
theorem exists_segments (h : MadeOf source ss last) :
    ∃ segments, ofSource source = .ok segments
      ∧ segments.first.chars :: segments.others.map (·.2.chars) = ss.map Stretch.text ++ [last]
      ∧ segments.others.map (·.1.tokens.map PlacedToken.token) = ss.map (·.action.tokens) := by
  obtain ⟨_, _, hyields⟩ := Split.yields_of_proper h.proper
  obtain ⟨segments, hsegments, htexts, htokens⟩ := hyields.scanned
  rw [Split.chars_ofStretches, ← h.chars] at hsegments
  rw [Split.texts_ofStretches] at htexts
  rw [Split.actions_ofStretches, List.map_map] at htokens
  exact ⟨segments, hsegments, htexts, htokens⟩

/-- A source is made in one way only. -/
theorem unique (h : MadeOf source ss last) {ss' : List Stretch} {last' : List Char}
    (h' : MadeOf source ss' last') : ss' = ss ∧ last' = last := by
  have hchars : (Split.ofStretches ss' last').chars = (Split.ofStretches ss last).chars := by
    rw [Split.chars_ofStretches, Split.chars_ofStretches]
    exact String.ofList_injective (h'.chars.symm.trans h.chars)
  obtain ⟨hfirst, hothers⟩ := Split.eq_of_charsFrom_eq h'.proper h.proper hchars
  exact Split.ofStretches_injective (Split.ext hfirst hothers)

end MadeOf

/-- A source that has tokens and no trim markers is made of stretches and a last text. -/
theorem exists_madeOf {source : String} {ts : List PlacedToken} (h : tokensOf source = .ok ts)
    (huntrimmed : Untrimmed source) : ∃ ss last, MadeOf source ss last := by
  obtain ⟨s, hproper, hchars⟩ := Split.exists_proper_of_tokensOf h
  obtain ⟨ss, last, rfl⟩ := s.exists_ofStretches
  obtain ⟨hss, hlast⟩ := Split.proper_ofStretches_iff.1 hproper
  obtain ⟨segments, hsegments, -, hmatches⟩ := Split.segmentsFrom_of_proper hproper .start
  have hscanned : ofSource source = .ok segments := by
    rw [← hchars, ofSource, String.toList_ofList]
    exact hsegments
  have huntrimmed := huntrimmed segments hscanned
  rw [Split.chars_ofStretches] at hchars
  refine ⟨ss, last, fun s hs => ?_, hlast, hchars.symm⟩
  have hread : (opensTrimming s.action.chars, closesTrimming s.action.chars)
      ∈ segments.others.map fun p => (p.1.trimsBefore, p.1.trimsAfter) := by
    rw [Split.map_eq_of_matches
      (g := fun q : ActionText × List Char => (opensTrimming q.1.chars, closesTrimming q.1.chars))
      (fun hpq => Prod.ext hpq.before hpq.after) hmatches]
    have haction : s.action ∈ (Split.ofStretches ss last).actions := by
      rw [Split.actions_ofStretches]
      exact List.mem_map_of_mem hs
    obtain ⟨q, hq, hqs⟩ := List.mem_map.1 haction
    exact List.mem_map.2 ⟨q, hq, by rw [hqs]⟩
  obtain ⟨p, hp, hsame⟩ := List.mem_map.1 hread
  obtain ⟨hbefore, hafter⟩ := huntrimmed p hp
  rw [hbefore, hafter] at hsame
  obtain ⟨hopens, hcloses⟩ := Prod.mk.inj hsame
  exact ⟨(hss s hs).1, (hss s hs).2, hopens.symm, hcloses.symm⟩

/-! ## Parsing -/

/-- Tokens, all of them at the start. -/
def unplacedTokens (ts : List Token) : List PlacedToken := ts.map fun t => ⟨t, .start⟩

theorem map_unplaced (ts : List PlacedToken) :
    ts.map PlacedToken.unplaced = unplacedTokens (ts.map PlacedToken.token) := by
  rw [unplacedTokens, List.map_map]
  rfl

/-- Up to positions, a source is parsed to what the tokens of its texts and actions are read as. -/
theorem MadeOf.exists_parse_iff {source : String} {ss : List Stretch} {last : List Char}
    (h : MadeOf source ss last) {defined : String → Bool} {name : String} {nodes : List Node}
    {ds : List Tree} :
    (∃ parsed, Parser.parse defined name source = .ok parsed
        ∧ parsed.unplaced = ⟨⟨name, nodes⟩, ds⟩)
      ↔ Parser.run defined .initial (unplacedTokens (tokensOfAll ss last))
          = .ok ⟨nodes, [], ds, .outside⟩ := by
  obtain ⟨ts, hts, htokens⟩ := h.exists_tokensOf
  rw [Parser.exists_parse_iff_run_unplaced, ← htokens, ← map_unplaced]
  constructor
  · rintro ⟨ts', hts', hrun⟩
    rwa [Except.ok.inj (hts.symm.trans hts')]
  · exact fun hrun => ⟨ts, hts, hrun⟩

end Stencil
