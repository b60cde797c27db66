/-
Headers as texts.

An action that begins with a word is the delimiter, the word behind blanks, and what the scanner reads
behind that. The word can be replaced by another one, and what is behind it is read as before. So a
block's header is turned into the call of the same name with the same pipeline, and the header of a
definition is written down for any name. None of this has a trim marker if the block's header has none.
-/
import Stencil.Proofs.Stretches

set_option autoImplicit false

namespace Stencil

open Segments Lexeme

/-! ## Words in front -/

/-- A keyword has one spelling. -/
theorem Token.WrittenAs.keyword {k : Keyword} {w : List Char} (h : (Token.keyword k).WrittenAs w) :
    w = k.spelling.toList := by
  cases h with
  | fixed _ => rfl

namespace Segments

/-- A token in front of what is read as the inside of an action, if the scanner finds it there. -/
theorem ReadsInside.of_scans {gap tail : List Char} {t : Token} {ts : List Token}
    (hgap : gap.all Text.isBlank = true) (ht : Scans t tail) (h : ReadsInside tail ts) :
    ReadsInside (gap ++ (t.spelling ++ tail)) (t :: ts) := by
  obtain ⟨c, w, hspelling, hopens, hscan⟩ := ht
  have hclosing : closing? (c :: (w ++ (tail ++ []))) = none := by
    rw [List.append_nil]
    exact closing?_of_opens hopens
  have hagain : scan c (w ++ (tail ++ [])) = .ok ⟨t, t.spelling, tail⟩ := by
    rwa [List.append_nil]
  rw [hspelling]
  exact .token hgap hopens.notBlank hclosing hagain hspelling (List.append_nil tail).symm h

/-- An inside that begins with a word, and with which an action without a trim marker begins. -/
structure BeginsWith (k : Keyword) (inner gap tail : List Char) (ts : List Token) : Prop where
  chars : inner = gap ++ (k.spelling.toList ++ tail)
  blanks : gap.all Text.isBlank = true
  stops : ∀ c rest, tail = c :: rest → isNameChar c = false
  reads : ReadsInside tail ts

namespace BeginsWith

variable {k : Keyword} {inner gap tail : List Char} {ts : List Token}

theorem exists_cons (h : BeginsWith k inner gap tail ts) :
    ∃ c w, isNameStart c = true ∧ inner = gap ++ c :: (w ++ tail) := by
  have hword : isIdentifier k.spelling = true := by cases k <;> rfl
  obtain ⟨c, w, hchars, hc, -⟩ := isName_of_isIdentifier hword
  exact ⟨c, w, hc, by rw [h.chars, hchars, List.cons_append]⟩

theorem openingMarker_eq (h : BeginsWith k inner gap tail ts) : openingMarker inner = ([], inner) := by
  obtain ⟨c, w, hc, hinner⟩ := h.exists_cons
  obtain ⟨d, more, hd, hminus⟩ : ∃ d more, inner = d :: more ∧ d ≠ '-' := by
    cases hgap : gap with
    | nil => exact ⟨c, w ++ tail, by rw [hinner, hgap]; rfl, ne_of_test hc rfl⟩
    | cons d gap' =>
      have hblank := h.blanks
      rw [hgap, List.all_cons, Bool.and_eq_true] at hblank
      exact ⟨d, gap' ++ c :: (w ++ tail), by rw [hinner, hgap]; rfl, ne_of_test hblank.1 rfl⟩
  rw [hd]
  unfold openingMarker
  split
  · rename_i heq
    exact absurd (List.cons.inj heq).1 hminus
  · rfl

theorem startsComment_eq (h : BeginsWith k inner gap tail ts) :
    startsComment (inner.dropWhile Text.isBlank) = false := by
  obtain ⟨c, w, hc, hinner⟩ := h.exists_cons
  rw [hinner, dropWhile_blanks h.blanks (Text.isBlank_of_isNameChar (isNameChar_of_isNameStart hc))]
  unfold startsComment
  split
  · rename_i heq
    exact absurd (List.cons.inj heq).1 (ne_of_test hc rfl)
  · rfl

/-- Such an action is read as one. -/
theorem readsAction (h : BeginsWith k inner gap tail ts) :
    ReadsAction ('\x7b' :: '\x7b' :: inner) (.actionStart :: .keyword k :: ts) := by
  have hreads : ReadsInside inner (.keyword k :: ts) := by
    rw [h.chars]
    exact h.reads.of_scans h.blanks (scans_keyword h.stops)
  have hmarker : openingMarker ([] ++ (inner ++ [])) = ([], inner ++ []) := by
    rw [List.nil_append, List.append_nil]
    exact h.openingMarker_eq
  have hcomment : startsComment ((inner ++ []).dropWhile Text.isBlank) = false := by
    rw [List.append_nil]
    exact h.startsComment_eq
  exact hreads.action hmarker hcomment

theorem opensTrimming_eq (h : BeginsWith k inner gap tail ts) :
    opensTrimming ('\x7b' :: '\x7b' :: inner) = false := by
  rw [Segments.opensTrimming_eq, h.openingMarker_eq]
  rfl

/-- Its end is the end of what is behind the word. -/
theorem closesTrimming_eq (h : BeginsWith k inner gap tail ts) :
    closesTrimming ('\x7b' :: '\x7b' :: inner) = closesTrimming tail := by
  have hlast : ('\x7b' :: '\x7b' :: (gap ++ k.spelling.toList)).getLast? ≠ some '-' := by
    rw [← List.cons_append, ← List.cons_append, getLast?_append_of_ne_nil (by cases k <;> decide)]
    cases k <;> decide
  rw [h.chars, ← List.append_assoc]
  exact closesTrimming_append h.reads.two_le_length hlast

end BeginsWith

/-- What is read with a word in front begins with the word. -/
theorem exists_beginsWith_of_actionTokens {start pos : Position} {s : List Char} {f : Finished}
    {k : Keyword} {ts : List Token} (h : actionTokens start pos s = .ok f) (hrest : f.rest = [])
    (htokens : f.tokens.map PlacedToken.token = .keyword k :: ts) :
    ∃ gap tail, BeginsWith k s gap tail ts := by
  fun_induction actionTokens start pos s with
  | case1 =>
    rw [← Except.ok.inj h] at htokens
    exact absurd htokens (by simp)
  | case2 => exact absurd h (by simp)
  | case3 => exact absurd h (by simp)
  | case4 pos s inner newPos hclose c more hinner l =>
    rename_i hscan _
    obtain ⟨finished, hf, h⟩ := Runs.monad_bind_eq_ok.1 h
    rw [← Except.ok.inj h] at hrest htokens
    obtain ⟨hword, hts⟩ := List.cons.inj htokens
    have hwritten := writtenAs_of_scan hscan
    rw [show l.token = .keyword k from hword] at hwritten
    have hspelling : l.spelling = k.spelling.toList := hwritten.keyword
    have hsplit := spelling_append_rest_of_scan hscan
    obtain ⟨tail, htail, hreads⟩ := readsInside_of_actionTokens hf
    rw [show finished.rest = [] from hrest, List.append_nil] at htail
    rw [show finished.tokens.map PlacedToken.token = ts from hts] at hreads
    have hdrop : s.dropWhile Text.isBlank = c :: more := hinner
    refine ⟨s.takeWhile Text.isBlank, tail, ?_, List.all_takeWhile, ?_, hreads⟩
    · rw [← htail, ← hspelling, hsplit, ← hdrop]
      exact List.takeWhile_append_dropWhile.symm
    · -- The word was read up to the first character that belongs to none.
      intro d rest hd
      have hc : isNameStart c = true := by
        rw [hspelling] at hsplit
        cases k <;> exact (List.cons.inj hsplit).1 ▸ rfl
      rw [scan_of_isNameStart hc] at hscan
      rw [← htail, ← Except.ok.inj hscan] at hd
      exact stop_dropWhile _ d rest hd

end Segments

/-! ## Headers -/

namespace ActionText

theorem plain_of_beginsWith {k : Keyword} {inner gap tail : List Char} {ts : List Token}
    (h : BeginsWith k inner gap tail ts) (htail : closesTrimming tail = false) :
    Plain ⟨'\x7b' :: '\x7b' :: inner, .actionStart :: .keyword k :: ts⟩ :=
  ⟨(isRead_iff _).2 h.readsAction, h.opensTrimming_eq, h.closesTrimming_eq.trans htail⟩

/-- An action without a trim marker whose first token is a word begins with the word. -/
theorem Plain.exists_beginsWith {a : ActionText} {k : Keyword} {ts : List Token} (h : a.Plain)
    (htokens : a.tokens = .actionStart :: .keyword k :: ts) :
    ∃ inner gap tail, a.chars = '\x7b' :: '\x7b' :: inner ∧ BeginsWith k inner gap tail ts := by
  obtain ⟨inner, hchars, hagain⟩ := (a.isRead_iff.1 h.read).again
  obtain ⟨f, hf, hftokens, -, hrest⟩ := hagain (.behind []) []
  have hopens := h.opens
  rw [hchars, opensTrimming_eq] at hopens
  rw [List.append_nil] at hf
  cases hopening : openingMarker inner with
  | mk marker body =>
    obtain ⟨hsplit, hmarker⟩ := openingMarker_split hopening
    rw [hopening] at hopens
    obtain rfl : marker = [] := by simpa using hopens
    obtain rfl : inner = body := hsplit
    simp only [action, hopening] at hf
    split at hf
    · rename_i hstarts
      obtain ⟨finished, hcomment, hf⟩ := Runs.monad_bind_eq_ok.1 hf
      rw [Position.past_behind, Position.past_behind, Position.past_behind] at hcomment
      obtain ⟨-, -, -, hnone, -⟩ := isComment_of_comment (.inl rfl) hstarts hcomment
      rw [← (Prod.mk.inj (Except.ok.inj hf)).2, hnone, htokens] at hftokens
      cases hftokens
    · obtain ⟨finished, hinner, hf⟩ := Runs.monad_bind_eq_ok.1 hf
      rw [← (Prod.mk.inj (Except.ok.inj hf)).2] at hftokens hrest
      rw [htokens] at hftokens
      obtain ⟨gap, tail, hbegins⟩ :=
        exists_beginsWith_of_actionTokens hinner hrest (List.cons.inj hftokens).2
      exact ⟨inner, gap, tail, hchars, hbegins⟩

end ActionText

/-- The tokens of an action with the word of a call for its first one. -/
def callTokens : List Token → List Token
  | .actionStart :: .keyword _ :: rest => .actionStart :: .keyword .templateWord :: rest
  | ts => ts

namespace ActionText

/-- The call for a block: the block's header with the word of a call for its own. -/
def call (a : ActionText) : ActionText where
  chars := a.chars.take 2 ++ ((a.chars.drop 2).takeWhile Text.isBlank
    ++ (Keyword.templateWord.spelling.toList
      ++ ((a.chars.drop 2).dropWhile Text.isBlank).drop Keyword.blockWord.spelling.toList.length))
  tokens := callTokens a.tokens

/-- A name behind a word, and the end of the action. -/
def nameAndEnd (name : String) : List Char :=
  [' '] ++ ((Token.string name).spelling ++ ['\x7d', '\x7d'])

/-- The header of a definition. -/
def definition (name : String) : ActionText where
  chars := '\x7b' :: '\x7b' :: (Keyword.defineWord.spelling.toList ++ nameAndEnd name)
  tokens := [.actionStart, .keyword .defineWord, .string name, .actionEnd]

theorem Plain.call {a : ActionText} {ts : List Token} (h : a.Plain)
    (htokens : a.tokens = .actionStart :: .keyword .blockWord :: ts) : a.call.Plain := by
  obtain ⟨inner, gap, tail, hchars, hbegins⟩ := h.exists_beginsWith htokens
  have hcall : BeginsWith .templateWord (gap ++ (Keyword.templateWord.spelling.toList ++ tail)) gap
      tail ts := ⟨rfl, hbegins.blanks, hbegins.stops, hbegins.reads⟩
  have hblank : ∀ c rest, Keyword.blockWord.spelling.toList ++ tail = c :: rest →
      Text.isBlank c = false := by
    intro c rest heq
    rw [← (List.cons.inj heq).1]
    rfl
  have hsame : a.call = ⟨'\x7b' :: '\x7b' :: (gap ++ (Keyword.templateWord.spelling.toList ++ tail)),
      .actionStart :: .keyword .templateWord :: ts⟩ := by
    unfold ActionText.call
    rw [htokens, hchars, List.drop_succ_cons, List.drop_succ_cons, List.drop_zero, hbegins.chars,
      takeWhile_append_of_stop hbegins.blanks hblank, dropWhile_append_of_stop hbegins.blanks hblank,
      List.drop_left]
    rfl
  have hcloses := h.closes
  rw [hchars, hbegins.closesTrimming_eq] at hcloses
  rw [hsame]
  exact plain_of_beginsWith hcall hcloses

theorem beginsWith_definition (name : String) :
    BeginsWith .defineWord (Keyword.defineWord.spelling.toList ++ nameAndEnd name) []
      (nameAndEnd name) [.string name, .actionEnd] := by
  have hend : ReadsInside ['\x7d', '\x7d'] [.actionEnd] := @ReadsInside.close [] _ rfl .close
  refine ⟨rfl, rfl, fun c rest heq => ?_, hend.of_scans rfl scans_string⟩
  rw [← (List.cons.inj heq).1]
  rfl

theorem plain_definition (name : String) : (definition name).Plain := by
  have hlast : ([' '] ++ (Token.string name).spelling).getLast? ≠ some '-' := by
    rw [Token.spelling, ← List.append_assoc, List.getLast?_concat]
    decide
  refine plain_of_beginsWith (beginsWith_definition name) ?_
  rw [nameAndEnd, ← List.append_assoc]
  exact closesTrimming_append (by decide) hlast

end ActionText

end Stencil
