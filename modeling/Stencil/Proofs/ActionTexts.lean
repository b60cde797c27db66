/-
An action is read the same wherever it stands.

An action ends with two braces, and no token looks further than two characters past its own end; so
what stands behind an action has no say in its tokens, and what stands in front of it only in their
places. From its characters alone one can also tell whether it trims its neighbours. All this is
stated of the characters of an action in front of any text, first for what is inside an action and
then with the opening delimiter, for actions and comments alike.
-/
import Stencil.Proofs.Lexing
import Stencil.Proofs.Lookahead
import Stencil.Proofs.Tiling

set_option autoImplicit false

namespace Stencil.Segments

open Lexeme

/-! ## Trim markers as they stand in a source -/

/-- Whether an action begins with a trim marker: a minus sign behind its opening delimiter and a blank
behind that. -/
def opensTrimming : List Char → Bool
  | '\x7b' :: '\x7b' :: '-' :: c :: _ => Text.isBlank c
  | _ => false

/-- Whether an action ends with a trim marker and the closing delimiter. -/
def closesTrimming (chars : List Char) : Bool := ['-', '\x7d', '\x7d'].isSuffixOf chars

theorem opensTrimming_eq (s : List Char) :
    opensTrimming ('\x7b' :: '\x7b' :: s) = !(openingMarker s).1.isEmpty := by
  unfold openingMarker
  split
  · rename_i c rest
    show Text.isBlank c = _
    cases Text.isBlank c <;> rfl
  · rename_i hnone
    unfold opensTrimming
    split
    · rename_i c rest heq
      simp only [List.cons.injEq, true_and] at heq
      exact absurd heq (hnone c rest)
    · rfl

/-- What stands in front of two characters or more does not matter for the end, unless its last
character is a minus sign. -/
theorem closesTrimming_append {x w : List Char} (hw : 2 ≤ w.length) (hx : x.getLast? ≠ some '-') :
    closesTrimming (x ++ w) = closesTrimming w := by
  have hsides : ∀ u : List Char, closesTrimming u = ['\x7d', '\x7d', '-'].isPrefixOf u.reverse :=
    fun _ => rfl
  have hlen : 2 ≤ w.reverse.length := by rwa [List.length_reverse]
  rw [List.getLast?_eq_head?_reverse] at hx
  rw [hsides, hsides, List.reverse_append]
  generalize x.reverse = front at hx
  match w.reverse, hlen with
  | [a, b], _ =>
    cases front with
    | nil => rfl
    | cons e front =>
      have he : ('-' == e) = false := by
        rw [beq_eq_false_iff_ne]
        intro heq
        exact hx (by rw [heq]; rfl)
      simp [List.isPrefixOf, he]
  | a :: b :: c :: rest, _ => rfl

theorem closesTrimming_close {close : List Char} (h : Token.actionEnd.WrittenAs close) :
    closesTrimming close = closingTrims close := by
  cases h with
  | fixed h => exact absurd h id
  | close => rfl
  | trimmingClose => rfl

/-! ## Delimiters in front of any text -/

theorem closing?_append {close rest : List Char} (h : Token.actionEnd.WrittenAs close) :
    closing? (close ++ rest) = some (close, rest) := by
  cases h with
  | fixed h => exact absurd h id
  | close => rfl
  | trimmingClose => rfl

/-- A closing delimiter begins with a brace or a minus sign, and has another character at least. -/
theorem close_split {close : List Char} (h : Token.actionEnd.WrittenAs close) :
    ∃ c d v, close = c :: d :: v ∧ Text.isBlank c = false := by
  cases h with
  | fixed h => exact absurd h id
  | close => exact ⟨'\x7d', '\x7d', [], rfl, by decide⟩
  | trimmingClose => exact ⟨'-', '\x7d', ['\x7d'], rfl, by decide⟩

/-- Whether a text begins with a closing delimiter is decided by its first character and the two
behind it. -/
theorem closing?_alike {c : Char} {r r' : List Char} (h : Alike r r')
    (hr : closing? (c :: r) = none) : closing? (c :: r') = none := by
  unfold closing?
  split
  · rename_i rest heq
    obtain ⟨rfl, rfl⟩ := List.cons.inj heq
    obtain ⟨s, rfl⟩ := h.exists_cons rfl
    exact absurd hr (by simp [closing?])
  · rename_i rest heq
    obtain ⟨rfl, rfl⟩ := List.cons.inj heq
    obtain ⟨s, rfl⟩ := h.exists_cons_cons rfl
    exact absurd hr (by simp [closing?])
  · rfl

/-! ## Inside an action -/

/-- Says that `w` is read as the inside of an action with its end, wherever it stands: it gives the
tokens `ts` and trims what follows if it looks so. -/
structure ReadsInside (w : List Char) (ts : List Token) : Prop where
  again : ∀ (start pos : Position) (rest : List Char), ∃ f, actionTokens start pos (w ++ rest) = .ok f
    ∧ f.tokens.map PlacedToken.token = ts ∧ f.trimsAfter = closesTrimming w ∧ f.rest = rest
  begins : ∃ gap c d v, w = gap ++ c :: d :: v ∧ gap.all Text.isBlank = true
    ∧ Text.isBlank c = false
  tokens : ∃ inner, ts = inner ++ [.actionEnd] ∧ ∀ t ∈ inner, t.isInside = true

namespace ReadsInside

theorem two_le_length {w : List Char} {ts : List Token} (h : ReadsInside w ts) : 2 ≤ w.length := by
  obtain ⟨gap, c, d, v, rfl, -, -⟩ := h.begins
  simp only [List.length_append, List.length_cons]
  omega

theorem getLast?_blanks {gap : List Char} (h : gap.all Text.isBlank = true) :
    gap.getLast? ≠ some '-' := getLast?_ne_of_all (by decide) h

theorem close {gap close : List Char} (hgap : gap.all Text.isBlank = true)
    (hclose : Token.actionEnd.WrittenAs close) : ReadsInside (gap ++ close) [.actionEnd] := by
  obtain ⟨c, d, v, hsplit, hc⟩ := close_split hclose
  have hlen : 2 ≤ close.length := by simp [hsplit]
  refine ⟨fun start pos rest => ?_, ⟨gap, c, d, v, by rw [hsplit], hgap, hc⟩, ⟨[], rfl, by simp⟩⟩
  have hinner : (gap ++ close ++ rest).dropWhile Text.isBlank = close ++ rest := by
    rw [List.append_assoc, hsplit]
    exact dropWhile_blanks hgap hc
  have hclosing : closing? ((gap ++ close ++ rest).dropWhile Text.isBlank) = some (close, rest) := by
    rw [hinner]
    exact closing?_append hclose
  obtain ⟨here, p, hf⟩ := actionTokens_of_closing start pos hclosing
  refine ⟨_, hf, rfl, ?_, rfl⟩
  rw [closesTrimming_append hlen (getLast?_blanks hgap)]
  exact (closesTrimming_close hclose).symm

/-- A token in front, which has been read once in front of what is left. -/
theorem token {gap w tail rest₀ : List Char} {c : Char} {l : Lexeme} {ts : List Token}
    (hgap : gap.all Text.isBlank = true) (hc : Text.isBlank c = false)
    (hclosing : closing? (c :: (w ++ (tail ++ rest₀))) = none)
    (hscan : scan c (w ++ (tail ++ rest₀)) = .ok l) (hw : l.spelling = c :: w)
    (hrest : l.rest = tail ++ rest₀) (htail : ReadsInside tail ts) :
    ReadsInside (gap ++ c :: (w ++ tail)) (l.token :: ts) := by
  have hlen := htail.two_le_length
  obtain ⟨d, v, hd⟩ : ∃ d v, w ++ tail = d :: v := by
    apply List.exists_cons_of_ne_nil
    intro hnil
    rw [(List.append_eq_nil_iff.1 hnil).2] at hlen
    exact absurd hlen (by decide)
  refine ⟨fun start pos rest => ?_, ⟨gap, c, d, v, by rw [hd], hgap, hc⟩, ?_⟩
  · have halike : Alike (tail ++ rest₀) (tail ++ rest) := .append_of_length hlen rest₀ rest
    have hinner : (gap ++ c :: (w ++ tail) ++ rest).dropWhile Text.isBlank
        = c :: (w ++ (tail ++ rest)) := by
      rw [List.append_assoc, List.cons_append, List.append_assoc]
      exact dropWhile_blanks hgap hc
    have hlike : Alike l.rest (tail ++ rest) := by rwa [hrest]
    have hagain := scan_alike hscan hw hlike
    obtain ⟨here, p, f, hf, hall⟩ := actionTokens_of_token start pos hinner
      (closing?_alike (halike.append_left w) hclosing) hagain
      fun p => (htail.again start p rest).imp fun f hf => hf.1
    obtain ⟨g, hg, htokens, htrims, hleft⟩ := htail.again start p rest
    have hfg : f = g := Except.ok.inj (hf.symm.trans hg)
    refine ⟨_, hall, ?_, ?_, ?_⟩
    · rw [List.map_cons, hfg, htokens]
    · -- The token does not end with a minus sign, so the end is that of what follows it.
      have hlast : (gap ++ c :: w).getLast? ≠ some '-' := by
        rw [getLast?_append_of_ne_nil (by simp), ← hw]
        exact getLast?_of_writtenAs (writtenAs_of_scan hscan) (isInside_of_scan hscan)
      have hends := closesTrimming_append hlen hlast
      rw [List.append_assoc, List.cons_append] at hends
      rw [hends, ← htrims, hfg]
    · rw [← hleft, hfg]
  · obtain ⟨inner, rfl, hinner⟩ := htail.tokens
    refine ⟨l.token :: inner, rfl, fun t ht => ?_⟩
    rcases List.mem_cons.1 ht with rfl | ht
    · exact isInside_of_scan hscan
    · exact hinner t ht

end ReadsInside

/-- What has been read as the inside of an action is read so again. -/
theorem readsInside_of_actionTokens {start pos : Position} {s : List Char} {f : Finished}
    (h : actionTokens start pos s = .ok f) :
    ∃ w, s = w ++ f.rest ∧ ReadsInside w (f.tokens.map PlacedToken.token) := by
  fun_induction actionTokens start pos s generalizing f with
  | case1 pos s inner newPos delimiter =>
    rename_i rest hclose
    obtain ⟨hsplit, hdelimiter⟩ := closing_split hclose
    rw [← Except.ok.inj h]
    refine ⟨s.takeWhile Text.isBlank ++ delimiter, ?_, .close List.all_takeWhile hdelimiter⟩
    rw [List.append_assoc, ← hsplit]
    exact List.takeWhile_append_dropWhile.symm
  | case2 => exact absurd h (by simp)
  | case3 => exact absurd h (by simp)
  | case4 pos s inner newPos hclose c more hinner l =>
    rename_i hscan ih
    obtain ⟨finished, hf, h⟩ := Runs.monad_bind_eq_ok.1 h
    obtain ⟨tail, htail, hreads⟩ := ih hf
    obtain ⟨d, w, hspelling⟩ := List.exists_cons_of_ne_nil (spelling_ne_nil_of_scan hscan)
    have hsplit := spelling_append_rest_of_scan hscan
    rw [hspelling, List.cons_append, htail] at hsplit
    obtain ⟨rfl, rfl⟩ := List.cons.inj hsplit
    have hdrop : s.dropWhile Text.isBlank = d :: (w ++ (tail ++ finished.rest)) := hinner
    have hblank := stop_dropWhile s d _ hdrop
    rw [← Except.ok.inj h]
    refine ⟨s.takeWhile Text.isBlank ++ d :: (w ++ tail), ?_, ?_⟩
    · rw [List.append_assoc, List.cons_append, List.append_assoc, ← hdrop]
      exact List.takeWhile_append_dropWhile.symm
    · exact .token List.all_takeWhile hblank (by rw [← hdrop]; exact hclose) hscan hspelling htail
        hreads

/-! ## Comments -/

/-- A comment ends with the first mark that can end it, whatever follows. -/
theorem takeComment_append {body rest : List Char} (h : ¬ ['*', '/'] <:+: body ++ ['*']) :
    takeComment (body ++ '*' :: '/' :: rest) = some (body ++ ['*', '/'], rest) := by
  induction body with
  | nil => rfl
  | cons c body ih =>
    rw [List.cons_append, List.infix_cons_iff, not_or] at h
    obtain ⟨hhere, hlater⟩ := h
    rw [List.cons_append, takeComment, ih hlater]
    · rfl
    · -- An end mark here would begin with `c`, and its slash would stand in the body.
      rintro more rfl hmore
      apply hhere
      cases body with
      | nil => exact absurd (List.cons.inj hmore).1 (by decide)
      | cons d body =>
        rw [(List.cons.inj hmore).1]
        exact ⟨body ++ ['*'], rfl⟩

theorem comment_append {body gap close : List Char} (start pos : Position) (rest : List Char)
    (hfirst : ¬ ['*', '/'] <:+: body ++ ['*']) (hgap : gap.all Text.isBlank = true)
    (hclose : Token.actionEnd.WrittenAs close) :
    ∃ p, comment start pos (body ++ '*' :: '/' :: (gap ++ close ++ rest))
      = .ok ⟨[], closingTrims close, p, rest⟩ := by
  obtain ⟨c, d, v, hsplit, hc⟩ := close_split hclose
  have hdrop : (gap ++ close ++ rest).dropWhile Text.isBlank = close ++ rest := by
    rw [List.append_assoc, hsplit]
    exact dropWhile_blanks hgap hc
  unfold comment
  rw [takeComment_append hfirst]
  simp only [hdrop, closing?_append hclose]
  exact ⟨_, rfl⟩

/-! ## Whole actions -/

/-- Says that `chars` are an action or a comment, and that it is read as one wherever it stands: it
gives the tokens `ts` and trims its neighbours if it looks so. -/
structure ReadsAction (chars : List Char) (ts : List Token) : Prop where
  again : ∃ body, chars = '\x7b' :: '\x7b' :: body ∧ ∀ (start : Position) (rest : List Char), ∃ f,
    action start (body ++ rest) = .ok (opensTrimming chars, f)
      ∧ f.tokens.map PlacedToken.token = ts ∧ f.trimsAfter = closesTrimming chars ∧ f.rest = rest
  tokens : ts = [] ∨ ∃ inner, ts = .actionStart :: inner ++ [.actionEnd]
    ∧ ∀ t ∈ inner, t.isInside = true

/-- Where a marker has been read in front of a text, it is read in front of every text that begins
with the same two characters. -/
theorem openingMarker_append {marker w r : List Char} (hw : 2 ≤ w.length)
    (h : openingMarker (marker ++ (w ++ r)) = (marker, w ++ r)) (r' : List Char) :
    openingMarker (marker ++ (w ++ r')) = (marker, w ++ r') := by
  match w, hw with
  | a :: b :: v, _ =>
    obtain ⟨-, rfl | ⟨rfl, c, rest, hc, hblank⟩⟩ := openingMarker_split h
    · by_cases ha : a = '-'
      · subst ha
        by_cases hb : Text.isBlank b = true
        · simp [openingMarker, hb] at h
        · simp [openingMarker, hb]
      · unfold openingMarker
        split
        · rename_i heq
          exact absurd (List.cons.inj heq).1 ha
        · rfl
    · rw [(List.cons.inj hc).1]
      simp [openingMarker, hblank]

theorem opensTrimming_append {marker w : List Char}
    (h : ∀ r, openingMarker (marker ++ (w ++ r)) = (marker, w ++ r)) :
    opensTrimming ('\x7b' :: '\x7b' :: (marker ++ w)) = !marker.isEmpty := by
  have hnil := h []
  rw [List.append_nil] at hnil
  rw [opensTrimming_eq, hnil]

/-- A comment is read again wherever it stands, and gives no token. -/
theorem readsAction_of_isComment {w : List Char} (h : IsComment w) : ReadsAction w [] := by
  obtain ⟨hmarker, hgap, hbegin, hfirst, hgap', hclose⟩ := h
  rename_i marker gap body gap' close
  obtain ⟨more, hmore⟩ := hbegin
  -- From its start mark on, the comment in front of some text.
  have hbody : ∀ r, body ++ '*' :: '/' :: (gap' ++ close ++ r)
      = '/' :: '*' :: (more ++ (gap' ++ close ++ r)) := by
    intro r
    simpa using (congrArg (· ++ (gap' ++ close ++ r)) hmore).symm
  have hopening : ∀ r, openingMarker (marker ++ (gap ++ (body ++ ['*', '/']) ++ gap' ++ close ++ r))
      = (marker, gap ++ (body ++ ['*', '/']) ++ gap' ++ close ++ r) := by
    intro r
    rcases hmarker with rfl | ⟨rfl, hne⟩
    · have hstart : openingMarker (gap ++ '/' :: '*' :: (more ++ (gap' ++ close ++ r)))
          = ([], gap ++ '/' :: '*' :: (more ++ (gap' ++ close ++ r))) :=
        openingMarker_of_start hgap fun h => absurd h (by decide)
      rw [← hbody r] at hstart
      simpa using hstart
    · obtain ⟨b, gap, rfl⟩ := List.exists_cons_of_ne_nil hne
      rw [List.all_cons, Bool.and_eq_true] at hgap
      simp [openingMarker, hgap.1]
  refine ⟨⟨marker ++ (gap ++ (body ++ ['*', '/']) ++ gap' ++ close), by simp, fun start rest => ?_⟩,
    Or.inl rfl⟩
  have hinner : (gap ++ (body ++ ['*', '/']) ++ gap' ++ close ++ rest).dropWhile Text.isBlank
      = body ++ '*' :: '/' :: (gap' ++ close ++ rest) := by
    have hblanks : (gap ++ '/' :: '*' :: (more ++ (gap' ++ close ++ rest))).dropWhile Text.isBlank
        = '/' :: '*' :: (more ++ (gap' ++ close ++ rest)) := dropWhile_blanks hgap (by decide)
    rw [← hbody rest] at hblanks
    simpa using hblanks
  obtain ⟨p, hcomment⟩ := comment_append start
    (((start.past ['\x7b', '\x7b']).past marker).past
      ((gap ++ (body ++ ['*', '/']) ++ gap' ++ close ++ rest).takeWhile Text.isBlank))
    rest hfirst hgap' hclose
  have hstarts : startsComment (body ++ '*' :: '/' :: (gap' ++ close ++ rest)) = true := by
    rw [hbody rest]
    rfl
  have hends : closesTrimming (['\x7b', '\x7b'] ++ marker ++ gap ++ (body ++ ['*', '/']) ++ gap'
      ++ close) = closingTrims close := by
    obtain ⟨c, d, v, hsplit, -⟩ := close_split hclose
    rw [closesTrimming_append (by simp [hsplit]) ?_, closesTrimming_close hclose]
    by_cases hnil : gap' = []
    · rw [hnil, List.append_nil, getLast?_append_of_ne_nil (by simp),
        getLast?_append_of_ne_nil (by simp)]
      decide
    · rw [getLast?_append_of_ne_nil hnil]
      exact ReadsInside.getLast?_blanks hgap'
  refine ⟨⟨[], closingTrims close, p, rest⟩, ?_, rfl, hends.symm, rfl⟩
  have hopens := opensTrimming_append hopening
  have hwhole : ['\x7b', '\x7b'] ++ marker ++ gap ++ (body ++ ['*', '/']) ++ gap' ++ close
      = '\x7b' :: '\x7b' :: (marker ++ (gap ++ (body ++ ['*', '/']) ++ gap' ++ close)) := by simp
  rw [hwhole, hopens, List.append_assoc marker]
  unfold action
  simp only [hopening, hinner, hstarts, if_true, hcomment]
  rfl

theorem startsComment_alike {r r' : List Char} (h : Alike r r') (hr : startsComment r = false) :
    startsComment r' = false := by
  unfold startsComment
  split
  · rename_i rest
    obtain ⟨s, rfl⟩ := h.exists_cons_cons rfl
    exact absurd hr (by simp [startsComment])
  · rfl

/-- The opening delimiter and its trim marker have no part in the end of an action. -/
theorem ReadsInside.closesTrimming_marker {marker w r : List Char} {ts : List Token}
    (h : ReadsInside w ts)
    (hmarker : marker = [] ∨ marker = ['-'] ∧ ∃ c rest, w ++ r = c :: rest ∧ Text.isBlank c = true) :
    closesTrimming ('\x7b' :: '\x7b' :: (marker ++ w)) = closesTrimming w := by
  rcases hmarker with rfl | ⟨rfl, b, rest, hb, hblank⟩
  · exact closesTrimming_append (x := ['\x7b', '\x7b']) h.two_le_length (by decide)
  · obtain ⟨gap, c, d, v, rfl, hgap, hc⟩ := h.begins
    -- The blank behind the marker stands in front of everything else.
    cases gap with
    | nil =>
      rw [(List.cons.inj hb).1, hblank] at hc
      exact absurd hc.symm Bool.false_ne_true
    | cons e gap =>
      have heb : e = b := (List.cons.inj hb).1
      have hlen : 2 ≤ (gap ++ c :: d :: v).length := by
        simp only [List.length_append, List.length_cons]
        omega
      have hlast : ∀ x : List Char, (x ++ [e]).getLast? ≠ some '-' := by
        intro x
        rw [getLast?_append_of_ne_nil (by simp), heb]
        exact ReadsInside.getLast?_blanks (by simp [hblank])
      have hfront := closesTrimming_append hlen (hlast ['\x7b', '\x7b', '-'])
      have hback := closesTrimming_append hlen (hlast [])
      exact hfront.trans hback.symm

/-- An action with tokens is read again wherever it stands. -/
theorem ReadsInside.action {marker w r : List Char} {ts : List Token} (h : ReadsInside w ts)
    (hmarker : openingMarker (marker ++ (w ++ r)) = (marker, w ++ r))
    (hcomment : startsComment ((w ++ r).dropWhile Text.isBlank) = false) :
    ReadsAction ('\x7b' :: '\x7b' :: (marker ++ w)) (.actionStart :: ts) := by
  have hopening := openingMarker_append h.two_le_length hmarker
  have hopens := opensTrimming_append hopening
  have hlead := (openingMarker_split hmarker).2
  refine ⟨⟨marker ++ w, rfl, fun start rest => ?_⟩, Or.inr ?_⟩
  · have hagain : startsComment ((w ++ rest).dropWhile Text.isBlank) = false := by
      obtain ⟨gap, c, d, v, rfl, hgap, hc⟩ := h.begins
      rw [List.append_assoc, List.cons_append, List.cons_append,
        dropWhile_blanks hgap hc] at hcomment ⊢
      exact startsComment_alike (.cons_cons c d _ _) hcomment
    obtain ⟨f, hf, htokens, htrims, hrest⟩ :=
      h.again start ((start.past ['\x7b', '\x7b']).past marker) rest
    refine ⟨{ f with tokens := ⟨.actionStart, start⟩ :: f.tokens }, ?_, ?_, ?_, hrest⟩
    · rw [hopens, List.append_assoc]
      unfold Segments.action
      simp only [hopening, hagain, hf]
      rfl
    · rw [List.map_cons, htokens]
    · rw [htrims]
      exact (h.closesTrimming_marker hlead).symm
  · obtain ⟨inner, rfl, hinner⟩ := h.tokens
    exact ⟨inner, rfl, hinner⟩

/-- **What has been read as an action or a comment is read so again**, wherever it stands. -/
theorem readsAction_of_action {before s : List Char} {trims : Bool} {f : Finished}
    (h : action (Position.behind before) s = .ok (trims, f)) :
    ∃ body, s = body ++ f.rest
      ∧ ReadsAction ('\x7b' :: '\x7b' :: body) (f.tokens.map PlacedToken.token) := by
  cases hopening : openingMarker s with
  | mk marker body =>
    obtain ⟨hsplit, hmarker⟩ := openingMarker_split hopening
    simp only [action, hopening] at h
    rw [Position.past_behind, Position.past_behind] at h
    split at h
    · rename_i hstarts
      obtain ⟨finished, hf, h⟩ := Runs.monad_bind_eq_ok.1 h
      rw [Position.past_behind] at hf
      rw [← (Prod.mk.inj (Except.ok.inj h)).2, hsplit]
      obtain ⟨w, hw, hcomment, htokens, -⟩ := isComment_of_comment hmarker hstarts hf
      have hreads := readsAction_of_isComment hcomment
      obtain ⟨body', rfl, -⟩ := hreads.again
      rw [htokens]
      exact ⟨body', (List.cons.inj (List.cons.inj hw).2).2, hreads⟩
    · rename_i hnone
      obtain ⟨inner, hinner, h⟩ := Runs.monad_bind_eq_ok.1 h
      obtain ⟨w, hw, hreads⟩ := readsInside_of_actionTokens hinner
      have hnone := Bool.eq_false_iff.2 hnone
      rw [← (Prod.mk.inj (Except.ok.inj h)).2, hsplit]
      rw [hsplit, hw] at hopening
      rw [hw] at hnone
      refine ⟨marker ++ w, ?_, hreads.action hopening hnone⟩
      rw [hw, List.append_assoc]

end Stencil.Segments
