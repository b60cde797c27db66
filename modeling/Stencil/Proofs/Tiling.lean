/-
A source is made up of its tokens and of what the scanner passes over.

Passed over are blanks, the trim marker at the beginning of an action, and comments. The relation
below lays such stretches and spellings of tokens side by side and puts every token at the place that
is counted off in the text before it, without a look at the scanner. That the scanner keeps to it says
at once that no character is lost, that none is read twice, and that every place is true. A step of
the scanner is stated as a tiling in front of whatever tiling the rest has, so the trimming of a text
and the end of an action compose without a lemma about the seams.
-/
import Stencil.Proofs.Spellings
import Stencil.Proofs.Runs

set_option autoImplicit false

namespace Stencil

/-! ## Places -/

namespace Position

/-- The place behind the first characters `s` of a source: one more than the number of line ends, and
one more than the number of characters behind the last of them. -/
def behind (s : List Char) : Position :=
  ⟨s.count '\n' + 1, (s.reverse.takeWhile (· != '\n')).length + 1⟩

/-- Says that `p` is the place of a character of the source or of its end. -/
def IsIn (p : Position) (source : List Char) : Prop := ∃ s, s <+: source ∧ p = behind s

/-- Says that `p` comes before `q` in the order of reading. -/
def Precedes (p q : Position) : Prop := p.line < q.line ∨ p.line = q.line ∧ p.column < q.column

theorem behind_nil : behind [] = start := rfl

theorem next_behind (s : List Char) (c : Char) : (behind s).next c = behind (s ++ [c]) := by
  by_cases hc : c = '\n'
  · simp [next, behind, hc]
  · simp [next, behind, hc]

/-- Moving over a text counts off its characters. -/
theorem past_behind (s w : List Char) : (behind s).past w = behind (s ++ w) := by
  induction w generalizing s with
  | nil => simp
  | cons c w ih =>
    have hstep : (behind s).past (c :: w) = ((behind s).next c).past w := rfl
    rw [hstep, next_behind, ih, List.append_assoc, List.singleton_append]

theorem isIn_behind {s rest source : List Char} (h : s ++ rest = source) :
    (behind s).IsIn source :=
  ⟨s, ⟨rest, h⟩, rfl⟩

/-- Lines and columns are counted from one. -/
theorem IsIn.positive {p : Position} {source : List Char} (h : p.IsIn source) :
    0 < p.line ∧ 0 < p.column := by
  obtain ⟨s, -, rfl⟩ := h
  exact ⟨Nat.succ_pos _, Nat.succ_pos _⟩

theorem Precedes.trans {p q r : Position} (hpq : p.Precedes q) (hqr : q.Precedes r) :
    p.Precedes r := by
  unfold Precedes at hpq hqr ⊢
  omega

theorem precedes_next (p : Position) (c : Char) : p.Precedes (p.next c) := by
  unfold Precedes next
  by_cases hc : c = '\n'
  · simp [hc]
  · simp [hc]

/-- A place comes before every place that is reached from it. -/
theorem precedes_behind {s w : List Char} (hw : w ≠ []) :
    (behind s).Precedes (behind (s ++ w)) := by
  induction w generalizing s with
  | nil => exact absurd rfl hw
  | cons c w ih =>
    have hfirst : (behind s).Precedes (behind (s ++ [c])) := by
      rw [← next_behind]
      exact precedes_next _ c
    by_cases hrest : w = []
    · rw [hrest]
      exact hfirst
    · have hmore := ih hrest (s := s ++ [c])
      rw [List.append_assoc, List.singleton_append] at hmore
      exact hfirst.trans hmore

end Position

open Position

/-! ## Tilings -/

/-- Says that a text is a comment, from its opening delimiter to its closing one. A comment ends with
the first mark that can end it, and that may share its star with the mark that begins it. -/
inductive IsComment : List Char → Prop where
  | mk {marker gap body gap' close : List Char} :
      marker = [] ∨ marker = ['-'] ∧ gap ≠ [] → gap.all Text.isBlank = true →
      ['/', '*'] <+: body ++ ['*', '/'] → ¬ ['*', '/'] <:+: body ++ ['*'] →
      gap'.all Text.isBlank = true → Token.actionEnd.WrittenAs close →
      IsComment (['\x7b', '\x7b'] ++ marker ++ gap ++ (body ++ ['*', '/']) ++ gap' ++ close)

/-- Says that tokens and stretches without one make up a text that stands behind `before`. -/
inductive Tiled : (before s : List Char) → List PlacedToken → Prop where
  | nil {before : List Char} : Tiled before [] []
  | token {before w s : List Char} {t : Token} {ts : List PlacedToken} :
      t.WrittenAs w → Tiled (before ++ w) s ts → Tiled before (w ++ s) (⟨t, behind before⟩ :: ts)
  | blanks {before w s : List Char} {ts : List PlacedToken} :
      w.all Text.isBlank = true → Tiled (before ++ w) s ts → Tiled before (w ++ s) ts
  /-- An opening delimiter with a trim marker, which a blank has to follow. -/
  | trimming {before s : List Char} {c : Char} {ts : List PlacedToken} :
      Text.isBlank c = true → Tiled (before ++ ['\x7b', '\x7b', '-']) (c :: s) ts →
      Tiled before ('\x7b' :: '\x7b' :: '-' :: c :: s) (⟨.actionStart, behind before⟩ :: ts)
  | comment {before w s : List Char} {ts : List PlacedToken} :
      IsComment w → Tiled (before ++ w) s ts → Tiled before (w ++ s) ts

namespace Tiled

/-- A token of a tiling stands in the text as one of its spellings, at the place that it names. -/
theorem split_of_mem {before s : List Char} {ts : List PlacedToken} (h : Tiled before s ts)
    {t : PlacedToken} (ht : t ∈ ts) :
    ∃ front w after, s = front ++ w ++ after ∧ t.token.WrittenAs w ∧
      t.pos = behind (before ++ front) := by
  -- What is passed over first belongs to the text in front of the token.
  have hbehind : ∀ {before w s : List Char}, (∃ front v after, s = front ++ v ++ after ∧
      t.token.WrittenAs v ∧ t.pos = behind (before ++ w ++ front)) →
      ∃ front v after, w ++ s = front ++ v ++ after ∧ t.token.WrittenAs v ∧
        t.pos = behind (before ++ front) := by
    intro before w s hs
    obtain ⟨front, v, after, hs, hv, hpos⟩ := hs
    exact ⟨w ++ front, v, after, by simp [hs], hv, by rw [hpos, List.append_assoc]⟩
  induction h with
  | nil => exact absurd ht List.not_mem_nil
  | @token before w s token ts hw _ ih =>
    rcases List.mem_cons.1 ht with rfl | ht
    · exact ⟨[], w, s, rfl, hw, by simp⟩
    · exact hbehind (ih ht)
  | blanks _ _ ih => exact hbehind (ih ht)
  | @trimming before s c ts _ _ ih =>
    rcases List.mem_cons.1 ht with rfl | ht
    · exact ⟨[], ['\x7b', '\x7b'], '-' :: c :: s, rfl, .fixed (t := .actionStart) trivial, by simp⟩
    · exact hbehind (w := ['\x7b', '\x7b', '-']) (ih ht)
  | comment _ _ ih => exact hbehind (ih ht)

/-- The places of a tiling's tokens increase strictly. -/
theorem pairwise_precedes {before s : List Char} {ts : List PlacedToken} (h : Tiled before s ts) :
    ts.Pairwise fun t u => t.pos.Precedes u.pos := by
  have hlater : ∀ {before w s : List Char} {ts : List PlacedToken}, w ≠ [] →
      Tiled (before ++ w) s ts → ∀ u ∈ ts, (behind before).Precedes u.pos := by
    intro before w s ts hw hts u hu
    obtain ⟨front, _, _, _, _, hpos⟩ := hts.split_of_mem hu
    rw [hpos, List.append_assoc]
    exact precedes_behind (by simp [hw])
  induction h with
  | nil => exact .nil
  | token hw hts ih => exact List.pairwise_cons.2 ⟨hlater hw.ne_nil hts, ih⟩
  | trimming _ hts ih => exact List.pairwise_cons.2 ⟨hlater (by simp) hts, ih⟩
  | blanks _ _ ih | comment _ _ ih => exact ih

end Tiled

/-! ## Texts -/

/-- A text is what is left of it by trimming at its end, followed by blanks. -/
theorem Text.trimEnd_append_blanks (s : List Char) :
    ∃ w, w.all isBlank = true ∧ s = trimEnd s ++ w := by
  refine ⟨(s.reverse.takeWhile isBlank).reverse, ?_, ?_⟩
  · rw [List.all_reverse]
    exact List.all_takeWhile
  · rw [trimEnd, ← List.reverse_append, List.takeWhile_append_dropWhile, List.reverse_reverse]

/-- A text without an opening delimiter is tiled by its token, however it is trimmed. -/
theorem RawText.tiled {before chars rest : List Char} {ts : List PlacedToken}
    (hchars : ¬ ['\x7b', '\x7b'] <:+: chars) (hrest : Tiled (before ++ chars) rest ts)
    (trimsStart trimsEnd : Bool) :
    Tiled before (chars ++ rest)
      (RawText.tokens ⟨behind before, chars⟩ trimsStart trimsEnd ++ ts) := by
  obtain ⟨lead, kept, hlead, hsplit, hleadDef⟩ : ∃ lead kept, lead.all Text.isBlank = true ∧
      chars = lead ++ kept ∧ (if trimsStart then chars.takeWhile Text.isBlank else []) = lead := by
    cases trimsStart with
    | true => exact ⟨_, _, List.all_takeWhile, List.takeWhile_append_dropWhile.symm, rfl⟩
    | false => exact ⟨[], chars, rfl, rfl, rfl⟩
  obtain ⟨text, trail, htrail, hkept, htextDef⟩ : ∃ text trail, trail.all Text.isBlank = true ∧
      kept = text ++ trail ∧ (if trimsEnd then Text.trimEnd kept else kept) = text := by
    cases trimsEnd with
    | true =>
      obtain ⟨w, hw, heq⟩ := Text.trimEnd_append_blanks kept
      exact ⟨_, w, hw, heq, rfl⟩
    | false => exact ⟨kept, [], rfl, by simp, rfl⟩
  have htokens : RawText.tokens ⟨behind before, chars⟩ trimsStart trimsEnd
      = if text.isEmpty then [] else [⟨.text (String.ofList text), behind (before ++ lead)⟩] := by
    unfold RawText.tokens
    simp only [hleadDef]
    rw [hsplit, List.drop_left, htextDef, past_behind]
  have htail : Tiled (before ++ lead ++ text) (trail ++ rest) ts := by
    apply Tiled.blanks htrail
    rw [hsplit, hkept] at hrest
    simpa using hrest
  have hpieces : chars ++ rest = lead ++ (text ++ (trail ++ rest)) := by
    rw [hsplit, hkept]
    simp
  rw [htokens, hpieces]
  apply Tiled.blanks hlead
  cases text with
  | nil => simpa using htail
  | cons c text =>
    have hfixed : (Token.text (String.ofList (c :: text))).IsFixed := by
      refine ⟨by simp, ?_⟩
      rw [String.toList_ofList, Bool.eq_false_iff]
      intro hoccurs
      apply hchars
      rw [hsplit, hkept]
      exact (Text.occurs_iff.1 hoccurs).trans ⟨lead, trail, by simp⟩
    have hwritten := Token.WrittenAs.fixed hfixed
    rw [Token.spelling, String.toList_ofList] at hwritten
    exact .token hwritten htail

namespace Segments

theorem takeText_append_rest (s : List Char) : (takeText s).1 ++ (takeText s).2 = s := by
  fun_induction takeText s with
  | case1 => rfl
  | case2 => rfl
  | case3 c rest _ text more heq ih =>
    rw [heq] at ih
    rw [List.cons_append, ih]

/-- The text up to an opening delimiter has none in it. -/
theorem not_infix_takeText (s : List Char) : ¬ ['\x7b', '\x7b'] <:+: (takeText s).1 := by
  fun_induction takeText s with
  | case1 => simp
  | case2 => simp
  | case3 c rest hnone text more heq ih =>
    have hsplit := takeText_append_rest rest
    rw [heq] at ih hsplit
    rw [List.infix_cons_iff]
    rintro (hstart | hlater)
    · -- A delimiter here would begin with `c`, and there the text would have ended.
      obtain ⟨tail, htail⟩ := hstart
      simp only [List.cons_append, List.nil_append, List.cons.injEq] at htail
      apply hnone (tail ++ more) htail.1.symm
      rw [← hsplit, ← htail.2, List.cons_append]
    · exact ih hlater

theorem rest_of_takeText (s : List Char) :
    (takeText s).2 = [] ∨ ∃ more, (takeText s).2 = '\x7b' :: '\x7b' :: more := by
  fun_induction takeText s with
  | case1 => exact Or.inl rfl
  | case2 rest => exact Or.inr ⟨rest, rfl⟩
  | case3 c rest _ text more heq ih =>
    rw [heq] at ih
    exact ih

/-- Behind a text that is not the last there is an opening delimiter. -/
theorem rest_of_takeText_cons {s body : List Char} {c d : Char}
    (h : (takeText s).2 = c :: d :: body) : (takeText s).2 = '\x7b' :: '\x7b' :: body := by
  rcases rest_of_takeText s with hnil | ⟨more, hmore⟩
  · exact absurd (h.symm.trans hnil) (by simp)
  · have heq := h.symm.trans hmore
    simp only [List.cons.injEq] at heq
    rw [hmore, heq.2.2]

/-! ## Actions -/

theorem closing_split {s delimiter rest : List Char} (h : closing? s = some (delimiter, rest)) :
    s = delimiter ++ rest ∧ Token.actionEnd.WrittenAs delimiter := by
  unfold closing? at h
  split at h
  · obtain ⟨rfl, rfl⟩ := Prod.mk.inj (Option.some.inj h)
    exact ⟨rfl, .close⟩
  · obtain ⟨rfl, rfl⟩ := Prod.mk.inj (Option.some.inj h)
    exact ⟨rfl, .trimmingClose⟩
  · exact absurd h (by simp)

/-- Says of what has been read of a text behind `before` that it is followed by what it leaves, that
it ends at the place it gives, and that its tokens tile the text in front of whatever tokens tile the
rest. -/
def Finished.Reads (f : Finished) (before s : List Char) : Prop :=
  ∃ after, after ++ f.rest = before ++ s ∧ f.pos = behind after ∧
    ∀ ts, Tiled after f.rest ts → Tiled before s (f.tokens ++ ts)

theorem Finished.Reads.token {f : Finished} {before w s : List Char} {t : Token}
    (ht : t.WrittenAs w) (h : f.Reads (before ++ w) s) :
    Finished.Reads { f with tokens := ⟨t, behind before⟩ :: f.tokens } before (w ++ s) := by
  obtain ⟨after, hsplit, hpos, htiled⟩ := h
  refine ⟨after, by rw [hsplit, List.append_assoc], hpos, ?_⟩
  intro ts hts
  exact .token ht (htiled ts hts)

theorem Finished.Reads.blanks {f : Finished} {before w s : List Char}
    (hw : w.all Text.isBlank = true) (h : f.Reads (before ++ w) s) : f.Reads before (w ++ s) := by
  obtain ⟨after, hsplit, hpos, htiled⟩ := h
  refine ⟨after, by rw [hsplit, List.append_assoc], hpos, ?_⟩
  intro ts hts
  exact .blanks hw (htiled ts hts)

/-- The tokens of an action tile it up to its end. -/
theorem reads_of_actionTokens {start : Position} {before s : List Char} {f : Finished}
    (h : actionTokens start (behind before) s = .ok f) : f.Reads before s := by
  generalize hpos : behind before = pos at h
  fun_induction actionTokens start pos s generalizing before f with
  | case1 pos s inner newPos delimiter =>
    rename_i rest hclose
    obtain ⟨hsplit, hdelimiter⟩ := closing_split hclose
    have hplace : newPos = behind (before ++ s.takeWhile Text.isBlank) := by
      rw [← past_behind, hpos]
    rw [← Except.ok.inj h, ← List.takeWhile_append_dropWhile (p := Text.isBlank) (l := s), hplace]
    apply Finished.Reads.blanks List.all_takeWhile
    rw [show s.dropWhile Text.isBlank = delimiter ++ rest from hsplit, past_behind]
    exact ⟨_, by rw [List.append_assoc], rfl, fun ts hts => .token hdelimiter hts⟩
  | case2 => exact absurd h (by simp)
  | case3 => exact absurd h (by simp)
  | case4 pos s inner newPos hclose c more hinner l =>
    rename_i hscan ih
    have hplace : newPos = behind (before ++ s.takeWhile Text.isBlank) := by
      rw [← past_behind, hpos]
    obtain ⟨finished, hf, h⟩ := Runs.monad_bind_eq_ok.1 h
    have hmore := ih (by rw [hplace, past_behind]) hf
    have hsplit := Lexeme.spelling_append_rest_of_scan hscan
    rw [← Except.ok.inj h, ← List.takeWhile_append_dropWhile (p := Text.isBlank) (l := s), hplace]
    apply Finished.Reads.blanks List.all_takeWhile
    rw [show s.dropWhile Text.isBlank = c :: more from hinner, ← hsplit]
    exact hmore.token (Lexeme.writtenAs_of_scan hscan)

/-- A failure inside an action names where the action began or a place behind it. -/
theorem isIn_of_actionTokens {start : Position} {before s source : List Char} {e : LexError}
    (hsource : before ++ s = source) (hstart : start.IsIn source)
    (h : actionTokens start (behind before) s = .error e) : e.pos.IsIn source := by
  generalize hpos : behind before = pos at h
  fun_induction actionTokens start pos s generalizing before with
  | case1 => exact absurd h (by simp)
  | case2 => rwa [← Except.error.inj h]
  | case3 pos s inner newPos hclose c more hinner m =>
    rename_i hscan
    obtain ⟨tail, htail⟩ := Lexeme.before_prefix_of_scan hscan
    have hinside : before ++ s.takeWhile Text.isBlank ++ m.before ++ tail = source := by
      rw [List.append_assoc _ m.before, htail, ← hinner, List.append_assoc,
        List.takeWhile_append_dropWhile, hsource]
    rw [← Except.error.inj h]
    have hplace : newPos.past m.before = behind (before ++ s.takeWhile Text.isBlank ++ m.before) := by
      rw [← past_behind, ← past_behind, hpos]
    rw [hplace]
    exact isIn_behind hinside
  | case4 pos s inner newPos hclose c more hinner l hscan =>
    rename_i ih
    have hplace : behind (before ++ s.takeWhile Text.isBlank ++ l.spelling)
        = newPos.past l.spelling := by rw [← past_behind, ← past_behind, hpos]
    have hrest : before ++ s.takeWhile Text.isBlank ++ l.spelling ++ l.rest = source := by
      rw [List.append_assoc _ l.spelling, Lexeme.spelling_append_rest_of_scan hscan, ← hinner,
        List.append_assoc, List.takeWhile_append_dropWhile, hsource]
    rcases Runs.monad_bind_eq_error.1 h with hf | ⟨_, _, h⟩
    · exact ih hrest hplace hf
    · exact absurd h (by simp)

/-! ## Comments -/

/-- The body of a comment ends with the first mark that can end it. -/
theorem takeComment_split {s body rest : List Char} (h : takeComment s = some (body, rest)) :
    s = body ++ rest ∧ ∃ front, body = front ++ ['*', '/'] ∧ ¬ ['*', '/'] <:+: front ++ ['*'] := by
  fun_induction takeComment s generalizing body with
  | case1 => exact absurd h (by simp)
  | case2 more =>
    obtain ⟨rfl, rfl⟩ := Prod.mk.inj (Option.some.inj h)
    exact ⟨rfl, [], rfl, by decide⟩
  | case3 c s hnone ih =>
    obtain ⟨⟨body', rest'⟩, hfound, heq⟩ := Option.map_eq_some_iff.1 h
    obtain ⟨rfl, rfl⟩ := Prod.mk.inj heq
    obtain ⟨hsplit, front, hfront, hfirst⟩ := ih hfound
    refine ⟨by rw [hsplit, List.cons_append], c :: front, by rw [hfront, List.cons_append], ?_⟩
    rw [List.cons_append, List.infix_cons_iff]
    rintro (hstart | hlater)
    · obtain ⟨tail, htail⟩ := hstart
      simp only [List.cons_append, List.nil_append, List.cons.injEq] at htail
      -- The slash would have to stand in `front`, and then the body would have ended there.
      cases front with
      | nil => exact absurd htail.2 (by simp)
      | cons d front =>
        apply hnone (front ++ ['*', '/'] ++ rest') htail.1.symm
        rw [hsplit, hfront]
        simp only [List.cons_append, List.cons.injEq] at htail ⊢
        exact ⟨htail.2.1.symm, trivial⟩
    · exact hfirst hlater

/-- What a comment is made of, from its start mark on. -/
theorem split_of_comment {start : Position} {before s : List Char} {f : Finished}
    (h : comment start (behind before) s = .ok f) :
    ∃ body gap close, s = body ++ ['*', '/'] ++ gap ++ close ++ f.rest ∧
      ¬ ['*', '/'] <:+: body ++ ['*'] ∧ gap.all Text.isBlank = true ∧
      Token.actionEnd.WrittenAs close ∧ f.tokens = [] ∧
      f.pos = behind (before ++ (body ++ ['*', '/'] ++ gap ++ close)) := by
  unfold comment at h
  split at h
  · exact absurd h (by simp)
  · rename_i body rest hbody
    obtain ⟨hsplit, front, hfront, hfirst⟩ := takeComment_split hbody
    split at h
    · rename_i delimiter more hclose
      obtain ⟨hrest, hdelimiter⟩ := closing_split hclose
      rw [← Except.ok.inj h]
      refine ⟨front, rest.takeWhile Text.isBlank, delimiter, ?_, hfirst, List.all_takeWhile,
        hdelimiter, rfl, ?_⟩
      · rw [hsplit, ← hfront, List.append_assoc _ delimiter, ← hrest, List.append_assoc,
          List.takeWhile_append_dropWhile]
      · rw [← hfront, past_behind, past_behind, past_behind]
        simp only [List.append_assoc]
    · exact absurd h (by simp)

theorem isIn_of_comment {start : Position} {before s source : List Char} {e : LexError}
    (hsource : before ++ s = source) (hstart : start.IsIn source)
    (h : comment start (behind before) s = .error e) : e.pos.IsIn source := by
  unfold comment at h
  split at h
  · rwa [← Except.error.inj h]
  · rename_i body rest hbody
    obtain ⟨hsplit, _⟩ := takeComment_split hbody
    split at h
    · exact absurd h (by simp)
    · rw [← Except.error.inj h, past_behind, past_behind]
      have hinside : before ++ body ++ rest.takeWhile Text.isBlank ++ rest.dropWhile Text.isBlank
          = source := by
        rw [List.append_assoc, List.takeWhile_append_dropWhile, List.append_assoc, ← hsplit, hsource]
      exact isIn_behind hinside

/-! ## Whole actions -/

/-- A trim marker stands in front of a blank. -/
theorem openingMarker_split {s marker body : List Char} (h : openingMarker s = (marker, body)) :
    s = marker ++ body ∧
      (marker = [] ∨ marker = ['-'] ∧ ∃ c rest, body = c :: rest ∧ Text.isBlank c = true) := by
  unfold openingMarker at h
  split at h
  · rename_i c rest
    by_cases hc : Text.isBlank c = true
    · rw [if_pos hc] at h
      obtain ⟨rfl, rfl⟩ := Prod.mk.inj h
      exact ⟨rfl, Or.inr ⟨rfl, c, rest, rfl, hc⟩⟩
    · rw [if_neg hc] at h
      obtain ⟨rfl, rfl⟩ := Prod.mk.inj h
      exact ⟨rfl, Or.inl rfl⟩
  · obtain ⟨rfl, rfl⟩ := Prod.mk.inj h
    exact ⟨rfl, Or.inl rfl⟩

theorem startsComment_split {s : List Char} (h : startsComment s = true) :
    ∃ rest, s = '/' :: '*' :: rest := by
  unfold startsComment at h
  split at h
  · exact ⟨_, rfl⟩
  · exact absurd h Bool.false_ne_true

/-- What has been read as a comment is one, and it gives no token. -/
theorem isComment_of_comment {start : Position} {before marker body : List Char} {f : Finished}
    (hmarker : marker = [] ∨ marker = ['-'] ∧ ∃ c rest, body = c :: rest ∧ Text.isBlank c = true)
    (hstarts : startsComment (body.dropWhile Text.isBlank) = true)
    (h : comment start (behind (before ++ ['\x7b', '\x7b'] ++ marker ++ body.takeWhile Text.isBlank))
      (body.dropWhile Text.isBlank) = .ok f) :
    ∃ w, '\x7b' :: '\x7b' :: (marker ++ body) = w ++ f.rest ∧ IsComment w ∧ f.tokens = []
      ∧ f.pos = behind (before ++ w) := by
  obtain ⟨content, gap, close, hsplit, hfirst, hgap, hclose, htokens, hpos⟩ := split_of_comment h
  obtain ⟨more, hmore⟩ := startsComment_split hstarts
  have hlead : marker = [] ∨ marker = ['-'] ∧ body.takeWhile Text.isBlank ≠ [] := by
    rcases hmarker with hnone | ⟨hminus, c, rest, rfl, hc⟩
    · exact Or.inl hnone
    · exact Or.inr ⟨hminus, by simp [hc]⟩
  -- The start mark is not cut by the end of the body, because the body has its own end mark.
  have hbegin : ['/', '*'] <+: content ++ ['*', '/'] := by
    rw [hmore] at hsplit
    cases content with
    | nil => exact absurd (List.cons.inj hsplit).1 (by decide)
    | cons c content =>
      cases content with
      | nil =>
        simp only [List.cons_append, List.nil_append, List.cons.injEq] at hsplit
        rw [← hsplit.1]
        exact ⟨['/'], rfl⟩
      | cons d content =>
        simp only [List.cons_append, List.cons.injEq] at hsplit
        rw [← hsplit.1, ← hsplit.2.1]
        exact ⟨content ++ ['*', '/'], rfl⟩
  refine ⟨_, ?_, .mk hlead List.all_takeWhile hbegin hfirst hgap hclose, htokens, ?_⟩
  · rw [List.append_assoc _ (_ ++ _) gap, List.append_assoc _ (_ ++ gap) close,
      List.append_assoc _ (_ ++ close) f.rest, ← hsplit, List.append_assoc,
      List.takeWhile_append_dropWhile]
    rfl
  · rw [hpos]
    simp only [List.append_assoc]

/-- A comment is passed over as a whole. -/
theorem reads_of_comment {start : Position} {before marker body : List Char} {f : Finished}
    (hmarker : marker = [] ∨ marker = ['-'] ∧ ∃ c rest, body = c :: rest ∧ Text.isBlank c = true)
    (hstarts : startsComment (body.dropWhile Text.isBlank) = true)
    (h : comment start (behind (before ++ ['\x7b', '\x7b'] ++ marker ++ body.takeWhile Text.isBlank))
      (body.dropWhile Text.isBlank) = .ok f) :
    f.Reads before ('\x7b' :: '\x7b' :: (marker ++ body)) := by
  obtain ⟨w, hsplit, hcomment, htokens, hpos⟩ := isComment_of_comment hmarker hstarts h
  refine ⟨before ++ w, by rw [hsplit, List.append_assoc], hpos, ?_⟩
  intro ts hts
  rw [htokens, hsplit]
  exact .comment hcomment hts

/-- The tokens of an action tile it from its opening delimiter to its end. -/
theorem reads_of_action {before s : List Char} {trims : Bool} {f : Finished}
    (h : action (behind before) s = .ok (trims, f)) : f.Reads before ('\x7b' :: '\x7b' :: s) := by
  cases hopening : openingMarker s with
  | mk marker body =>
    obtain ⟨hsplit, hmarker⟩ := openingMarker_split hopening
    simp only [action, hopening] at h
    rw [past_behind, past_behind] at h
    split at h
    · rename_i hstarts
      obtain ⟨finished, hf, h⟩ := Runs.monad_bind_eq_ok.1 h
      rw [past_behind] at hf
      rw [← (Prod.mk.inj (Except.ok.inj h)).2, hsplit]
      exact reads_of_comment hmarker hstarts hf
    · obtain ⟨inner, hinner, h⟩ := Runs.monad_bind_eq_ok.1 h
      have hreads := reads_of_actionTokens hinner
      rw [← (Prod.mk.inj (Except.ok.inj h)).2, hsplit]
      rcases hmarker with rfl | ⟨rfl, c, rest, rfl, hc⟩
      · rw [List.append_nil] at hreads
        exact hreads.token (.fixed (t := .actionStart) trivial)
      · obtain ⟨after, hafter, hpos, htiled⟩ := hreads
        refine ⟨after, by rw [hafter]; simp, hpos, ?_⟩
        intro ts hts
        have hrest := htiled ts hts
        rw [List.append_assoc] at hrest
        exact .trimming hc hrest

theorem isIn_of_action {before s source : List Char} {e : LexError}
    (hsource : before ++ '\x7b' :: '\x7b' :: s = source)
    (h : action (behind before) s = .error e) : e.pos.IsIn source := by
  have hstart : (behind before).IsIn source := isIn_behind hsource
  cases hopening : openingMarker s with
  | mk marker body =>
    obtain ⟨hsplit, -⟩ := openingMarker_split hopening
    have hbody : before ++ ['\x7b', '\x7b'] ++ marker ++ body = source := by
      rw [← hsource, hsplit]
      simp
    simp only [action, hopening] at h
    rw [past_behind, past_behind] at h
    split at h
    · have hinner : before ++ ['\x7b', '\x7b'] ++ marker ++ body.takeWhile Text.isBlank
          ++ body.dropWhile Text.isBlank = source := by
        rw [List.append_assoc, List.takeWhile_append_dropWhile, hbody]
      rcases Runs.monad_bind_eq_error.1 h with hf | ⟨_, _, hf⟩
      · rw [past_behind] at hf
        exact isIn_of_comment hinner hstart hf
      · exact absurd hf (by simp)
    · rcases Runs.monad_bind_eq_error.1 h with hf | ⟨_, _, hf⟩
      · exact isIn_of_actionTokens hbody hstart hf
      · exact absurd hf (by simp [bind, Except.bind])

/-! ## The whole source -/

/-- The texts and actions of a source tile it, whatever the text before them trims. -/
theorem tiled_of_segmentsFrom {before s : List Char} {segments : Segments}
    (h : segmentsFrom (behind before) s = .ok segments) (trims : Bool) :
    Tiled before s (tokensFrom trims segments.first segments.others) := by
  generalize hpos : behind before = pos at h
  have hsplit := takeText_append_rest s
  have htext := not_infix_takeText s
  fun_induction segmentsFrom pos s generalizing before segments trims with
  | case1 => exact absurd h (by simp)
  | case2 pos s c d body hrest start trimsBefore f =>
    rename_i haction ih
    obtain ⟨more, hmore, h⟩ := Runs.monad_bind_eq_ok.1 h
    have hplace : start = behind (before ++ (takeText s).1) := by rw [← past_behind, hpos]
    rw [hplace] at haction
    obtain ⟨after, -, hafter, htiled⟩ := reads_of_action haction
    have hlater := ih f.trimsAfter hafter.symm hmore (takeText_append_rest f.rest)
      (not_infix_takeText f.rest)
    have hall := RawText.tiled htext (htiled _ hlater) trims trimsBefore
    rw [← rest_of_takeText_cons hrest, hsplit] at hall
    rw [← Except.ok.inj h, ← hpos, tokensFrom, List.append_assoc]
    exact hall
  | case3 pos s hnone =>
    have hend : (takeText s).2 = [] := by
      rcases rest_of_takeText s with hnil | ⟨body, hbody⟩
      · exact hnil
      · exact absurd hbody (hnone _ _ _)
    have hnil : Tiled (before ++ (takeText s).1) [] [] := .nil
    have hall := RawText.tiled htext hnil trims false
    rw [← hend, hsplit, List.append_nil] at hall
    rw [← Except.ok.inj h, ← hpos, tokensFrom]
    exact hall

/-- A failure to split a source names a place in it. -/
theorem isIn_of_segmentsFrom {before s source : List Char} {e : LexError}
    (hsource : before ++ s = source) (h : segmentsFrom (behind before) s = .error e) :
    e.pos.IsIn source := by
  generalize hpos : behind before = pos at h
  have hsplit := takeText_append_rest s
  fun_induction segmentsFrom pos s generalizing before with
  | case1 pos s c d body hrest start e' =>
    rename_i haction
    have hplace : start = behind (before ++ (takeText s).1) := by rw [← past_behind, hpos]
    rw [hplace] at haction
    rw [← Except.error.inj h]
    refine isIn_of_action ?_ haction
    rw [List.append_assoc, ← rest_of_takeText_cons hrest, hsplit, hsource]
  | case2 pos s c d body hrest start trimsBefore f =>
    rename_i haction ih
    have hplace : start = behind (before ++ (takeText s).1) := by rw [← past_behind, hpos]
    rw [hplace] at haction
    obtain ⟨after, hread, hafter, -⟩ := reads_of_action haction
    have hrest' : after ++ f.rest = source := by
      rw [hread, List.append_assoc, ← rest_of_takeText_cons hrest, hsplit, hsource]
    rcases Runs.monad_bind_eq_error.1 h with h | ⟨_, _, h⟩
    · exact ih hrest' hafter.symm h (takeText_append_rest f.rest)
    · exact absurd h (by simp)
  | case3 => exact absurd h (by simp)


end Segments

/-- **A source that has tokens is tiled by them.** -/
theorem tiled_of_tokensOf {source : String} {ts : List PlacedToken} (h : tokensOf source = .ok ts) :
    Tiled [] source.toList ts := by
  obtain ⟨segments, hsegments, hts⟩ := Runs.monad_bind_eq_ok.1 h
  rw [Segments.ofSource, ← behind_nil] at hsegments
  rw [← Except.ok.inj hts]
  exact Segments.tiled_of_segmentsFrom hsegments false

/-- A source without tokens is refused at one of its places. -/
theorem isIn_of_tokensOf {source : String} {e : LexError} (h : tokensOf source = .error e) :
    e.pos.IsIn source.toList := by
  rcases Runs.monad_bind_eq_error.1 h with h | ⟨_, _, h⟩
  · rw [Segments.ofSource, ← behind_nil] at h
    exact Segments.isIn_of_segmentsFrom (List.nil_append _) h
  · exact absurd h (by simp)

end Stencil
