/-
A lexeme depends on two characters behind it at most.

The scanner takes the longest word, number or chain of fields, and a point belongs to one of them
only together with the character behind it; strings and marks end by themselves. So a lexeme is read
again in front of every text that begins with the same two characters. What scanning can yield inside
an action, and how such a spelling can end, is said here as well.
-/
import Stencil.Proofs.Spellings

set_option autoImplicit false

namespace Stencil

/-- Whether a token can stand between the delimiters of an action. -/
def Token.isInside : Token → Bool
  | .text _ => false
  | .actionStart => false
  | .actionEnd => false
  | _ => true

namespace Lexeme

/-! ## What the scanner looks at -/

/-- Says that two texts have their first two characters in common, or are one shorter text. -/
def Alike (r r' : List Char) : Prop := r.take 2 = r'.take 2

namespace Alike

variable {r r' : List Char}

theorem cons_cons (a b : Char) (s s' : List Char) : Alike (a :: b :: s) (a :: b :: s') := rfl

theorem symm (h : Alike r r') : Alike r' r := Eq.symm h

/-- Texts of at least two characters make what follows them alike. -/
theorem append_of_length {w : List Char} (hw : 2 ≤ w.length) (s s' : List Char) :
    Alike (w ++ s) (w ++ s') := by
  unfold Alike
  rw [List.take_append_of_le_length hw, List.take_append_of_le_length hw]

theorem append_left (h : Alike r r') : ∀ w : List Char, Alike (w ++ r) (w ++ r')
  | [] => h
  | [c] => by
    have hone : (r.take 2).take 1 = (r'.take 2).take 1 := congrArg (List.take 1) h
    rw [List.take_take, List.take_take] at hone
    have hmin : min 1 2 = 1 := rfl
    rw [hmin] at hone
    simp [Alike, hone]
  | a :: b :: w => cons_cons a b (w ++ r) (w ++ r')

/-- Alike texts begin with the same character. -/
theorem exists_cons (h : Alike r r') {c : Char} {s' : List Char} (hr' : r' = c :: s') :
    ∃ s, r = c :: s := by
  cases r with
  | nil => simp [Alike, hr'] at h
  | cons d s =>
    simp only [Alike, hr', List.take_succ_cons, List.cons.injEq] at h
    exact ⟨s, by rw [h.1]⟩

theorem exists_cons_cons (h : Alike r r') {c d : Char} {s' : List Char}
    (hr' : r' = c :: d :: s') : ∃ s, r = c :: d :: s := by
  obtain ⟨s, rfl⟩ := h.exists_cons hr'
  cases s with
  | nil => simp [Alike, hr'] at h
  | cons e s =>
    simp only [Alike, hr', List.take_succ_cons, List.take_zero, List.cons.injEq, true_and,
      and_true] at h
    exact ⟨s, by rw [h]⟩

/-- Where a stretch stops in front of a text, it stops in front of every one like it. -/
theorem stop {p : Char → Bool} (h : Alike r r')
    (hr : ∀ c rest, r = c :: rest → p c = false) (c : Char) (rest : List Char)
    (hr' : r' = c :: rest) : p c = false := by
  obtain ⟨s, hs⟩ := h.exists_cons hr'
  exact hr c s hs

theorem startsWith_eq {p : Char → Bool} (h : Alike r r') : startsWith p r = startsWith p r' := by
  cases r' with
  | nil =>
    have hr : r = [] := by simpa [Alike] using h
    rw [hr]
  | cons c s' =>
    obtain ⟨s, rfl⟩ := h.exists_cons rfl
    rfl

end Alike

theorem stop_dropWhile {p : Char → Bool} (s : List Char) (c : Char) (rest : List Char)
    (h : s.dropWhile p = c :: rest) : p c = false := by
  have hhead := List.head?_dropWhile_not p s
  rw [h] at hhead
  simpa using hhead

/-- The longest stretch of a text is found again in front of a text like the rest. -/
theorem stretch_append {p : Char → Bool} {s r' : List Char} (h : Alike (s.dropWhile p) r') :
    (s.takeWhile p ++ r').takeWhile p = s.takeWhile p
      ∧ (s.takeWhile p ++ r').dropWhile p = r' :=
  have hstop := h.stop (stop_dropWhile s)
  ⟨takeWhile_append_of_stop List.all_takeWhile hstop,
    dropWhile_append_of_stop List.all_takeWhile hstop⟩

/-! ## One kind of lexeme at a time -/

theorem scanWord_alike {s r' : List Char} (h : Alike (scanWord s).rest r') :
    scanWord ((scanWord s).spelling ++ r') = ⟨(scanWord s).token, (scanWord s).spelling, r'⟩ := by
  obtain ⟨htake, hdrop⟩ := stretch_append (p := isNameChar) h
  unfold scanWord
  rw [htake, hdrop]

/-- A chain of fields ends at the same point in front of alike texts. -/
theorem fieldChain_alike {s r' : List Char} (h : Alike (fieldChain s).2 r') :
    fieldChain (chainSpelling (fieldChain s).1 ++ r') = ((fieldChain s).1, r') := by
  fun_induction fieldChain s with
  | case1 c rest hc name names more hchain ih =>
    rw [hchain] at ih
    have hsplit := chainSpelling_append_rest (rest.dropWhile isNameChar)
    rw [hchain] at hsplit
    have hname : name = c :: rest.takeWhile isNameChar :=
      List.takeWhile_cons_of_pos (isNameChar_of_isNameStart hc)
    -- The name ends where it did, because the rest of the chain stands behind it as before.
    have hbehind : Alike (rest.dropWhile isNameChar) (chainSpelling names ++ r') := by
      rw [← hsplit]
      exact h.append_left _
    have hstop := hbehind.stop (stop_dropWhile rest)
    have hall : (c :: rest.takeWhile isNameChar).all isNameChar = true := by
      rw [← hname]
      exact List.all_takeWhile
    have hspelling : chainSpelling (name :: names) ++ r'
        = '.' :: c :: (rest.takeWhile isNameChar ++ (chainSpelling names ++ r')) := by
      simp [chainSpelling, hname]
    rw [hspelling, fieldChain, if_pos hc, dropWhile_append_of_stop List.all_takeWhile hstop, ih h,
      ← List.cons_append, takeWhile_append_of_stop hall hstop, hname]
  | case2 c rest hc =>
    obtain ⟨rest', rfl⟩ := h.symm.exists_cons_cons rfl
    show fieldChain ('.' :: c :: rest') = _
    rw [fieldChain, if_neg hc]
  | case3 s hnone =>
    show fieldChain r' = ([], r')
    unfold fieldChain
    split
    · obtain ⟨rest, hrest⟩ := h.exists_cons_cons rfl
      exact absurd hrest (hnone _ rest)
    · rfl

/-- Nothing behind the closing quote of a string matters. -/
theorem scanQuotedFrom_local {content read s : List Char} {l : Lexeme}
    (h : scanQuotedFrom content read s = .ok l) :
    ∃ w, s = w ++ l.rest ∧
      ∀ r', scanQuotedFrom content read (w ++ r') = .ok ⟨l.token, l.spelling, r'⟩ := by
  fun_induction scanQuotedFrom content read s with
  | case1 => exact absurd h (by simp)
  | case2 content read c rest d hd ih =>
    obtain ⟨w, rfl, hw⟩ := ih h
    refine ⟨'\\' :: c :: w, rfl, fun r' => ?_⟩
    rw [List.cons_append, List.cons_append, scanQuotedFrom_escape hd]
    exact hw r'
  | case3 => exact absurd h (by simp)
  | case4 content read rest =>
    rw [← Except.ok.inj h]
    exact ⟨['"'], rfl, fun r' => scanQuotedFrom_close⟩
  | case5 => exact absurd h (by simp)
  | case6 content read c rest hpair hquote hline ih =>
    -- A backslash that is no escape would be the last character, and the string would not end.
    have hslash : c ≠ '\\' := by
      rintro rfl
      cases rest with
      | nil => exact absurd h (by simp [scanQuotedFrom])
      | cons d more => exact hpair d more rfl rfl
    obtain ⟨w, rfl, hw⟩ := ih h
    refine ⟨c :: w, rfl, fun r' => ?_⟩
    rw [List.cons_append, scanQuotedFrom_plain hslash hquote hline]
    exact hw r'

/-- Nothing behind the closing mark of a raw string matters. -/
theorem scanRaw_local {s : List Char} {l : Lexeme} (h : scanRaw s = .ok l) :
    ∃ w, s = w ++ l.rest ∧ ∀ r', scanRaw (w ++ r') = .ok ⟨l.token, l.spelling, r'⟩ := by
  unfold scanRaw at h
  split at h
  · exact absurd h (by simp)
  · rename_i mark rest hdrop
    have hmark := stop_dropWhile s mark rest hdrop
    rw [← Except.ok.inj h]
    refine ⟨s.takeWhile (· != rawMark) ++ [mark], ?_, fun r' => ?_⟩
    · rw [List.append_assoc, List.singleton_append, ← hdrop, List.takeWhile_append_dropWhile]
    · have hstop : ∀ c more, mark :: r' = c :: more → (c != rawMark) = false := by
        intro c more heq
        rw [← (List.cons.inj heq).1]
        exact hmark
      unfold scanRaw
      rw [List.append_assoc, List.singleton_append,
        takeWhile_append_of_stop List.all_takeWhile hstop,
        dropWhile_append_of_stop List.all_takeWhile hstop]

theorem decimalPlaces_alike {r r' : List Char} (h : Alike r r') (hr : decimalPlaces r = []) :
    decimalPlaces r' = [] := by
  unfold decimalPlaces
  split
  · rename_i places
    obtain ⟨places', rfl⟩ := h.exists_cons rfl
    cases places with
    | nil => rfl
    | cons d places =>
      obtain ⟨others, hothers⟩ := h.exists_cons_cons rfl
      rw [hothers] at hr
      have hd : ¬ d.isDigit = true := by
        intro hdigit
        simp [decimalPlaces, hdigit] at hr
      exact List.takeWhile_cons_of_neg hd
  · rfl

/-- The digits of a number and its point are decided by two characters behind it. -/
theorem scanNumber_alike {sign s r' : List Char} {l : Lexeme} (h : scanNumber sign s = .ok l)
    (hr : Alike l.rest r') :
    ∃ w, s = w ++ l.rest ∧ scanNumber sign (w ++ r') = .ok ⟨l.token, l.spelling, r'⟩ := by
  simp only [scanNumber] at h
  split at h
  · -- A point without a digit behind it is left to the next token, and that takes both to be seen.
    rename_i hplaces
    have hnone : decimalPlaces (s.dropWhile Char.isDigit) = [] := List.isEmpty_iff.1 hplaces
    split at h
    · rename_i n hn
      rw [← Except.ok.inj h] at hr ⊢
      obtain ⟨htake, hdrop⟩ := stretch_append (p := Char.isDigit) hr
      refine ⟨s.takeWhile Char.isDigit, List.takeWhile_append_dropWhile.symm, ?_⟩
      simp only [scanNumber, htake, hdrop, decimalPlaces_alike hr hnone, List.isEmpty_nil, if_true,
        hn]
    · exact absurd h (by simp)
  · rename_i hplaces
    have hne : decimalPlaces (s.dropWhile Char.isDigit) ≠ [] := fun hnil => hplaces (by rw [hnil]; rfl)
    have hpoint := decimalPlaces_append hne
    rw [← Except.ok.inj h] at hr ⊢
    generalize hwhole : s.takeWhile Char.isDigit = whole at *
    generalize hafter : s.dropWhile Char.isDigit = after at *
    generalize hplacesDef : decimalPlaces after = places at *
    generalize hrest : after.drop (places.length + 1) = rest at *
    have hall : whole.all Char.isDigit = true := by
      rw [← hwhole]
      exact List.all_takeWhile
    refine ⟨whole ++ '.' :: places, ?_, ?_⟩
    · rw [List.append_assoc, hpoint, ← hwhole, ← hafter, List.takeWhile_append_dropWhile]
    · -- The point ends the whole part, and the decimal places end where they did.
      have hstop : ∀ c more, '.' :: (places ++ r') = c :: more → c.isDigit = false := by
        intro c more heq
        rw [← (List.cons.inj heq).1]
        rfl
      have hagain : decimalPlaces ('.' :: (places ++ r')) = places := by
        have htake : (places ++ rest).takeWhile Char.isDigit = places := by
          rw [← hpoint] at hplacesDef
          exact hplacesDef
        have hdrop : (places ++ rest).dropWhile Char.isDigit = rest := by
          have hsplit := List.takeWhile_append_dropWhile (p := Char.isDigit) (l := places ++ rest)
          rw [htake] at hsplit
          exact List.append_cancel_left hsplit
        have hthen : Alike ((places ++ rest).dropWhile Char.isDigit) r' := by rwa [hdrop]
        have hstretch := (stretch_append hthen).1
        rw [htake] at hstretch
        exact hstretch
      have hnonempty : ¬ places.isEmpty = true := fun hempty => hne (List.isEmpty_iff.1 hempty)
      simp only [scanNumber, List.append_assoc, List.cons_append,
        takeWhile_append_of_stop hall hstop, dropWhile_append_of_stop hall hstop, hagain,
        if_neg hnonempty, List.drop_succ_cons, List.drop_left]

/-- **A lexeme depends on two characters behind it at most.** -/
theorem scan_alike {c : Char} {s w r' : List Char} {l : Lexeme} (h : scan c s = .ok l)
    (hw : l.spelling = c :: w) (hr : Alike l.rest r') :
    scan c (w ++ r') = .ok ⟨l.token, l.spelling, r'⟩ := by
  have hsplit := spelling_append_rest_of_scan h
  rw [hw, List.cons_append] at hsplit
  have hs : s = w ++ l.rest := (List.cons.inj hsplit).2.symm
  -- A mark by itself has been read when its character has.
  have hmark : ∀ {t : Token}, Except.ok (⟨t, [c], s⟩ : Lexeme) = (.ok l : Except Misread Lexeme) →
      Except.ok (⟨t, [c], w ++ r'⟩ : Lexeme)
        = (.ok ⟨l.token, l.spelling, r'⟩ : Except Misread Lexeme) := by
    intro t hl
    rw [← Except.ok.inj hl] at hw ⊢
    rw [← (List.cons.inj hw).2, List.nil_append]
  unfold scan at h ⊢
  by_cases hpipe : c = '|'
  · rw [if_pos hpipe] at h ⊢
    exact hmark h
  by_cases hleft : c = '('
  · rw [if_neg hpipe, if_pos hleft] at h ⊢
    exact hmark h
  by_cases hright : c = ')'
  · rw [if_neg hpipe, if_neg hleft, if_pos hright] at h ⊢
    exact hmark h
  rw [if_neg hpipe, if_neg hleft, if_neg hright] at h ⊢
  by_cases hquote : c = '"'
  · rw [if_pos hquote] at h ⊢
    obtain ⟨w', hw', hlocal⟩ := scanQuotedFrom_local h
    rw [List.append_cancel_right (hs.symm.trans hw')]
    exact hlocal r'
  by_cases hraw : c = rawMark
  · rw [if_neg hquote, if_pos hraw] at h ⊢
    obtain ⟨w', hw', hlocal⟩ := scanRaw_local h
    rw [List.append_cancel_right (hs.symm.trans hw')]
    exact hlocal r'
  rw [if_neg hquote, if_neg hraw] at h ⊢
  -- What follows is told apart by the next character, and that stays what it was.
  have hnext : ∀ p, startsWith p s = startsWith p (w ++ r') := by
    intro p
    rw [hs]
    exact (hr.append_left w).startsWith_eq
  by_cases hpoint : c = '.'
  · rw [if_pos hpoint, hnext] at h
    rw [if_pos hpoint]
    by_cases hname : startsWith isNameStart (w ++ r') = true
    · rw [if_pos hname] at h ⊢
      rw [← Except.ok.inj h] at hw hr ⊢
      have hchain := fieldChain_alike hr
      have hspelling : chainSpelling (fieldChain (c :: s)).1 = c :: w := hw
      rw [hspelling, List.cons_append] at hchain
      rw [hchain]
    · rw [if_neg hname] at h ⊢
      exact hmark h
  rw [if_neg hpoint] at h ⊢
  by_cases hdollar : c = '$'
  · rw [if_pos hdollar] at h ⊢
    rw [← Except.ok.inj h] at hw hr ⊢
    have hchain := fieldChain_alike hr
    rw [← (List.cons.inj hw).2, hchain]
  rw [if_neg hdollar] at h ⊢
  by_cases hdigit : c.isDigit = true
  · rw [if_pos hdigit] at h ⊢
    obtain ⟨w', hw', hlocal⟩ := scanNumber_alike h hr
    have hcons : w' = c :: w := List.append_cancel_right (hw'.symm.trans (congrArg (c :: ·) hs))
    rwa [hcons] at hlocal
  rw [if_neg hdigit, hnext] at h
  rw [if_neg hdigit]
  by_cases hminus : c = '-' ∧ startsWith Char.isDigit (w ++ r') = true
  · rw [if_pos hminus] at h ⊢
    obtain ⟨w', hw', hlocal⟩ := scanNumber_alike h hr
    rwa [List.append_cancel_right (hs.symm.trans hw')]
  rw [if_neg hminus] at h ⊢
  by_cases hstart : isNameStart c = true
  · rw [if_pos hstart] at h ⊢
    rw [← Except.ok.inj h] at hw hr ⊢
    have hword := scanWord_alike hr
    rw [hw, List.cons_append] at hword
    rw [hword, hw]
  · rw [if_neg hstart] at h
    exact absurd h (by simp)

/-! ## Tokens inside an action -/

theorem isInside_wordToken (word : String) : (wordToken word).isInside = true := by
  unfold wordToken
  split
  · rfl
  split
  · rfl
  split
  · rfl
  cases Keyword.ofSpelling? word with
  | some k => rfl
  | none => rfl

theorem isInside_of_scanNumber {sign s : List Char} {l : Lexeme}
    (h : scanNumber sign s = .ok l) : l.token.isInside = true := by
  simp only [scanNumber] at h
  split at h
  · split at h
    · rw [← Except.ok.inj h]
      rfl
    · exact absurd h (by simp)
  · rw [← Except.ok.inj h]
    rfl

/-- No lexeme is a text or a delimiter. -/
theorem isInside_of_scan {c : Char} {s : List Char} {l : Lexeme} (h : scan c s = .ok l) :
    l.token.isInside = true := by
  unfold scan at h
  split at h
  · rw [← Except.ok.inj h]; rfl
  split at h
  · rw [← Except.ok.inj h]; rfl
  split at h
  · rw [← Except.ok.inj h]; rfl
  split at h
  · obtain ⟨_, _, _, htoken, _⟩ := escapes_of_scanQuotedFrom h
    rw [htoken]
    rfl
  split at h
  · unfold scanRaw at h
    split at h
    · exact absurd h (by simp)
    · rw [← Except.ok.inj h]; rfl
  split at h
  · split at h
    · rw [← Except.ok.inj h]; rfl
    · rw [← Except.ok.inj h]; rfl
  split at h
  · rw [← Except.ok.inj h]; rfl
  split at h
  · exact isInside_of_scanNumber h
  split at h
  · exact isInside_of_scanNumber h
  split at h
  · rw [← Except.ok.inj h]
    exact isInside_wordToken _
  · exact absurd h (by simp)

theorem getLast?_ne_of_all {p : Char → Bool} {w : List Char} {d : Char} (hd : p d = false)
    (hw : w.all p = true) : w.getLast? ≠ some d := by
  intro hlast
  have hmem := List.all_eq_true.1 hw d (List.mem_of_getLast? hlast)
  rw [hd] at hmem
  exact Bool.false_ne_true hmem

theorem getLast?_append_of_ne_nil {x w : List Char} (hw : w ≠ []) :
    (x ++ w).getLast? = w.getLast? := by
  rw [List.getLast?_append]
  cases h : w.getLast? with
  | none => exact absurd (List.getLast?_eq_none_iff.1 h) hw
  | some d => rfl

/-- A chain of fields ends with a character of a name. -/
theorem getLast?_chainSpelling {path : List String} (h : path.all isIdentifier = true) :
    (chainSpelling (path.map String.toList)).getLast? ≠ some '-' := by
  have hall : (chainSpelling (path.map String.toList)).all
      (fun c => isNameChar c || c == '.') = true := by
    rw [List.all_eq_true]
    intro c hc
    obtain ⟨n, hn, hc⟩ := List.mem_flatMap.1 hc
    obtain ⟨d, rest, rfl, hd, hrest⟩ := isName_of_path h n hn
    rcases List.mem_cons.1 hc with rfl | hc
    · rfl
    rcases List.mem_cons.1 hc with rfl | hc
    · simp [isNameChar_of_isNameStart hd]
    · simp [List.all_eq_true.1 hrest c hc]
  exact getLast?_ne_of_all rfl hall

/-- No token inside an action ends with a minus sign, so the sign in front of two braces is a trim
marker. -/
theorem getLast?_of_writtenAs {t : Token} {w : List Char} (h : t.WrittenAs w)
    (ht : t.isInside = true) : w.getLast? ≠ some '-' := by
  cases h with
  | fixed hfixed =>
    cases t with
    | text _ | actionStart | actionEnd => exact absurd ht Bool.false_ne_true
    | string _ | int _ | float _ => exact absurd hfixed id
    | keyword k => cases k <;> decide
    | ident name =>
      obtain ⟨c, rest, hname, hc, hrest⟩ := isName_of_isIdentifier hfixed.1
      rw [Token.spelling, hname]
      refine getLast?_ne_of_all (p := isNameChar) rfl ?_
      rw [List.all_cons, isNameChar_of_isNameStart hc, hrest]
      rfl
    | field path => exact getLast?_chainSpelling hfixed.2
    | «variable» path =>
      rw [Token.spelling]
      cases path with
      | nil => decide
      | cons name path =>
        rw [List.getLast?_cons_of_ne_nil (by simp [chainSpelling])]
        exact getLast?_chainSpelling hfixed
    | bool b => cases b <;> decide
    | dot | nil | pipe | leftParen | rightParen => decide
  | close | trimmingClose => exact absurd ht Bool.false_ne_true
  | quoted _ =>
    rw [getLast?_append_of_ne_nil (by simp)]
    decide
  | raw _ =>
    rw [getLast?_append_of_ne_nil (by simp)]
    decide
  | int hspelled _ =>
    rw [getLast?_append_of_ne_nil hspelled.notEmpty]
    exact getLast?_ne_of_all rfl hspelled.digits
  | float hspelled hplaces hdigits =>
    rw [getLast?_append_of_ne_nil (by simp), List.getLast?_cons_of_ne_nil hplaces]
    exact getLast?_ne_of_all rfl hdigits

end Lexeme

end Stencil
