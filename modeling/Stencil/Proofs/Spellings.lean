/-
How a token may stand in a source.

A token that has been scanned stands there as it was spelled, and what it means says little about the
spelling: a string may be quoted or raw and its characters may be escaped, a number may begin with
zeros, and the end of an action may have a trim marker. The relation below lists the spellings of
every token without a look at the scanner, and the scanner is shown to keep to it. Where the scanner
fails, what it has read up to the place that it names is the beginning of the text.
-/
import Mathlib.Data.List.TakeWhile
import Stencil.Proofs.Scanning

set_option autoImplicit false

namespace Stencil

/-! ## Patterns in a text -/

namespace Text

theorem isSome_after?_iff {pat s : List Char} : (after? pat s).isSome = true ↔ pat <+: s := by
  induction pat generalizing s with
  | nil => simp [after?]
  | cons p ps ih =>
    cases s with
    | nil => simp [after?]
    | cons c cs =>
      by_cases hpc : p = c
      · simp [after?, hpc, ih, List.cons_prefix_cons]
      · simp [after?, hpc, List.cons_prefix_cons]

/-- A pattern occurs in a text if it is a stretch of it. -/
theorem occurs_iff {pat s : List Char} : occurs pat s = true ↔ pat <:+: s := by
  induction s with
  | nil => simp [occurs]
  | cons c rest ih => rw [occurs, Bool.or_eq_true, isSome_after?_iff, ih, List.infix_cons_iff]

end Text

/-! ## Spellings -/

/-- How the characters of a string may be spelled between double quotes: as they are, the quote, the
backslash and line ends apart, or as escapes. -/
inductive Text.Escapes : List Char → List Char → Prop where
  | nil : Escapes [] []
  | plain {c : Char} {cs content : List Char} :
      c ≠ '"' → c ≠ '\\' → c ≠ '\n' → Escapes cs content → Escapes (c :: cs) (c :: content)
  | escape {c d : Char} {cs content : List Char} :
      Lexeme.unescape? c = some d → Escapes cs content → Escapes ('\\' :: c :: cs) (d :: content)

/-- Says of a token that is spelled in one way only that it can be. No opening delimiter occurs in a
text, and names are identifiers. -/
def Token.IsFixed : Token → Prop
  | .text s => s ≠ "" ∧ Text.occurs ['\x7b', '\x7b'] s.toList = false
  | .actionStart => True
  | .actionEnd => False
  | .keyword _ => True
  | .ident name => isIdentifier name = true ∧ isReserved name = false
  | .field path => path ≠ [] ∧ path.all isIdentifier = true
  | .dot => True
  | .variable path => path.all isIdentifier = true
  | .string _ => False
  | .int _ => False
  | .float _ => False
  | .bool _ => True
  | .nil => True
  | .pipe => True
  | .leftParen => True
  | .rightParen => True

/-- Says that `sign` and `digits` spell a whole number or the part of a number before its point. -/
structure Decimal.Spelled (sign digits : List Char) : Prop where
  sign : sign = [] ∨ sign = ['-']
  notEmpty : digits ≠ []
  digits : digits.all Char.isDigit = true

/-- The spellings of a token. -/
inductive Token.WrittenAs : Token → List Char → Prop where
  | fixed {t : Token} : t.IsFixed → WrittenAs t t.spelling
  | close : WrittenAs .actionEnd ['\x7d', '\x7d']
  /-- The end of an action that trims the text behind it. -/
  | trimmingClose : WrittenAs .actionEnd ['-', '\x7d', '\x7d']
  | quoted {cs content : List Char} :
      Text.Escapes cs content → WrittenAs (.string (String.ofList content)) ('"' :: cs ++ ['"'])
  | raw {content : List Char} :
      Lexeme.rawMark ∉ content →
      WrittenAs (.string (String.ofList content)) (Lexeme.rawMark :: content ++ [Lexeme.rawMark])
  | int {sign digits : List Char} {n : Int64} :
      Decimal.Spelled sign digits → n.toInt = Decimal.signed (!sign.isEmpty) digits →
      WrittenAs (.int n) (sign ++ digits)
  | float {sign digits places : List Char} :
      Decimal.Spelled sign digits → places ≠ [] → places.all Char.isDigit = true →
      WrittenAs
        (.float (Decimal.toFloat (!sign.isEmpty) (Decimal.digitsValue (digits ++ places))
          (-(places.length : Int))))
        (sign ++ digits ++ '.' :: places)

/-- No spelling is empty. -/
theorem Token.WrittenAs.ne_nil {t : Token} {w : List Char} (h : t.WrittenAs w) : w ≠ [] := by
  cases h with
  | fixed ht =>
    cases t with
    | text s =>
      intro hnil
      exact ht.1 (String.toList_inj.1 (by rw [show s.toList = [] from hnil]; rfl))
    | ident name =>
      intro hnil
      have hname : isIdentifier name = true := ht.1
      rw [isIdentifier, show name.toList = [] from hnil] at hname
      exact Bool.false_ne_true hname
    | keyword k => cases k <;> simp [spelling, Keyword.spelling]
    | field path =>
      cases path with
      | nil => exact absurd rfl ht.1
      | cons name rest => simp [spelling, Lexeme.chainSpelling]
    | bool b => cases b <;> simp [spelling]
    | actionEnd | string _ | int _ | float _ => exact absurd ht id
    | _ => simp [spelling]
  | close | trimmingClose | quoted _ | raw _ => simp
  | int hspelled _ => simp [hspelled.notEmpty]
  | float _ _ _ => simp

namespace Lexeme

/-! ## The scanner keeps to the spellings -/

/-- A string is scanned up to its closing quote. The induction follows the scanner, which has read
`read` so far and found that it means `content`. -/
theorem escapes_of_scanQuotedFrom {content read s : List Char} {l : Lexeme}
    (h : scanQuotedFrom content read s = .ok l) :
    ∃ cs more, Text.Escapes cs more ∧ l.token = .string (String.ofList (content.reverse ++ more))
      ∧ l.spelling = read.reverse ++ cs ++ ['"'] := by
  fun_induction scanQuotedFrom content read s with
  | case1 => exact absurd h (by simp)
  | case2 content read c rest d hd ih =>
    obtain ⟨cs, more, hescapes, htoken, hspelling⟩ := ih h
    exact ⟨'\\' :: c :: cs, d :: more, .escape hd hescapes, by simpa using htoken,
      by simpa using hspelling⟩
  | case3 => exact absurd h (by simp)
  | case4 content read rest =>
    rw [← Except.ok.inj h]
    exact ⟨[], [], .nil, by simp, by simp⟩
  | case5 => exact absurd h (by simp)
  | case6 content read c rest hpair hquote hline ih =>
    obtain ⟨cs, more, hescapes, htoken, hspelling⟩ := ih h
    -- A backslash that is no escape would be the last character, and the string would not end.
    have hslash : c ≠ '\\' := by
      rintro rfl
      cases rest with
      | nil => exact absurd h (by simp [scanQuotedFrom])
      | cons d more => exact hpair d more rfl rfl
    exact ⟨c :: cs, c :: more, .plain hquote hslash hline hescapes, by simpa using htoken,
      by simpa using hspelling⟩

theorem writtenAs_of_scanRaw {s : List Char} {l : Lexeme} (h : scanRaw s = .ok l) :
    l.token.WrittenAs l.spelling := by
  unfold scanRaw at h
  split at h
  · exact absurd h (by simp)
  · rename_i mark rest hrest
    have hmark : mark = rawMark := by
      have hhead := List.head?_dropWhile_not (· != rawMark) s
      rw [hrest] at hhead
      simpa using hhead
    have hcontent : rawMark ∉ s.takeWhile (· != rawMark) := by
      intro hmem
      simpa using List.mem_takeWhile_imp hmem
    rw [← Except.ok.inj h, hmark]
    exact .raw hcontent

/-- A number is spelled by its sign and digits, if a digit follows the sign. -/
theorem writtenAs_of_scanNumber {sign s : List Char} {l : Lexeme}
    (hsign : sign = [] ∨ sign = ['-']) (hs : s.takeWhile Char.isDigit ≠ [])
    (h : scanNumber sign s = .ok l) : l.token.WrittenAs l.spelling := by
  have hspelled : Decimal.Spelled sign (s.takeWhile Char.isDigit) :=
    ⟨hsign, hs, List.all_takeWhile⟩
  simp only [scanNumber] at h
  split at h
  · split at h
    · rename_i n hn
      rw [← Except.ok.inj h]
      refine .int hspelled ?_
      unfold Decimal.int64? at hn
      split at hn
      · rename_i hbounds
        rw [← Option.some.inj hn]
        exact Int64.toInt_ofInt_of_le (by omega) (by omega)
      · exact absurd hn (by simp)
    · exact absurd h (by simp)
  · rename_i hplaces
    rw [← Except.ok.inj h]
    refine .float hspelled (fun hnil => hplaces (by rw [hnil]; rfl)) ?_
    unfold decimalPlaces
    split
    · exact List.all_takeWhile
    · rfl

theorem isName_takeWhile {c : Char} {rest : List Char} (h : isNameStart c = true) :
    IsName ((c :: rest).takeWhile isNameChar) := by
  refine ⟨c, rest.takeWhile isNameChar, ?_, h, List.all_takeWhile⟩
  rw [List.takeWhile_cons_of_pos (isNameChar_of_isNameStart h)]

theorem isIdentifier_ofList {n : List Char} (h : IsName n) :
    isIdentifier (String.ofList n) = true := by
  obtain ⟨c, rest, rfl, hc, hrest⟩ := h
  simp [isIdentifier, hc, hrest]

theorem isName_of_mem_fieldChain {s n : List Char} (h : n ∈ (fieldChain s).1) : IsName n := by
  fun_induction fieldChain s with
  | case1 c rest hc name names more hchain ih =>
    rw [hchain] at ih
    rcases List.mem_cons.1 h with rfl | h
    · exact isName_takeWhile hc
    · exact ih h
  | case2 => exact absurd h (by simp)
  | case3 => exact absurd h (by simp)

theorem all_isIdentifier_fieldChain (s : List Char) :
    ((fieldChain s).1.map String.ofList).all isIdentifier = true := by
  rw [List.all_eq_true]
  intro name hname
  obtain ⟨n, hn, rfl⟩ := List.mem_map.1 hname
  exact isIdentifier_ofList (isName_of_mem_fieldChain hn)

theorem chainSpelling_map_ofList (names : List (List Char)) :
    chainSpelling ((names.map String.ofList).map String.toList) = chainSpelling names := by
  rw [List.map_map]
  congr 1
  exact List.map_id'' (fun _ => String.toList_ofList) names

theorem writtenAs_of_fieldChain {s : List Char} (h : (fieldChain s).1 ≠ []) :
    (Token.field ((fieldChain s).1.map String.ofList)).WrittenAs
      (chainSpelling (fieldChain s).1) := by
  have hfixed : (Token.field ((fieldChain s).1.map String.ofList)).IsFixed :=
    ⟨by simpa using h, all_isIdentifier_fieldChain s⟩
  have hwritten := Token.WrittenAs.fixed hfixed
  rw [Token.spelling, chainSpelling_map_ofList] at hwritten
  exact hwritten

theorem writtenAs_variable (s : List Char) :
    (Token.variable ((fieldChain s).1.map String.ofList)).WrittenAs
      ('$' :: chainSpelling (fieldChain s).1) := by
  have hfixed : (Token.variable ((fieldChain s).1.map String.ofList)).IsFixed :=
    all_isIdentifier_fieldChain s
  have hwritten := Token.WrittenAs.fixed hfixed
  rw [Token.spelling, chainSpelling_map_ofList] at hwritten
  exact hwritten

/-- A word is spelled by itself, whether it is a constant, a keyword or a name. -/
theorem writtenAs_wordToken {n : List Char} (h : IsName n) :
    (wordToken (String.ofList n)).WrittenAs n := by
  have hown : ∀ t : Token, t.IsFixed → t.spelling = n → t.WrittenAs n := by
    intro t ht hn
    rw [← hn]
    exact .fixed ht
  have hword : ∀ w : String, String.ofList n = w → w.toList = n := by
    intro w hw
    rw [← hw, String.toList_ofList]
  unfold wordToken
  by_cases htrue : String.ofList n = "true"
  · rw [if_pos htrue]
    exact hown (.bool true) trivial (hword _ htrue)
  by_cases hfalse : String.ofList n = "false"
  · rw [if_neg htrue, if_pos hfalse]
    exact hown (.bool false) trivial (hword _ hfalse)
  by_cases hnil : String.ofList n = "nil"
  · rw [if_neg htrue, if_neg hfalse, if_pos hnil]
    exact hown .nil trivial (hword _ hnil)
  rw [if_neg htrue, if_neg hfalse, if_neg hnil]
  cases hkeyword : Keyword.ofSpelling? (String.ofList n) with
  | some k =>
    have hk : k.spelling = String.ofList n := by
      simpa using List.find?_some hkeyword
    exact hown (.keyword k) trivial (hword _ hk.symm)
  | none =>
    have hfree : isReserved (String.ofList n) = false := by
      simp [isReserved, htrue, hfalse, hnil, hkeyword]
    exact hown (.ident (String.ofList n)) ⟨isIdentifier_ofList h, hfree⟩ String.toList_ofList

/-- **What is scanned is a spelling of its token.** -/
theorem writtenAs_of_scan {c : Char} {rest : List Char} {l : Lexeme} (h : scan c rest = .ok l) :
    l.token.WrittenAs l.spelling := by
  have hmark : ∀ {t : Token} {d : Char}, c = d → t.IsFixed → t.spelling = [d] →
      t.WrittenAs [c] := by
    intro t d hc ht hd
    rw [hc, ← hd]
    exact .fixed ht
  unfold scan at h
  split at h
  · rename_i hc
    rw [← Except.ok.inj h]
    exact hmark hc trivial rfl
  split at h
  · rename_i hc
    rw [← Except.ok.inj h]
    exact hmark hc trivial rfl
  split at h
  · rename_i hc
    rw [← Except.ok.inj h]
    exact hmark hc trivial rfl
  split at h
  · rename_i hc
    obtain ⟨cs, more, hescapes, htoken, hspelling⟩ := escapes_of_scanQuotedFrom h
    rw [htoken, hspelling, hc]
    exact .quoted hescapes
  split at h
  · exact writtenAs_of_scanRaw h
  split at h
  · rename_i hpoint
    split at h
    · rename_i hname
      rw [← Except.ok.inj h]
      apply writtenAs_of_fieldChain
      -- The character behind the point begins the first name of the chain.
      cases rest with
      | nil => exact absurd hname Bool.false_ne_true
      | cons d more =>
        have hd : isNameStart d = true := hname
        rw [hpoint, fieldChain, if_pos hd]
        simp
    · rw [← Except.ok.inj h]
      exact hmark hpoint trivial rfl
  split at h
  · rename_i hdollar
    rw [← Except.ok.inj h, hdollar]
    exact writtenAs_variable rest
  split at h
  · rename_i hdigit
    exact writtenAs_of_scanNumber (Or.inl rfl) (by simp [hdigit]) h
  split at h
  · rename_i hminus
    refine writtenAs_of_scanNumber (Or.inr (by rw [hminus.1])) ?_ h
    cases rest with
    | nil => exact absurd hminus.2 Bool.false_ne_true
    | cons d more =>
      have hd : d.isDigit = true := hminus.2
      simp [hd]
  split at h
  · rename_i hstart
    rw [← Except.ok.inj h]
    exact writtenAs_wordToken (isName_takeWhile hstart)
  · exact absurd h (by simp)

/-! ## Where scanning fails -/

theorem before_prefix_of_scanQuotedFrom {content read s : List Char} {m : Misread}
    (h : scanQuotedFrom content read s = .error m) : m.before <+: read.reverse ++ s := by
  fun_induction scanQuotedFrom content read s with
  | case1 =>
    rw [← Except.error.inj h]
    exact List.nil_prefix
  | case2 content read c rest d hd ih => simpa using ih h
  | case3 content read c rest =>
    rw [← Except.error.inj h]
    exact ⟨rest, by simp⟩
  | case4 => exact absurd h (by simp)
  | case5 =>
    rw [← Except.error.inj h]
    exact List.nil_prefix
  | case6 content read c rest hpair hquote hline ih => simpa using ih h

theorem before_of_scanNumber {sign s : List Char} {m : Misread}
    (h : scanNumber sign s = .error m) : m.before = [] := by
  simp only [scanNumber] at h
  split at h
  · split at h
    · exact absurd h (by simp)
    · rw [← Except.error.inj h]
  · exact absurd h (by simp)

/-- The place of a failure lies behind a beginning of the text. -/
theorem before_prefix_of_scan {c : Char} {rest : List Char} {m : Misread}
    (h : scan c rest = .error m) : m.before <+: c :: rest := by
  have hnil : m.before = [] → m.before <+: c :: rest := by
    intro hm
    rw [hm]
    exact List.nil_prefix
  unfold scan at h
  split at h
  · exact absurd h (by simp)
  split at h
  · exact absurd h (by simp)
  split at h
  · exact absurd h (by simp)
  split at h
  · simpa using before_prefix_of_scanQuotedFrom h
  split at h
  · unfold scanRaw at h
    split at h
    · apply hnil
      rw [← Except.error.inj h]
    · exact absurd h (by simp)
  split at h
  · split at h
    · exact absurd h (by simp)
    · exact absurd h (by simp)
  split at h
  · exact absurd h (by simp)
  split at h
  · exact hnil (before_of_scanNumber h)
  split at h
  · exact hnil (before_of_scanNumber h)
  split at h
  · exact absurd h (by simp)
  · apply hnil
    rw [← Except.error.inj h]

end Lexeme

end Stencil
