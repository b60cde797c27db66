/-
A token is scanned back from its spelling.

What stands behind a token decides where it ends, so every statement here has a text behind the
spelling. Words, numbers and chains of fields would go on with a character of a name or a point; a
text that begins with neither is a boundary, and in front of a boundary the scanner has no choice.
-/
import Stencil.Proofs.Printing

set_option autoImplicit false

namespace Stencil

/-! ## Characters -/

namespace Lexeme

/-- Characters that a test tells apart are different. -/
theorem ne_of_test {p : Char → Bool} {c d : Char} (hc : p c = true) (hd : p d = false) : c ≠ d := by
  intro hcd
  rw [hcd, hd] at hc
  exact Bool.false_ne_true hc

theorem isNameStart_iff {c : Char} :
    isNameStart c = true
      ↔ (65 ≤ c.toNat ∧ c.toNat ≤ 90) ∨ (97 ≤ c.toNat ∧ c.toNat ≤ 122) ∨ c.toNat = 95 := by
  have hunderscore : c = '_' ↔ c.toNat = 95 := by
    rw [← Char.toNat_inj]
    rfl
  have hupper : c.isUpper = true ↔ 65 ≤ c.toNat ∧ c.toNat ≤ 90 := by
    show decide ('A'.val ≤ c.val ∧ c.val ≤ 'Z'.val) = true ↔ _
    rw [decide_eq_true_iff, UInt32.le_iff_toNat_le, UInt32.le_iff_toNat_le]
    rfl
  have hlower : c.isLower = true ↔ 97 ≤ c.toNat ∧ c.toNat ≤ 122 := by
    show (decide ('a'.val ≤ c.val) && decide (c.val ≤ 'z'.val)) = true ↔ _
    rw [Bool.and_eq_true, decide_eq_true_iff, decide_eq_true_iff, UInt32.le_iff_toNat_le,
      UInt32.le_iff_toNat_le]
    rfl
  show (c.isUpper || c.isLower || c == '_') = true ↔ _
  rw [Bool.or_eq_true, Bool.or_eq_true, hupper, hlower, beq_iff_eq, hunderscore, or_assoc]

theorem isDigit_iff {c : Char} : c.isDigit = true ↔ 48 ≤ c.toNat ∧ c.toNat ≤ 57 :=
  Char.isDigit_iff_toNat

theorem isNameChar_iff {c : Char} :
    isNameChar c = true ↔ isNameStart c = true ∨ c.isDigit = true := by
  simp only [isNameChar, isNameStart, Char.isAlphanum, Bool.or_eq_true]
  rw [or_right_comm]

theorem isNameChar_of_isNameStart {c : Char} (h : isNameStart c = true) : isNameChar c = true :=
  isNameChar_iff.2 (Or.inl h)

end Lexeme

open Lexeme

/-- Between the space and the next-line control there are no blanks. -/
theorem Text.isBlank_of_toNat {c : Char} (hlow : 0x21 ≤ c.toNat) (hhigh : c.toNat < 0x85) :
    Text.isBlank c = false := by
  simp only [Text.isBlank, Text.CharSet.contains, Text.blankSet, Text.CharSet.insideAfter]
  grind

theorem Text.isBlank_of_isNameChar {c : Char} (h : isNameChar c = true) :
    Text.isBlank c = false := by
  rw [isNameChar_iff, isNameStart_iff, isDigit_iff] at h
  exact Text.isBlank_of_toNat (by omega) (by omega)

namespace Lexeme

/-! ## Boundaries -/

/-- A text that no word, number or chain of fields goes on with. -/
def Boundary (s : List Char) : Prop :=
  ∀ c rest, s = c :: rest → isNameChar c = false ∧ c ≠ '.'

theorem Boundary.stops {s : List Char} (h : Boundary s) :
    ∀ c rest, s = c :: rest → isNameChar c = false := fun c rest heq => (h c rest heq).1

theorem boundary_cons {c : Char} {rest : List Char} (hname : isNameChar c = false)
    (hpoint : c ≠ '.') : Boundary (c :: rest) := by
  intro d more heq
  rw [← (List.cons.inj heq).1]
  exact ⟨hname, hpoint⟩

theorem boundary_of_isBlank {c : Char} {rest : List Char} (h : Text.isBlank c = true) :
    Boundary (c :: rest) := by
  have hname : isNameChar c = false := by
    rw [Bool.eq_false_iff]
    intro hc
    rw [Text.isBlank_of_isNameChar hc] at h
    exact Bool.false_ne_true h
  -- The point belongs to no name, so it has to be ruled out by itself.
  refine boundary_cons hname fun hpoint => ?_
  rw [hpoint] at h
  exact absurd h (by decide)

/-- A stretch of characters that pass a test ends where the first other one stands. -/
theorem takeWhile_append_of_stop {p : Char → Bool} {w s : List Char} (hw : w.all p = true)
    (hs : ∀ c rest, s = c :: rest → p c = false) : (w ++ s).takeWhile p = w := by
  have hstop : s.takeWhile p = [] := by
    cases s with
    | nil => rfl
    | cons c rest => exact List.takeWhile_cons_of_neg (Bool.eq_false_iff.1 (hs c rest rfl))
  rw [List.takeWhile_append_of_pos (List.all_eq_true.1 hw), hstop, List.append_nil]

theorem dropWhile_append_of_stop {p : Char → Bool} {w s : List Char} (hw : w.all p = true)
    (hs : ∀ c rest, s = c :: rest → p c = false) : (w ++ s).dropWhile p = s := by
  rw [List.dropWhile_append_of_pos (List.all_eq_true.1 hw)]
  cases s with
  | nil => rfl
  | cons c rest => exact List.dropWhile_cons_of_neg (Bool.eq_false_iff.1 (hs c rest rfl))

/-- Blanks end where another character stands. -/
theorem dropWhile_blanks {gap rest : List Char} {c : Char} (hgap : gap.all Text.isBlank = true)
    (hc : Text.isBlank c = false) : (gap ++ c :: rest).dropWhile Text.isBlank = c :: rest := by
  refine dropWhile_append_of_stop hgap fun d more heq => ?_
  rw [← (List.cons.inj heq).1]
  exact hc

/-! ## Words -/

theorem scan_of_isNameStart {c : Char} {rest : List Char} (h : isNameStart c = true) :
    scan c rest = .ok (scanWord (c :: rest)) := by
  have hne : ∀ d, isNameStart d = false → c ≠ d := fun _ => ne_of_test h
  have hdigit : ¬ c.isDigit = true := by
    rw [isDigit_iff]
    rw [isNameStart_iff] at h
    omega
  unfold scan
  rw [if_neg (hne _ rfl), if_neg (hne _ rfl), if_neg (hne _ rfl), if_neg (hne _ rfl),
    if_neg (hne _ rfl), if_neg (hne _ rfl), if_neg (hne _ rfl), if_neg hdigit,
    if_neg (fun hminus => hne '-' rfl hminus.1), if_pos h]

/-- A word in front of a character that belongs to no word. -/
theorem scan_word {c : Char} {w s : List Char} (hc : isNameStart c = true)
    (hw : w.all isNameChar = true) (hs : ∀ d rest, s = d :: rest → isNameChar d = false) :
    scan c (w ++ s) = .ok ⟨wordToken (String.ofList (c :: w)), c :: w, s⟩ := by
  have hall : (c :: w).all isNameChar = true := by
    rw [List.all_cons, isNameChar_of_isNameStart hc, hw]
    rfl
  rw [scan_of_isNameStart hc, scanWord, ← List.cons_append, takeWhile_append_of_stop hall hs,
    dropWhile_append_of_stop hall hs]

theorem wordToken_of_isReserved {word : String} (h : isReserved word = false) :
    wordToken word = .ident word := by
  simp only [isReserved, Bool.or_eq_false_iff, beq_eq_false_iff_ne] at h
  obtain ⟨⟨⟨htrue, hfalse⟩, hnil⟩, hkeyword⟩ := h
  unfold wordToken
  rw [if_neg htrue, if_neg hfalse, if_neg hnil,
    Option.isNone_iff_eq_none.1 (Option.isSome_eq_false_iff.1 hkeyword)]

/-! ## Chains of fields -/

/-- A name: the characters of an identifier. -/
def IsName (n : List Char) : Prop :=
  ∃ c rest, n = c :: rest ∧ isNameStart c = true ∧ rest.all isNameChar = true

theorem isName_of_isIdentifier {s : String} (h : isIdentifier s = true) : IsName s.toList := by
  unfold isIdentifier at h
  split at h
  · exact absurd h Bool.false_ne_true
  · rename_i c rest heq
    rw [Bool.and_eq_true] at h
    exact ⟨c, rest, heq, h.1, h.2⟩

/-- Behind a name stands the next name of the chain, which begins with a point, or the boundary. -/
theorem fieldChain_append {names : List (List Char)} {s : List Char}
    (hnames : ∀ n ∈ names, IsName n) (hs : Boundary s) :
    fieldChain (chainSpelling names ++ s) = (names, s) := by
  induction names with
  | nil =>
    show fieldChain s = ([], s)
    unfold fieldChain
    split
    · rename_i c rest
      exact absurd rfl (hs '.' (c :: rest) rfl).2
    · rfl
  | cons n names ih =>
    obtain ⟨c, rest, rfl, hc, hrest⟩ := hnames n List.mem_cons_self
    have hmore : fieldChain (chainSpelling names ++ s) = (names, s) :=
      ih fun m hm => hnames m (List.mem_cons_of_mem _ hm)
    -- This name ends where the next one or the boundary begins.
    have hstop : ∀ d more, chainSpelling names ++ s = d :: more → isNameChar d = false := by
      intro d more heq
      cases names with
      | nil => exact (hs d more heq).1
      | cons m names =>
        rw [chainSpelling, List.flatMap_cons, List.cons_append, List.cons_append] at heq
        rw [← (List.cons.inj heq).1]
        rfl
    have hspelling : chainSpelling ((c :: rest) :: names) ++ s
        = '.' :: c :: (rest ++ (chainSpelling names ++ s)) := by
      simp [chainSpelling]
    have hall : (c :: rest).all isNameChar = true := by
      rw [List.all_cons, isNameChar_of_isNameStart hc, hrest]
      rfl
    rw [hspelling, fieldChain, if_pos hc, dropWhile_append_of_stop hrest hstop, hmore,
      ← List.cons_append, takeWhile_append_of_stop hall hstop]

/-! ## Strings -/

theorem scanQuotedFrom_escape {content read rest : List Char} {e d : Char}
    (h : unescape? e = some d) :
    scanQuotedFrom content read ('\\' :: e :: rest)
      = scanQuotedFrom (d :: content) (e :: '\\' :: read) rest := by
  conv =>
    lhs
    unfold scanQuotedFrom
  simp only [h]

theorem scanQuotedFrom_close {content read rest : List Char} :
    scanQuotedFrom content read ('"' :: rest)
      = .ok ⟨.string (String.ofList content.reverse), ('"' :: read).reverse, rest⟩ := by
  rw [scanQuotedFrom, if_pos rfl]
  intro c rest heq
  exact absurd heq (by decide)

theorem scanQuotedFrom_plain {content read rest : List Char} {c : Char} (hslash : c ≠ '\\')
    (hquote : c ≠ '"') (hline : c ≠ '\n') :
    scanQuotedFrom content read (c :: rest)
      = scanQuotedFrom (c :: content) (c :: read) rest := by
  rw [scanQuotedFrom, if_neg hquote, if_neg hline]
  intro e rest heq
  exact absurd heq hslash

/-- A character is read back from how it is written between double quotes. -/
theorem scanQuotedFrom_escaped {content read rest : List Char} (c : Char) :
    scanQuotedFrom content read (Text.escaped c ++ rest)
      = scanQuotedFrom (c :: content) ((Text.escaped c).reverse ++ read) rest := by
  unfold Text.escaped
  by_cases hn : c = '\n'
  · rw [if_pos hn, hn]
    exact scanQuotedFrom_escape rfl
  by_cases ht : c = '\t'
  · rw [if_neg hn, if_pos ht, ht]
    exact scanQuotedFrom_escape rfl
  by_cases hr : c = '\r'
  · rw [if_neg hn, if_neg ht, if_pos hr, hr]
    exact scanQuotedFrom_escape rfl
  by_cases hq : c = '"'
  · rw [if_neg hn, if_neg ht, if_neg hr, if_pos hq, hq]
    exact scanQuotedFrom_escape rfl
  by_cases hs : c = '\\'
  · rw [if_neg hn, if_neg ht, if_neg hr, if_neg hq, if_pos hs, hs]
    exact scanQuotedFrom_escape rfl
  · rw [if_neg hn, if_neg ht, if_neg hr, if_neg hq, if_neg hs]
    exact scanQuotedFrom_plain hs hq hn

/-- A string is read back up to its closing quote. The induction is on what is left of the string;
the two accumulators hold what has been read, last character first. -/
theorem scanQuotedFrom_append {cs s : List Char} : ∀ content read : List Char,
    scanQuotedFrom content read (cs.flatMap Text.escaped ++ '"' :: s)
      = .ok ⟨.string (String.ofList (content.reverse ++ cs)),
          read.reverse ++ (cs.flatMap Text.escaped ++ ['"']), s⟩ := by
  induction cs with
  | nil =>
    intro content read
    rw [List.flatMap_nil, List.nil_append, scanQuotedFrom_close, List.append_nil,
      List.reverse_cons, List.nil_append]
  | cons c cs ih =>
    intro content read
    rw [List.flatMap_cons, List.append_assoc, scanQuotedFrom_escaped, ih, List.reverse_cons,
      List.reverse_append, List.reverse_reverse]
    simp only [List.append_assoc, List.cons_append, List.nil_append]

/-! ## Numbers -/

/-- Digits in front of a boundary are a whole number. -/
theorem scanNumber_append {sign ds s : List Char} {n : Int64} (hds : ds.all Char.isDigit = true)
    (hs : Boundary s) (hn : Decimal.int64? (Decimal.signed (!sign.isEmpty) ds) = some n) :
    scanNumber sign (ds ++ s) = .ok ⟨.int n, sign ++ ds, s⟩ := by
  have hstop : ∀ c rest, s = c :: rest → c.isDigit = false := by
    intro c rest heq
    rw [Bool.eq_false_iff]
    intro hc
    have hname : isNameChar c = true := isNameChar_iff.2 (Or.inr hc)
    rw [(hs c rest heq).1] at hname
    exact Bool.false_ne_true hname
  -- Without a point there are no decimal places, so the number is a whole one.
  have hplaces : decimalPlaces s = [] := by
    unfold decimalPlaces
    split
    · rename_i rest
      exact absurd rfl (hs '.' rest rfl).2
    · rfl
  unfold scanNumber
  rw [takeWhile_append_of_stop hds hstop, dropWhile_append_of_stop hds hstop]
  simp only [hplaces, List.isEmpty_nil, if_true, hn]

theorem digitsValue_toDigits (n : Nat) : Decimal.digitsValue (Nat.toDigits 10 n) = n :=
  Nat.ofDigitChars_ten_toDigits

theorem int64?_toInt (n : Int64) : Decimal.int64? n.toInt = some n := by
  have hlow : -9223372036854775808 ≤ n.toInt := Int64.le_toInt n
  have hhigh : n.toInt ≤ 9223372036854775807 := by
    have h := Int64.toInt_lt n
    omega
  unfold Decimal.int64?
  rw [if_pos ⟨hlow, hhigh⟩, Int64.ofInt_toInt]

/-- The sign and the digits of an integer give it back. -/
theorem int64?_signed (n : Int64) :
    Decimal.int64? (Decimal.signed (decide (n.toInt < 0)) (Nat.toDigits 10 n.toInt.natAbs))
      = some n := by
  have hvalue : Decimal.signed (decide (n.toInt < 0)) (Nat.toDigits 10 n.toInt.natAbs)
      = n.toInt := by
    unfold Decimal.signed
    rw [digitsValue_toDigits]
    split
    · rename_i h
      have hneg : n.toInt < 0 := of_decide_eq_true h
      omega
    · rename_i h
      have hnonneg : ¬ n.toInt < 0 := fun hneg => h (decide_eq_true hneg)
      omega
  rw [hvalue, int64?_toInt]

/-! ## Any token -/

/-- The start of a text that can be taken neither for a blank nor for a delimiter or a mark that
belongs to one. -/
structure Opens (c : Char) (rest : List Char) : Prop where
  notBlank : Text.isBlank c = false
  notBrace : c ≠ '\x7d'
  notSlash : c ≠ '/'
  signed : c = '-' → ∃ d more, rest = d :: more ∧ d.isDigit = true

theorem opens_of_isNameChar {c : Char} {rest : List Char} (h : isNameChar c = true) :
    Opens c rest := by
  have hne : ∀ d, isNameChar d = false → c ≠ d := fun _ => ne_of_test h
  exact ⟨Text.isBlank_of_isNameChar h, hne _ rfl, hne _ rfl, fun hc => absurd hc (hne _ rfl)⟩

/-- The marks with which tokens begin, apart from the minus sign. -/
theorem opens_of_mark {c : Char} {rest : List Char} (h : c ∈ ['.', '$', '"', '|', '(', ')']) :
    Opens c rest := by
  have hmarks : ['.', '$', '"', '|', '(', ')'].all (fun d =>
      !Text.isBlank d && d != '\x7d' && d != '/' && d != '-') = true := by rfl
  have hc := List.all_eq_true.1 hmarks c h
  simp only [Bool.and_eq_true, Bool.not_eq_true', bne_iff_ne] at hc
  obtain ⟨⟨⟨hblank, hbrace⟩, hslash⟩, hminus⟩ := hc
  exact ⟨hblank, hbrace, hslash, fun heq => absurd heq hminus⟩

/-- A spelling in front of a text is scanned as the token, and can be taken for nothing else. -/
def Scans (t : Token) (s : List Char) : Prop :=
  ∃ c rest, t.spelling = c :: rest ∧ Opens c (rest ++ s)
    ∧ scan c (rest ++ s) = .ok ⟨t, t.spelling, s⟩

end Lexeme

/-- Whether a token can be scanned back from its spelling. -/
def Token.IsSpelled : Token → Prop
  | .text _ => False
  | .actionStart => False
  | .actionEnd => False
  | .keyword _ => True
  | .ident name => isIdentifier name = true ∧ isReserved name = false
  | .field path => path ≠ [] ∧ path.all isIdentifier = true
  | .dot => True
  | .variable path => path.all isIdentifier = true
  | .string _ => True
  | .int _ => True
  | .float _ => False
  | .bool _ => True
  | .nil => True
  | .pipe => True
  | .leftParen => True
  | .rightParen => True

/-- Whether anything may stand behind a token. -/
def Token.isInner : Token → Bool
  | .pipe => true
  | .leftParen => true
  | _ => false

namespace Lexeme

theorem scans_word {t : Token} {w : String} {s : List Char} (hspelling : t.spelling = w.toList)
    (hw : isIdentifier w = true) (ht : wordToken w = t)
    (hs : ∀ c rest, s = c :: rest → isNameChar c = false) : Scans t s := by
  obtain ⟨c, rest, hchars, hc, hrest⟩ := isName_of_isIdentifier hw
  refine ⟨c, rest, hspelling.trans hchars, opens_of_isNameChar (isNameChar_of_isNameStart hc), ?_⟩
  rw [scan_word hc hrest hs, ← hchars, String.ofList_toList, ht, hspelling]

theorem scans_keyword {k : Keyword} {s : List Char}
    (hs : ∀ c rest, s = c :: rest → isNameChar c = false) : Scans (.keyword k) s := by
  refine scans_word rfl ?_ ?_ hs
  · cases k <;> rfl
  · cases k <;> rfl

theorem map_ofList_map_toList (path : List String) :
    (path.map String.toList).map String.ofList = path := by
  rw [List.map_map]
  exact List.map_id'' (fun _ => String.ofList_toList) path

theorem isName_of_path {path : List String} (h : path.all isIdentifier = true) :
    ∀ n ∈ path.map String.toList, IsName n := by
  intro n hn
  obtain ⟨name, hname, rfl⟩ := List.mem_map.1 hn
  exact isName_of_isIdentifier (List.all_eq_true.1 h name hname)

theorem scans_field {path : List String} {s : List Char} (hne : path ≠ [])
    (hpath : path.all isIdentifier = true) (hs : Boundary s) : Scans (.field path) s := by
  have hnames := isName_of_path hpath
  cases path with
  | nil => exact absurd rfl hne
  | cons name path =>
    obtain ⟨c, rest, hchars, hc, _⟩ := hnames name.toList List.mem_cons_self
    have hspelling : chainSpelling ((name :: path).map String.toList)
        = '.' :: c :: (rest ++ chainSpelling (path.map String.toList)) := by
      simp [chainSpelling, hchars]
    refine ⟨'.', _, hspelling, opens_of_mark (by decide), ?_⟩
    have hstart : startsWith isNameStart
        (c :: (rest ++ chainSpelling (path.map String.toList)) ++ s) = true := hc
    have hchain := fieldChain_append hnames hs
    rw [hspelling, List.cons_append] at hchain
    unfold scan
    rw [if_neg (by decide), if_neg (by decide), if_neg (by decide), if_neg (by decide),
      if_neg (by decide), if_pos rfl, if_pos hstart, hchain]
    simp only [map_ofList_map_toList]
    rfl

theorem scans_variable {path : List String} {s : List Char}
    (hpath : path.all isIdentifier = true) (hs : Boundary s) : Scans (.variable path) s := by
  refine ⟨'$', _, rfl, opens_of_mark (by decide), ?_⟩
  unfold scan
  rw [if_neg (by decide), if_neg (by decide), if_neg (by decide), if_neg (by decide),
    if_neg (by decide), if_neg (by decide), if_pos rfl,
    fieldChain_append (isName_of_path hpath) hs]
  simp only [map_ofList_map_toList]
  rfl

theorem scans_dot {s : List Char} (hs : Boundary s) : Scans .dot s := by
  have hstart : ¬ startsWith isNameStart s = true := by
    cases s with
    | nil => exact Bool.false_ne_true
    | cons c rest =>
      intro hc
      have hname := isNameChar_of_isNameStart hc
      rw [(hs c rest rfl).1] at hname
      exact Bool.false_ne_true hname
  refine ⟨'.', [], rfl, opens_of_mark (by decide), ?_⟩
  rw [List.nil_append]
  unfold scan
  rw [if_neg (by decide), if_neg (by decide), if_neg (by decide), if_neg (by decide),
    if_neg (by decide), if_pos rfl, if_neg hstart]
  rfl

theorem scans_string {t : String} {s : List Char} : Scans (.string t) s := by
  refine ⟨'"', t.toList.flatMap Text.escaped ++ ['"'], rfl, opens_of_mark (by decide), ?_⟩
  unfold scan
  rw [if_neg (by decide), if_neg (by decide), if_neg (by decide), if_pos rfl, List.append_assoc,
    List.cons_append, List.nil_append, scanQuotedFrom_append, List.reverse_nil, List.nil_append,
    String.ofList_toList]
  rfl

theorem scan_of_isDigit {c : Char} {rest : List Char} (h : c.isDigit = true) :
    scan c rest = scanNumber [] (c :: rest) := by
  have hne : ∀ d, d.isDigit = false → c ≠ d := fun _ => ne_of_test h
  unfold scan
  rw [if_neg (hne _ rfl), if_neg (hne _ rfl), if_neg (hne _ rfl), if_neg (hne _ rfl),
    if_neg (hne _ rfl), if_neg (hne _ rfl), if_neg (hne _ rfl), if_pos h]

theorem scans_int {n : Int64} {s : List Char} (hs : Boundary s) : Scans (.int n) s := by
  have hsigned := int64?_signed n
  obtain ⟨d, ds, hdigits⟩ := List.exists_cons_of_ne_nil
    (Nat.toDigits_ne_nil : Nat.toDigits 10 n.toInt.natAbs ≠ [])
  have hall : (d :: ds).all Char.isDigit = true := by
    rw [← hdigits, List.all_eq_true]
    exact fun c hc => Nat.isDigit_of_mem_toDigits (by omega) (by omega) hc
  have hd : d.isDigit = true := List.all_eq_true.1 hall d List.mem_cons_self
  rw [hdigits] at hsigned
  by_cases hneg : n.toInt < 0
  · have hspelling : (Token.int n).spelling = '-' :: d :: ds := by
      rw [Token.spelling, Decimal.integerChars, if_pos hneg, hdigits]
    rw [decide_eq_true hneg] at hsigned
    refine ⟨'-', d :: ds, hspelling,
      ⟨by decide, by decide, by decide, fun _ => ⟨d, ds ++ s, rfl, hd⟩⟩, ?_⟩
    -- With a digit behind it, the minus sign is that of a number.
    have hstart : '-' = '-' ∧ startsWith Char.isDigit (d :: ds ++ s) = true := ⟨rfl, hd⟩
    have hnumber : scanNumber ['-'] (d :: ds ++ s) = .ok ⟨.int n, ['-'] ++ d :: ds, s⟩ :=
      scanNumber_append hall hs hsigned
    unfold scan
    rw [if_neg (by decide), if_neg (by decide), if_neg (by decide), if_neg (by decide),
      if_neg (by decide), if_neg (by decide), if_neg (by decide), if_neg (by decide),
      if_pos hstart, hnumber, hspelling]
    rfl
  · have hspelling : (Token.int n).spelling = d :: ds := by
      rw [Token.spelling, Decimal.integerChars, if_neg hneg, hdigits]
    rw [decide_eq_false hneg] at hsigned
    refine ⟨d, ds, hspelling, opens_of_isNameChar (isNameChar_iff.2 (Or.inr hd)), ?_⟩
    have hnumber : scanNumber [] (d :: ds ++ s) = .ok ⟨.int n, [] ++ d :: ds, s⟩ :=
      scanNumber_append hall hs hsigned
    rw [scan_of_isDigit hd, ← List.cons_append, hnumber, hspelling]
    rfl

/-- **A token is scanned back from its spelling**, if a boundary or an inner side is behind it. -/
theorem scans_of_isSpelled {t : Token} {s : List Char} (ht : t.IsSpelled)
    (hs : t.isInner = false → Boundary s) : Scans t s := by
  have hmark : ∀ {u : Token} {c : Char}, u.spelling = [c] → Opens c s →
      scan c s = .ok ⟨u, [c], s⟩ → Scans u s := by
    intro u c hspelling hopens hscan
    refine ⟨c, [], hspelling, hopens, ?_⟩
    rw [List.nil_append, hscan, hspelling]
  cases t with
  | text _ => exact absurd ht id
  | actionStart => exact absurd ht id
  | actionEnd => exact absurd ht id
  | float _ => exact absurd ht id
  | keyword k => exact scans_keyword (hs rfl).stops
  | ident name => exact scans_word rfl ht.1 (wordToken_of_isReserved ht.2) (hs rfl).stops
  | field path => exact scans_field ht.1 ht.2 (hs rfl)
  | dot => exact scans_dot (hs rfl)
  | «variable» path => exact scans_variable ht (hs rfl)
  | string t => exact scans_string
  | int n => exact scans_int (hs rfl)
  | bool b =>
    cases b with
    | true => exact scans_word (w := "true") rfl rfl rfl (hs rfl).stops
    | false => exact scans_word (w := "false") rfl rfl rfl (hs rfl).stops
  | nil => exact scans_word (w := "nil") rfl rfl rfl (hs rfl).stops
  | pipe => exact hmark rfl (opens_of_mark (by decide)) rfl
  | leftParen => exact hmark rfl (opens_of_mark (by decide)) rfl
  | rightParen => exact hmark rfl (opens_of_mark (by decide)) rfl

end Lexeme

end Stencil
