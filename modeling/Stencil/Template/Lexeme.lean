/-
One token at a time inside an action.

A lexeme is a token together with its spelling and the text behind it. Scanning one looks at the
start of a text only, and the spelling is kept because it is what ties the token to the source: the
text is the spelling followed by the rest, so positions are found by moving over spellings and
nothing of the source can be lost between tokens.
-/
import Stencil.Template.Token
import Stencil.Decimal.Integer
import Stencil.Text.Blank

set_option autoImplicit false

namespace Stencil

/-! ## Failures -/

/-- Why a source has no tokens. -/
inductive LexCause where
  | unclosedComment
  | textAfterComment
  | unclosedAction
  | unterminatedString
  | unterminatedRawString
  | unknownEscape (c : Char)
  | badNumber (spelling : String)
  | unexpectedChar (c : Char)
  deriving DecidableEq, Repr

/-- The message of a failure. -/
def LexCause.message : LexCause → String
  | .unclosedComment => "unclosed comment"
  | .textAfterComment => "comment ends before closing delimiter"
  | .unclosedAction => "unclosed action"
  | .unterminatedString => "unterminated quoted string"
  | .unterminatedRawString => "unterminated raw quoted string"
  | .unknownEscape c => "unknown escape sequence \\" ++ String.singleton c
  | .badNumber spelling => "bad number syntax: " ++ Text.quote spelling
  | .unexpectedChar c => "unexpected " ++ Text.quoteChar c ++ " in action"

/-- A failure to scan a lexeme: the cause, and the text read before the place that it names. -/
structure Misread where
  cause : LexCause
  before : List Char
  deriving DecidableEq, Repr

/-- A token at the start of a text, as it is spelled there, and the text behind it. -/
structure Lexeme where
  token : Token
  spelling : List Char
  rest : List Char

namespace Lexeme

/-! ## Names and words -/

/-- The characters that begin a name: ASCII letters and the underscore. -/
def isNameStart (c : Char) : Bool := c.isAlpha || c == '_'

/-- The characters of a name: ASCII letters, digits and the underscore. -/
def isNameChar (c : Char) : Bool := c.isAlphanum || c == '_'

/-- The token of a name-like word: a constant, a keyword, or the name of a function. -/
def wordToken (word : String) : Token :=
  if word = "true" then .bool true
  else if word = "false" then .bool false
  else if word = "nil" then .nil
  else
    match Keyword.ofSpelling? word with
    | some k => .keyword k
    | none => .ident word

/-- A word at the start of a text. -/
def scanWord (s : List Char) : Lexeme :=
  let word := s.takeWhile isNameChar
  ⟨wordToken (String.ofList word), word, s.dropWhile isNameChar⟩

/-! ## Chains of fields -/

/-- The names of the longest chain `.a.b.c` at the start of a text, and the text behind it. A point
without a name behind it does not belong to the chain. -/
def fieldChain : List Char → List (List Char) × List Char
  | '.' :: c :: rest =>
    if isNameStart c then
      let name := (c :: rest).takeWhile isNameChar
      let (names, more) := fieldChain (rest.dropWhile isNameChar)
      (name :: names, more)
    else
      ([], '.' :: c :: rest)
  | s => ([], s)
termination_by s => s.length
decreasing_by
  have h := (List.dropWhile_sublist isNameChar (l := rest)).length_le
  simp only [List.length_cons]
  omega

/-- The spelling of a chain of fields. -/
def chainSpelling (names : List (List Char)) : List Char := names.flatMap fun n => '.' :: n

/-! ## Strings -/

/-- The character that an escape stands for. -/
def unescape? (c : Char) : Option Char :=
  if c = 'n' then some '\n'
  else if c = 't' then some '\t'
  else if c = 'r' then some '\r'
  else if c = '"' then some '"'
  else if c = '\\' then some '\\'
  else none

/-- The rest of a string in double quotes, of which `content` and `read`, both last character first,
are the meaning and the spelling so far. A string ends on the line where it begins. -/
def scanQuotedFrom (content read : List Char) : List Char → Except Misread Lexeme
  | [] => .error ⟨.unterminatedString, []⟩
  | '\\' :: c :: rest =>
    match unescape? c with
    | some d => scanQuotedFrom (d :: content) (c :: '\\' :: read) rest
    | none => .error ⟨.unknownEscape c, (c :: '\\' :: read).reverse⟩
  | c :: rest =>
    if c = '"' then
      .ok ⟨.string (String.ofList content.reverse), (c :: read).reverse, rest⟩
    else if c = '\n' then .error ⟨.unterminatedString, []⟩
    else scanQuotedFrom (c :: content) (c :: read) rest

/-- The mark around raw strings. -/
def rawMark : Char := '\x60'

/-- A raw string, given the text behind its opening mark: everything up to the next mark. -/
def scanRaw (s : List Char) : Except Misread Lexeme :=
  let content := s.takeWhile (· != rawMark)
  match s.dropWhile (· != rawMark) with
  | [] => .error ⟨.unterminatedRawString, []⟩
  | mark :: rest => .ok ⟨.string (String.ofList content), rawMark :: content ++ [mark], rest⟩

/-! ## Numbers -/

/-- The digits behind a point at the start of a text; none if no digit follows the point. -/
def decimalPlaces : List Char → List Char
  | '.' :: rest => rest.takeWhile Char.isDigit
  | _ => []

/-- A number whose sign is written as `sign`, given the text behind that. A point belongs to it only
with a digit on either side. -/
def scanNumber (sign s : List Char) : Except Misread Lexeme :=
  let whole := s.takeWhile Char.isDigit
  let afterWhole := s.dropWhile Char.isDigit
  let places := decimalPlaces afterWhole
  let negative := !sign.isEmpty
  -- A point without a digit behind it begins the next lexeme.
  if places.isEmpty then
    match Decimal.int64? (Decimal.signed negative whole) with
    | some n => .ok ⟨.int n, sign ++ whole, afterWhole⟩
    | none => .error ⟨.badNumber (String.ofList (sign ++ whole)), []⟩
  else
    let value :=
      Decimal.toFloat negative (Decimal.digitsValue (whole ++ places)) (-(places.length : Int))
    .ok ⟨.float value, sign ++ whole ++ '.' :: places, afterWhole.drop (places.length + 1)⟩

/-! ## Any lexeme -/

/-- Whether the first character of a text, if there is one, passes a test. -/
def startsWith (test : Char → Bool) : List Char → Bool
  | [] => false
  | c :: _ => test c

/-- The lexeme at the start of the text `c :: rest`, which begins neither with a blank nor with the
end of an action. -/
def scan (c : Char) (rest : List Char) : Except Misread Lexeme :=
  if c = '|' then .ok ⟨.pipe, [c], rest⟩
  else if c = '(' then .ok ⟨.leftParen, [c], rest⟩
  else if c = ')' then .ok ⟨.rightParen, [c], rest⟩
  else if c = '"' then scanQuotedFrom [] [c] rest
  else if c = rawMark then scanRaw rest
  else if c = '.' then
    if startsWith isNameStart rest then
      let (names, more) := fieldChain (c :: rest)
      .ok ⟨.field (names.map String.ofList), chainSpelling names, more⟩
    else .ok ⟨.dot, [c], rest⟩
  else if c = '$' then
    let (names, more) := fieldChain rest
    .ok ⟨.variable (names.map String.ofList), c :: chainSpelling names, more⟩
  else if c.isDigit then scanNumber [] (c :: rest)
  else if c = '-' ∧ startsWith Char.isDigit rest then scanNumber [c] rest
  else if isNameStart c then .ok (scanWord (c :: rest))
  else .error ⟨.unexpectedChar c, []⟩

/-! ## A lexeme is the start of the text it was scanned from -/

theorem chainSpelling_append_rest (s : List Char) :
    chainSpelling (fieldChain s).1 ++ (fieldChain s).2 = s := by
  fun_induction fieldChain s with
  | case1 c rest hc name names more hchain ih =>
    have hname : name = c :: rest.takeWhile isNameChar := by
      have hcc : isNameChar c = true := by
        simp only [isNameStart, Bool.or_eq_true] at hc
        rcases hc with hc | hc
        · simp [isNameChar, Char.isAlphanum, hc]
        · simp [isNameChar, hc]
      simp [name, hcc]
    have hrest : chainSpelling names ++ more = rest.dropWhile isNameChar := by
      rw [hchain] at ih
      exact ih
    simp only [chainSpelling, List.flatMap_cons, hname]
    simp only [chainSpelling] at hrest
    simp [List.append_assoc, hrest, List.takeWhile_append_dropWhile]
  | case2 => rfl
  | case3 => rfl

theorem spelling_append_rest_of_scanQuotedFrom {content read s : List Char} {l : Lexeme}
    (h : scanQuotedFrom content read s = .ok l) : l.spelling ++ l.rest = read.reverse ++ s := by
  fun_induction scanQuotedFrom content read s with
  | case1 => exact absurd h (by simp)
  | case2 content read c rest d hd ih =>
    rw [ih h]
    simp
  | case3 => exact absurd h (by simp)
  | case4 content read rest =>
    rw [← Except.ok.inj h]
    simp
  | case5 => exact absurd h (by simp)
  | case6 content read c rest hc hq hn ih =>
    rw [ih h]
    simp

theorem spelling_append_rest_of_scanRaw {s : List Char} {l : Lexeme} (h : scanRaw s = .ok l) :
    l.spelling ++ l.rest = rawMark :: s := by
  unfold scanRaw at h
  split at h
  · exact absurd h (by simp)
  · rename_i mark rest hdrop
    rw [← Except.ok.inj h]
    have hsplit : s.takeWhile (· != rawMark) ++ mark :: rest = s := by
      rw [← hdrop]
      exact List.takeWhile_append_dropWhile
    simp only [List.cons_append, List.append_assoc, List.nil_append]
    rw [hsplit]

theorem decimalPlaces_append {s : List Char} (h : decimalPlaces s ≠ []) :
    '.' :: decimalPlaces s ++ s.drop ((decimalPlaces s).length + 1) = s := by
  match s, h with
  | [], h => exact absurd rfl h
  | c :: rest, h =>
    by_cases hc : c = '.'
    · subst hc
      have hdrop : rest.drop (rest.takeWhile Char.isDigit).length = rest.dropWhile Char.isDigit := by
        conv =>
          lhs
          arg 2
          rw [← List.takeWhile_append_dropWhile (p := Char.isDigit) (l := rest)]
        exact List.drop_left
      simp only [decimalPlaces, List.drop_succ_cons, hdrop, List.cons_append,
        List.takeWhile_append_dropWhile]
    · exact absurd (by unfold decimalPlaces; split <;> simp_all) h

theorem spelling_append_rest_of_scanNumber {sign s : List Char} {l : Lexeme}
    (h : scanNumber sign s = .ok l) : l.spelling ++ l.rest = sign ++ s := by
  simp only [scanNumber] at h
  split at h
  · split at h
    · rw [← Except.ok.inj h]
      simp [List.append_assoc, List.takeWhile_append_dropWhile]
    · exact absurd h (by simp)
  · rename_i hplaces
    have hne : decimalPlaces (s.dropWhile Char.isDigit) ≠ [] := by
      intro hnil
      exact hplaces (by rw [hnil]; rfl)
    have hpoint := decimalPlaces_append hne
    rw [← Except.ok.inj h]
    simp only [List.append_assoc]
    rw [hpoint, List.takeWhile_append_dropWhile]

/-- A text is the spelling of its first lexeme followed by the rest. -/
theorem spelling_append_rest_of_scan {c : Char} {rest : List Char} {l : Lexeme}
    (h : scan c rest = .ok l) : l.spelling ++ l.rest = c :: rest := by
  unfold scan at h
  split at h
  · rw [← Except.ok.inj h]; rfl
  split at h
  · rw [← Except.ok.inj h]; rfl
  split at h
  · rw [← Except.ok.inj h]; rfl
  split at h
  · simpa using spelling_append_rest_of_scanQuotedFrom h
  split at h
  · rename_i hraw
    rw [hraw]
    exact spelling_append_rest_of_scanRaw h
  split at h
  · split at h
    · rw [← Except.ok.inj h]
      exact chainSpelling_append_rest (c :: rest)
    · rw [← Except.ok.inj h]; rfl
  split at h
  · rw [← Except.ok.inj h]
    simp only [List.cons_append]
    rw [chainSpelling_append_rest rest]
  split at h
  · simpa using spelling_append_rest_of_scanNumber h
  split at h
  · simpa using spelling_append_rest_of_scanNumber h
  split at h
  · rw [← Except.ok.inj h]
    exact List.takeWhile_append_dropWhile
  · exact absurd h (by simp)

/-! ## A lexeme is never empty -/

theorem spelling_ne_nil_of_scanQuotedFrom {content read s : List Char} {l : Lexeme}
    (h : scanQuotedFrom content read s = .ok l) : l.spelling ≠ [] := by
  fun_induction scanQuotedFrom content read s with
  | case1 => exact absurd h (by simp)
  | case2 content read c rest d hd ih => exact ih h
  | case3 => exact absurd h (by simp)
  | case4 content read rest =>
    rw [← Except.ok.inj h]
    simp
  | case5 => exact absurd h (by simp)
  | case6 content read c rest hc hq hn ih => exact ih h

theorem spelling_ne_nil_of_scanNumber {sign s : List Char} {l : Lexeme}
    (hs : sign ≠ [] ∨ s.takeWhile Char.isDigit ≠ []) (h : scanNumber sign s = .ok l) :
    l.spelling ≠ [] := by
  have hne : sign ++ s.takeWhile Char.isDigit ≠ [] := by
    rcases hs with hs | hs
    · simp [hs]
    · simp [hs]
  simp only [scanNumber] at h
  split at h
  · split at h
    · rw [← Except.ok.inj h]
      exact hne
    · exact absurd h (by simp)
  · rw [← Except.ok.inj h]
    simp

/-- Scanning reads at least one character. -/
theorem spelling_ne_nil_of_scan {c : Char} {rest : List Char} {l : Lexeme}
    (h : scan c rest = .ok l) : l.spelling ≠ [] := by
  unfold scan at h
  split at h
  · rw [← Except.ok.inj h]; simp
  split at h
  · rw [← Except.ok.inj h]; simp
  split at h
  · rw [← Except.ok.inj h]; simp
  split at h
  · exact spelling_ne_nil_of_scanQuotedFrom h
  split at h
  · unfold scanRaw at h
    split at h
    · exact absurd h (by simp)
    · rw [← Except.ok.inj h]
      simp
  split at h
  · split at h
    · rename_i hpoint hname
      rw [← Except.ok.inj h]
      match rest, hname with
      | d :: more, hname =>
        have hd : isNameStart d = true := hname
        rw [hpoint, fieldChain]
        simp [hd, chainSpelling]
    · rw [← Except.ok.inj h]; simp
  split at h
  · rw [← Except.ok.inj h]; simp
  split at h
  · rename_i hdigit
    exact spelling_ne_nil_of_scanNumber (Or.inr (by simp [hdigit])) h
  split at h
  · exact spelling_ne_nil_of_scanNumber (Or.inl (by simp)) h
  split at h
  · rename_i hstart
    have hchar : isNameChar c = true := by
      simp only [isNameStart, Bool.or_eq_true] at hstart
      rcases hstart with hc | hc
      · simp [isNameChar, Char.isAlphanum, hc]
      · simp [isNameChar, hc]
    rw [← Except.ok.inj h]
    simp [scanWord, hchar]
  · exact absurd h (by simp)

/-- Scanning leaves less text than it was given. -/
theorem length_rest_lt_of_scan {c : Char} {rest : List Char} {l : Lexeme}
    (h : scan c rest = .ok l) : l.rest.length < (c :: rest).length := by
  have hlength := congrArg List.length (spelling_append_rest_of_scan h)
  have hpos := List.length_pos_iff.2 (spelling_ne_nil_of_scan h)
  rw [List.length_append] at hlength
  omega

end Lexeme

end Stencil
