/-
A template source as texts and actions in turn.

A source is `t₀ A₁ t₁ … Aₙ tₙ`: texts that may be empty, and between them actions, a comment being
an action without tokens. The split comes first and the trimming of blanks is left to a later step,
so what an action holds never depends on the texts around it, and which blanks a trim marker removes
can be read off the two neighbours of a text.
-/
import Stencil.Template.Lexeme

set_option autoImplicit false

namespace Stencil

/-- A failure to split a source, and the place that the message names. -/
structure LexError where
  cause : LexCause
  pos : Position
  deriving DecidableEq, Repr

/-- A text between actions, as it stands in the source. -/
structure RawText where
  pos : Position
  chars : List Char

/-- An action or a comment. The tokens of an action include its delimiters; a comment has none. -/
structure Action where
  trimsBefore : Bool
  tokens : List PlacedToken
  trimsAfter : Bool

/-- The texts and actions of a source in turn. -/
structure Segments where
  first : RawText
  others : List (Action × RawText)

namespace Segments

/-! ## Delimiters -/

/-- The text up to the next opening delimiter, and the rest from there on. -/
def takeText : List Char → List Char × List Char
  | [] => ([], [])
  | '\x7b' :: '\x7b' :: rest => ([], '\x7b' :: '\x7b' :: rest)
  | c :: rest =>
    let (text, more) := takeText rest
    (c :: text, more)

/-- The trim marker at the start of an action, and what follows it: a minus sign with a blank behind
it. The blank is not part of the marker. -/
def openingMarker : List Char → List Char × List Char
  | '-' :: c :: rest => if Text.isBlank c then (['-'], c :: rest) else ([], '-' :: c :: rest)
  | s => ([], s)

/-- The closing delimiter at the start of a text, with its trim marker if it has one, and what
follows it. -/
def closing? : List Char → Option (List Char × List Char)
  | '\x7d' :: '\x7d' :: rest => some (['\x7d', '\x7d'], rest)
  | '-' :: '\x7d' :: '\x7d' :: rest => some (['-', '\x7d', '\x7d'], rest)
  | _ => none

/-- Whether a closing delimiter trims the text behind it. -/
def closingTrims (delimiter : List Char) : Bool := delimiter.length == 3

/-- The comment body with its end mark at the start of a text, and what follows it. -/
def takeComment : List Char → Option (List Char × List Char)
  | [] => none
  | '*' :: '/' :: rest => some (['*', '/'], rest)
  | c :: rest => (takeComment rest).map fun (body, more) => (c :: body, more)

/-! ## Actions -/

/-- What has been read of an action: its tokens, whether it trims the text behind it, and where and
with what the source goes on. -/
structure Finished where
  tokens : List PlacedToken
  trimsAfter : Bool
  pos : Position
  rest : List Char

/-- The tokens up to and with the end of the action that began at `start`, given the text at `pos`
inside it. -/
def actionTokens (start pos : Position) (s : List Char) : Except LexError Finished :=
  let inner := s.dropWhile Text.isBlank
  let pos := pos.past (s.takeWhile Text.isBlank)
  match closing? inner with
  | some (delimiter, rest) =>
    .ok ⟨[⟨.actionEnd, pos⟩], closingTrims delimiter, pos.past delimiter, rest⟩
  | none =>
    match _hinner : inner with
    -- An action that is never closed is reported where it began.
    | [] => .error ⟨.unclosedAction, start⟩
    | c :: more =>
      match _hscan : Lexeme.scan c more with
      | .error m => .error ⟨m.cause, pos.past m.before⟩
      | .ok l => do
        let finished ← actionTokens start (pos.past l.spelling) l.rest
        .ok { finished with tokens := ⟨l.token, pos⟩ :: finished.tokens }
termination_by s.length
decreasing_by
  have hscanned := Lexeme.length_rest_lt_of_scan _hscan
  have hblanks := (List.dropWhile_sublist Text.isBlank (l := s)).length_le
  simp only [inner] at _hinner
  rw [_hinner] at hblanks
  omega

/-- The comment at `pos`, given the text from its start mark on; `start` is where the action
began. -/
def comment (start pos : Position) (s : List Char) : Except LexError Finished :=
  match takeComment s with
  | none => .error ⟨.unclosedComment, start⟩
  | some (body, rest) =>
    let pos := (pos.past body).past (rest.takeWhile Text.isBlank)
    match closing? (rest.dropWhile Text.isBlank) with
    | some (delimiter, more) => .ok ⟨[], closingTrims delimiter, pos.past delimiter, more⟩
    | none => .error ⟨.textAfterComment, pos⟩

/-- Whether a text begins with the start mark of a comment. -/
def startsComment : List Char → Bool
  | '/' :: '*' :: _ => true
  | _ => false

/-- The action at `start`, given the text behind its opening delimiter, and whether it trims the text
before it. -/
def action (start : Position) (s : List Char) : Except LexError (Bool × Finished) := do
  let (marker, body) := openingMarker s
  let pos := (start.past ['\x7b', '\x7b']).past marker
  let inner := body.dropWhile Text.isBlank
  let finished ←
    if startsComment inner then
      comment start (pos.past (body.takeWhile Text.isBlank)) inner
    else do
      let finished ← actionTokens start pos body
      .ok { finished with tokens := ⟨.actionStart, start⟩ :: finished.tokens }
  .ok (!marker.isEmpty, finished)

/-! ## Less is left behind an action -/

theorem length_openingMarker (s : List Char) : (openingMarker s).2.length ≤ s.length := by
  unfold openingMarker
  split
  · split <;> simp
  · exact Nat.le_refl _

theorem length_of_closing {s delimiter rest : List Char}
    (h : closing? s = some (delimiter, rest)) : rest.length ≤ s.length := by
  unfold closing? at h
  split at h
  · simp only [Option.some.injEq, Prod.mk.injEq] at h
    simp only [← h.2, List.length_cons]
    omega
  · simp only [Option.some.injEq, Prod.mk.injEq] at h
    simp only [← h.2, List.length_cons]
    omega
  · exact absurd h (by simp)

theorem length_of_actionTokens {start pos : Position} {s : List Char} {f : Finished}
    (h : actionTokens start pos s = .ok f) : f.rest.length ≤ s.length := by
  fun_induction actionTokens start pos s generalizing f with
  | case1 pos s inner newPos delimiter rest =>
    rename_i hclose
    have hblanks := (List.dropWhile_sublist Text.isBlank (l := s)).length_le
    have hrest := length_of_closing hclose
    rw [← Except.ok.inj h]
    simp only [inner] at hrest
    exact Nat.le_trans hrest hblanks
  | case2 => exact absurd h (by simp)
  | case3 => exact absurd h (by simp)
  | case4 pos s inner newPos hclose c more hinner l hscan =>
    rename_i ih
    have hblanks := (List.dropWhile_sublist Text.isBlank (l := s)).length_le
    have hscanned := Lexeme.length_rest_lt_of_scan hscan
    cases hf : actionTokens start (newPos.past l.spelling) l.rest with
    | error e => simp [hf, bind, Except.bind] at h
    | ok finished =>
      simp only [hf, bind, Except.bind, Except.ok.injEq] at h
      have hrest := ih hf
      simp only [inner] at hinner
      rw [hinner] at hblanks
      rw [← h]
      exact Nat.le_trans hrest (Nat.le_of_lt (Nat.lt_of_lt_of_le hscanned hblanks))

theorem length_takeComment {s body rest : List Char} (h : takeComment s = some (body, rest)) :
    rest.length ≤ s.length := by
  fun_induction takeComment s generalizing body with
  | case1 => exact absurd h (by simp)
  | case2 rest' =>
    simp only [Option.some.injEq, Prod.mk.injEq] at h
    simp only [← h.2, List.length_cons]
    omega
  | case3 c rest' _ ih =>
    obtain ⟨found, hfound, heq⟩ := Option.map_eq_some_iff.1 h
    simp only [Prod.mk.injEq] at heq
    have hmore : takeComment rest' = some (found.1, rest) := by rw [hfound, ← heq.2]
    have hlen := ih hmore
    simp only [List.length_cons]
    omega

theorem length_of_comment {start pos : Position} {s : List Char} {f : Finished}
    (h : comment start pos s = .ok f) : f.rest.length ≤ s.length := by
  unfold comment at h
  split at h
  · exact absurd h (by simp)
  · rename_i body rest hbody
    split at h
    · rename_i delimiter more hclose
      have hblanks := (List.dropWhile_sublist Text.isBlank (l := rest)).length_le
      have hmore := length_of_closing hclose
      have hrest := length_takeComment hbody
      rw [← Except.ok.inj h]
      simp only
      omega
    · exact absurd h (by simp)

/-- What follows an action is no longer than what follows its opening delimiter. -/
theorem length_of_action {start : Position} {s : List Char} {b : Bool} {f : Finished}
    (h : action start s = .ok (b, f)) : f.rest.length ≤ s.length := by
  have hmarker := length_openingMarker s
  have hblanks := (List.dropWhile_sublist Text.isBlank (l := (openingMarker s).2)).length_le
  simp only [action] at h
  split at h
  · rename_i hcomment
    cases hf : comment start (((start.past ['\x7b', '\x7b']).past (openingMarker s).1).past
        ((openingMarker s).2.takeWhile Text.isBlank))
        ((openingMarker s).2.dropWhile Text.isBlank) with
    | error e => simp [hf, bind, Except.bind] at h
    | ok finished =>
      simp only [hf, bind, Except.bind, Except.ok.injEq, Prod.mk.injEq] at h
      have hlen := length_of_comment hf
      rw [← h.2]
      omega
  · cases hf : actionTokens start ((start.past ['\x7b', '\x7b']).past (openingMarker s).1)
        (openingMarker s).2 with
    | error e => simp [hf, bind, Except.bind] at h
    | ok finished =>
      simp only [hf, bind, Except.bind, Except.ok.injEq, Prod.mk.injEq] at h
      have hlen := length_of_actionTokens hf
      rw [← h.2]
      simp only
      omega

theorem length_takeText (s : List Char) : (takeText s).2.length ≤ s.length := by
  fun_induction takeText s with
  | case1 => exact Nat.le_refl _
  | case2 => exact Nat.le_refl _
  | case3 c rest _ text more heq ih =>
    rw [heq] at ih
    exact Nat.le_succ_of_le ih

/-! ## The whole source -/

/-- The texts and actions of the source `s` at `pos`. -/
def segmentsFrom (pos : Position) (s : List Char) : Except LexError Segments :=
  match _hrest : (takeText s).2 with
  | _ :: _ :: body =>
    let start := pos.past (takeText s).1
    match _haction : action start body with
    | .error e => .error e
    | .ok (trimsBefore, finished) => do
      let more ← segmentsFrom finished.pos finished.rest
      .ok ⟨⟨pos, (takeText s).1⟩,
        (⟨trimsBefore, finished.tokens, finished.trimsAfter⟩, more.first) :: more.others⟩
  | _ => .ok ⟨⟨pos, (takeText s).1⟩, []⟩
termination_by s.length
decreasing_by
  have hleft := length_of_action _haction
  have htext := length_takeText s
  rw [_hrest] at htext
  simp only [List.length_cons] at htext
  omega

/-- The texts and actions of a source. -/
def ofSource (source : String) : Except LexError Segments :=
  segmentsFrom Position.start source.toList

end Segments

end Stencil
