/-
A written source has the tokens that it was written from.

The splitter looks for the next opening delimiter, reads an action up to its end, and goes on.
Written pieces fit this: a plain text ends exactly where the action behind it begins, and inside an
action blanks are skipped and every token is scanned back from its spelling. No trim marker and no
comment is ever found, because no spelling begins like one.
-/
import Stencil.Proofs.Scanning

set_option autoImplicit false

namespace Stencil

open Lexeme

/-! ## Inside an action -/

/-- What stands behind a token in an action is a boundary, unless the token is an inner one. -/
theorem WrittenAction.boundary {t : Token} {ts : List Token} {cs : List Char}
    (h : WrittenAction (some t) ts cs) (ht : t.isInner = false) (s : List Char) :
    Boundary (cs ++ s) := by
  cases h with
  | @close _ gap hgap =>
    cases gap with
    | nil => exact boundary_cons (by decide) (by decide)
    | cons c gap =>
      rw [List.all_cons, Bool.and_eq_true] at hgap
      exact boundary_of_isBlank hgap.1
  | @token _ u ts gap rest hgap htouch _ =>
    cases gap with
    | nil =>
      -- Without a blank, only a mark may stand behind a token that is no inner one.
      have htouches : t.mayTouch u = true := htouch rfl t rfl
      have hmark : u = .pipe ∨ u = .rightParen := by
        unfold Token.mayTouch at htouches
        split at htouches
        · exact absurd ht (by decide)
        · exact absurd ht (by decide)
        · exact Or.inl rfl
        · exact Or.inr rfl
        · exact absurd htouches Bool.false_ne_true
      rcases hmark with rfl | rfl
      · exact boundary_cons (by decide) (by decide)
      · exact boundary_cons (by decide) (by decide)
    | cons c gap =>
      rw [List.all_cons, Bool.and_eq_true] at hgap
      exact boundary_of_isBlank hgap.1

/-- A text that opens like a token is no closing delimiter. -/
theorem Segments.closing?_of_opens {c : Char} {rest : List Char} (h : Opens c rest) :
    closing? (c :: rest) = none := by
  unfold closing?
  split
  · rename_i heq
    exact absurd (List.cons.inj heq).1 h.notBrace
  · rename_i heq
    obtain ⟨d, more, hrest, hd⟩ := h.signed (List.cons.inj heq).1
    rw [hrest] at heq
    rw [(List.cons.inj (List.cons.inj heq).2).1] at hd
    exact absurd hd (by decide)
  · rfl

namespace Segments

theorem actionTokens_of_closing (start pos : Position) {s delimiter rest : List Char}
    (h : closing? (s.dropWhile Text.isBlank) = some (delimiter, rest)) :
    ∃ here p, actionTokens start pos s
      = .ok ⟨[⟨.actionEnd, here⟩], closingTrims delimiter, p, rest⟩ := by
  rw [actionTokens]
  simp only [h]
  exact ⟨_, _, rfl⟩

theorem actionTokens_of_token (start pos : Position) {s more : List Char} {c : Char} {l : Lexeme}
    (hinner : s.dropWhile Text.isBlank = c :: more)
    (hclosing : closing? (c :: more) = none) (hscan : Lexeme.scan c more = .ok l)
    (hrest : ∀ p, ∃ f, actionTokens start p l.rest = .ok f) :
    ∃ here p f, actionTokens start p l.rest = .ok f ∧ actionTokens start pos s
      = .ok { f with tokens := ⟨l.token, here⟩ :: f.tokens } := by
  obtain ⟨f, hf⟩ := hrest ((pos.past (s.takeWhile Text.isBlank)).past l.spelling)
  refine ⟨pos.past (s.takeWhile Text.isBlank), _, f, hf, ?_⟩
  unfold actionTokens
  simp only
  split
  · rename_i heq
    rw [hinner, hclosing] at heq
    exact absurd heq (by simp)
  · split
    · rename_i heq
      rw [hinner] at heq
      exact absurd heq (by simp)
    · rename_i heq
      rw [hinner] at heq
      obtain ⟨rfl, rfl⟩ := List.cons.inj heq
      split
      · rename_i hfail
        rw [hscan] at hfail
        exact absurd hfail (by simp)
      · rename_i hok
        rw [hscan] at hok
        rw [← Except.ok.inj hok, hf]
        rfl

/-- The tokens of an action are read up to its closing delimiter, whatever stands behind that. The
induction is on how the action is written. -/
theorem actionTokens_of_written {prev : Option Token} {ts : List Token} {body : List Char}
    (h : WrittenAction prev ts body) (hts : ∀ t ∈ ts, t.IsSpelled) (start : Position)
    (rest : List Char) : ∀ pos, ∃ f, actionTokens start pos (body ++ rest) = .ok f
      ∧ f.tokens.map PlacedToken.token = ts ++ [.actionEnd] ∧ f.trimsAfter = false
      ∧ f.rest = rest := by
  induction h with
  | @close _ gap hgap =>
    intro pos
    have hinner : (gap ++ ['\x7d', '\x7d'] ++ rest).dropWhile Text.isBlank
        = '\x7d' :: '\x7d' :: rest := by
      rw [List.append_assoc]
      exact dropWhile_blanks hgap (by decide)
    have hclosing : closing? ((gap ++ ['\x7d', '\x7d'] ++ rest).dropWhile Text.isBlank)
        = some (['\x7d', '\x7d'], rest) := by
      rw [hinner]
      rfl
    obtain ⟨here, p, hf⟩ := actionTokens_of_closing start pos hclosing
    exact ⟨_, hf, rfl, rfl, rfl⟩
  | @token _ t ts gap tail hgap _ htail ih =>
    intro pos
    obtain ⟨c, more, hspelling, hopens, hscan⟩ :=
      scans_of_isSpelled (hts t List.mem_cons_self) fun ht => htail.boundary ht rest
    have hinner : (gap ++ t.spelling ++ tail ++ rest).dropWhile Text.isBlank
        = c :: (more ++ (tail ++ rest)) := by
      rw [List.append_assoc, List.append_assoc, hspelling]
      exact dropWhile_blanks hgap hopens.notBlank
    have ihrest := ih fun u hu => hts u (List.mem_cons_of_mem t hu)
    obtain ⟨here, p, f, hf, hall⟩ := actionTokens_of_token start pos hinner
      (closing?_of_opens hopens) hscan fun p => (ihrest p).imp fun f hf => hf.1
    obtain ⟨g, hg, htokens, htrims, hrest⟩ := ihrest p
    have hfg : f = g := Except.ok.inj (hf.symm.trans hg)
    refine ⟨_, hall, ?_, ?_, ?_⟩
    · rw [List.map_cons, hfg, htokens]
      rfl
    · rw [← htrims, hfg]
    · rw [← hrest, hfg]

end Segments

/-- Behind the blanks at its start, an action begins with a token or with its end. -/
theorem WrittenAction.start {prev : Option Token} {ts : List Token} {body : List Char}
    (h : WrittenAction prev ts body) (hts : ∀ t ∈ ts, t.IsSpelled) (rest : List Char) :
    ∃ gap c more, body ++ rest = gap ++ c :: more ∧ gap.all Text.isBlank = true
      ∧ Text.isBlank c = false ∧ c ≠ '/'
      ∧ (c = '-' → ∃ d others, more = d :: others ∧ d.isDigit = true) := by
  cases h with
  | @close _ gap hgap =>
    refine ⟨gap, '\x7d', '\x7d' :: rest, by simp, hgap, by decide, by decide, ?_⟩
    exact fun h => absurd h (by decide)
  | @token _ t ts gap tail hgap _ htail =>
    obtain ⟨c, more, hspelling, hopens, _⟩ :=
      scans_of_isSpelled (hts t List.mem_cons_self) fun ht => htail.boundary ht rest
    refine ⟨gap, c, more ++ (tail ++ rest), ?_, hgap, hopens.notBlank, hopens.notSlash,
      hopens.signed⟩
    rw [hspelling]
    simp

namespace Segments

theorem openingMarker_of_start {gap more : List Char} {c : Char}
    (hgap : gap.all Text.isBlank = true)
    (hsign : c = '-' → ∃ d others, more = d :: others ∧ d.isDigit = true) :
    openingMarker (gap ++ c :: more) = ([], gap ++ c :: more) := by
  unfold openingMarker
  split
  · rename_i d others heq
    cases gap with
    | nil =>
      obtain ⟨hc, hmore⟩ := List.cons.inj heq
      -- Here the minus sign belongs to a number, whose first digit is no blank.
      obtain ⟨e, others', hothers, he⟩ := hsign hc
      have hde : d = e := (List.cons.inj (hmore.symm.trans hothers)).1
      have hblank : Text.isBlank d = false := by
        rw [hde]
        exact Text.isBlank_of_isNameChar (isNameChar_iff.2 (Or.inr he))
      rw [if_neg (by rw [hblank]; exact Bool.false_ne_true), heq]
    | cons b gap =>
      rw [List.all_cons, Bool.and_eq_true, (List.cons.inj heq).1] at hgap
      exact absurd hgap.1 (by decide)
  · rfl

/-- An action is read as it was written, behind its opening delimiter. -/
theorem action_of_written {ts : List Token} {body : List Char} (h : WrittenAction none ts body)
    (hts : ∀ t ∈ ts, t.IsSpelled) (start : Position) (rest : List Char) :
    ∃ f, action start (body ++ rest) = .ok (false, f)
      ∧ f.tokens.map PlacedToken.token = .actionStart :: ts ++ [.actionEnd]
      ∧ f.trimsAfter = false ∧ f.rest = rest := by
  obtain ⟨gap, c, more, heq, hgap, hblank, hslash, hsign⟩ := h.start hts rest
  have hmarker : openingMarker (body ++ rest) = ([], body ++ rest) := by
    rw [heq]
    exact openingMarker_of_start hgap hsign
  have hinner : (body ++ rest).dropWhile Text.isBlank = c :: more := by
    rw [heq]
    exact dropWhile_blanks hgap hblank
  have hcomment : startsComment ((body ++ rest).dropWhile Text.isBlank) = false := by
    rw [hinner]
    unfold startsComment
    split
    · rename_i hd
      exact absurd (List.cons.inj hd).1 hslash
    · rfl
  obtain ⟨f, hf, htokens, htrims, hrest⟩ :=
    actionTokens_of_written h hts start rest (start.past ['\x7b', '\x7b'])
  refine ⟨{ f with tokens := ⟨.actionStart, start⟩ :: f.tokens }, ?_, ?_, htrims, hrest⟩
  · unfold action
    simp only [hmarker, hcomment, Position.past_nil, hf]
    rfl
  · rw [List.map_cons, htokens]
    rfl

/-! ## Texts and actions in turn -/

/-- A text in which no opening delimiter begins, not even together with what follows it. -/
def NoOpening (t : List Char) : Prop :=
  Text.occurs ['\x7b', '\x7b'] t = false ∧ t.getLast? ≠ some '\x7b'

theorem noOpening_nil : NoOpening [] := ⟨rfl, fun h => by cases h⟩

theorem noOpening_of_isPlainText {t : List Char} (h : isPlainText t = true) :
    NoOpening t ∧ t ≠ [] := by
  simp only [isPlainText, Bool.and_eq_true, Bool.not_eq_true', bne_iff_ne, ne_eq] at h
  refine ⟨⟨h.1.2, h.2⟩, fun hnil => ?_⟩
  rw [hnil] at h
  exact absurd h.1.1 (by decide)

/-- Behind the first character of a text without an opening delimiter there is none either. -/
theorem NoOpening.tail {c : Char} {t : List Char} (h : NoOpening (c :: t)) : NoOpening t := by
  obtain ⟨hoccurs, hlast⟩ := h
  rw [Text.occurs, Bool.or_eq_false_iff] at hoccurs
  refine ⟨hoccurs.2, fun ht => hlast ?_⟩
  cases t with
  | nil => cases ht
  | cons d t => rw [List.getLast?_cons_cons, ht]

/-- No opening delimiter begins with the first character of such a text. -/
theorem NoOpening.head {c : Char} {t s more : List Char} (h : NoOpening (c :: t)) :
    c :: (t ++ s) ≠ '\x7b' :: '\x7b' :: more := by
  intro heq
  obtain ⟨hoccurs, hlast⟩ := h
  obtain ⟨hc, hmore⟩ := List.cons.inj heq
  cases t with
  | nil =>
    rw [hc] at hlast
    exact hlast rfl
  | cons d t =>
    rw [hc, (List.cons.inj hmore).1, Text.occurs, Bool.or_eq_false_iff] at hoccurs
    exact absurd hoccurs.1 (by simp [Text.after?])

theorem takeText_cons {c : Char} {s : List Char} (h : ∀ more, c :: s ≠ '\x7b' :: '\x7b' :: more) :
    takeText (c :: s) = (c :: (takeText s).1, (takeText s).2) := by
  rw [takeText]
  intro more hc hs
  exact h more (by rw [hc, hs])

/-- A text without an opening delimiter ends where one stands, or at the end of the source. -/
theorem takeText_append {t s : List Char} (ht : NoOpening t)
    (hs : s = [] ∨ ∃ more, s = '\x7b' :: '\x7b' :: more) : takeText (t ++ s) = (t, s) := by
  induction t with
  | nil =>
    rcases hs with rfl | ⟨more, rfl⟩
    · rfl
    · rfl
  | cons c t ih => rw [List.cons_append, takeText_cons fun more => ht.head, ih ht.tail]

theorem segmentsFrom_of_end {pos : Position} {s t : List Char} (h : takeText s = (t, [])) :
    segmentsFrom pos s = .ok ⟨⟨pos, t⟩, []⟩ := by
  unfold segmentsFrom
  split
  · rename_i heq
    rw [h] at heq
    exact absurd heq (by simp)
  · rw [h]

theorem segmentsFrom_of_action {pos : Position} {s t body : List Char} {trims : Bool}
    {f : Finished} {more : Segments} (h : takeText s = (t, '\x7b' :: '\x7b' :: body))
    (haction : action (pos.past t) body = .ok (trims, f))
    (hmore : segmentsFrom f.pos f.rest = .ok more) :
    segmentsFrom pos s
      = .ok ⟨⟨pos, t⟩, (⟨trims, f.tokens, f.trimsAfter⟩, more.first) :: more.others⟩ := by
  unfold segmentsFrom
  split
  · rename_i heq
    rw [h] at heq
    obtain ⟨_, hrest⟩ := List.cons.inj heq
    obtain ⟨_, rfl⟩ := List.cons.inj hrest
    simp only
    split
    · rename_i hfail
      rw [h, haction] at hfail
      exact absurd hfail (by simp)
    · rename_i hok
      rw [h, haction] at hok
      obtain ⟨rfl, rfl⟩ := Prod.mk.inj (Except.ok.inj hok)
      rw [hmore, h]
      rfl
  · rename_i hnone
    rw [h] at hnone
    exact absurd rfl (hnone _ _ _)

end Segments

/-! ## Pieces that are found again -/

/-- Pieces that are found again where they are written: texts are plain, and none of them follows on
another one, the first argument telling whether a text stands in front. -/
inductive Readable : Bool → List Piece → Prop where
  | nil {b : Bool} : Readable b []
  | text {s : String} {ps : List Piece} :
      isPlainText s.toList = true → Readable true ps → Readable false (.text s :: ps)
  | action {b : Bool} {ts : List Token} {ps : List Piece} :
      (∀ t ∈ ts, t.IsSpelled) → Readable false ps → Readable b (.action ts :: ps)

namespace Segments

/-- The tokens of a text that is not trimmed: one, or none if it is empty. -/
def tokensOfText (t : List Char) : List Token := if t = [] then [] else [.text (String.ofList t)]

theorem tokens_untrimmed (pos : Position) (t : List Char) :
    (RawText.tokens ⟨pos, t⟩ false false).map PlacedToken.token = tokensOfText t := by
  cases t with
  | nil => rfl
  | cons c t => rfl

/-- The text in front of the pieces is carried along, because it is complete only where the next
action begins. -/
theorem segmentsFrom_of_written {b : Bool} {ps : List Piece} (hps : Readable b ps) :
    ∀ {cs : List Char}, WrittenPieces ps cs → ∀ (pos : Position) (t : List Char), NoOpening t →
      (b = false → t = []) → ∃ segments, segmentsFrom pos (t ++ cs) = .ok segments
        ∧ (tokensFrom false segments.first segments.others).map PlacedToken.token
          = tokensOfText t ++ ps.flatMap Piece.tokens := by
  induction hps with
  | nil =>
    intro cs hcs pos t ht _
    cases hcs
    refine ⟨⟨⟨pos, t⟩, []⟩, segmentsFrom_of_end (takeText_append ht (Or.inl rfl)), ?_⟩
    rw [tokensFrom, tokens_untrimmed, List.flatMap_nil, List.append_nil]
  | @text s ps hs _ ih =>
    intro cs hcs pos t _ hb
    cases hcs with
    | text hrest =>
      -- No text is in front, so this one is carried along in its place.
      obtain ⟨hplain, hne⟩ := noOpening_of_isPlainText hs
      obtain ⟨segments, hsegments, htokens⟩ :=
        ih hrest pos s.toList hplain fun h => absurd h.symm Bool.false_ne_true
      refine ⟨segments, ?_, ?_⟩
      · rw [hb rfl, List.nil_append, hsegments]
      · rw [htokens, hb rfl, tokensOfText, if_neg hne, String.ofList_toList]
        rfl
  | @action b ts ps hts _ ih =>
    intro cs hcs pos t ht _
    cases hcs with
    | @action _ _ body rest hbody hrest =>
      -- The action completes the text in front, and behind it a new text begins.
      have htext : takeText (t ++ ('\x7b' :: '\x7b' :: body ++ rest))
          = (t, '\x7b' :: '\x7b' :: (body ++ rest)) := takeText_append ht (Or.inr ⟨_, rfl⟩)
      obtain ⟨f, haction, htokens, htrims, hleft⟩ := action_of_written hbody hts (pos.past t) rest
      obtain ⟨more, hmore, hothers⟩ := ih hrest f.pos [] noOpening_nil fun _ => rfl
      rw [List.nil_append, ← hleft] at hmore
      refine ⟨_, segmentsFrom_of_action htext haction hmore, ?_⟩
      simp only [tokensFrom, List.map_append]
      rw [tokens_untrimmed, htokens, htrims, hothers, List.append_assoc]
      rfl

end Segments

/-- **A written source has the tokens of its pieces**, in order and with nothing between them. -/
theorem tokensOf_of_written {ps : List Piece} {source : String} (hps : Readable false ps)
    (hsource : WrittenPieces ps source.toList) :
    ∃ placed, tokensOf source = .ok placed
      ∧ placed.map PlacedToken.token = ps.flatMap Piece.tokens := by
  obtain ⟨segments, hsegments, htokens⟩ := Segments.segmentsFrom_of_written hps hsource .start []
    Segments.noOpening_nil fun _ => rfl
  refine ⟨segments.tokens, ?_, htokens⟩
  unfold tokensOf Segments.ofSource
  rw [← List.nil_append source.toList, hsegments]
  rfl

/-! ## What can be written is found again -/

section

variable {defined : String → Bool}

mutual

theorem Operand.isSpelled : (o : Operand) → o.isWritable defined = true →
    ∀ t ∈ o.tokens, t.IsSpelled
  | .dot, _ => by simp [Operand.tokens, Token.IsSpelled]
  | .field path, h => by
    simp only [Operand.isWritable, Bool.and_eq_true, Bool.not_eq_true'] at h
    simp only [Operand.tokens, List.mem_singleton, forall_eq]
    exact ⟨fun hnil => by simp [hnil] at h, h.2⟩
  | .variable path, h => by
    simp only [Operand.tokens, List.mem_singleton, forall_eq]
    exact h
  | .function name, h => by
    simp only [Operand.isWritable, Bool.and_eq_true, Bool.not_eq_true'] at h
    simp only [Operand.tokens, List.mem_singleton, forall_eq]
    exact h.1
  | .string _, _ => by simp [Operand.tokens, Token.IsSpelled]
  | .int _, _ => by simp [Operand.tokens, Token.IsSpelled]
  | .float _, h => absurd h Bool.false_ne_true
  | .bool _, _ => by simp [Operand.tokens, Token.IsSpelled]
  | .nil, _ => by simp [Operand.tokens, Token.IsSpelled]
  | .pipeline p, h => by
    have hp := Pipeline.isSpelled p h
    intro t ht
    simp only [Operand.tokens, List.mem_append, List.mem_cons, List.not_mem_nil, or_false] at ht
    rcases ht with (rfl | ht) | rfl
    · exact trivial
    · exact hp t ht
    · exact trivial

theorem Operand.areSpelled : (os : List Operand) → Operand.areWritable defined os = true →
    ∀ t ∈ Operand.tokensOfAll os, t.IsSpelled
  | [], _ => by simp [Operand.tokensOfAll]
  | o :: rest, h => by
    simp only [Operand.areWritable, Bool.and_eq_true] at h
    intro t ht
    rcases List.mem_append.1 ht with ht | ht
    · exact Operand.isSpelled o h.1 t ht
    · exact Operand.areSpelled rest h.2 t ht

theorem Command.isSpelled : (c : Command) → c.isWritable defined = true →
    ∀ t ∈ c.tokens, t.IsSpelled
  | ⟨_, args⟩, h => by
    simp only [Command.isWritable, Bool.and_eq_true] at h
    exact Operand.areSpelled args h.2

theorem Command.areSpelledPiped : (cs : List Command) → Command.areWritable defined cs = true →
    ∀ t ∈ Command.tokensOfPiped cs, t.IsSpelled
  | [], _ => by simp [Command.tokensOfPiped]
  | c :: rest, h => by
    simp only [Command.areWritable, Bool.and_eq_true] at h
    intro t ht
    simp only [Command.tokensOfPiped, List.mem_append, List.mem_cons] at ht
    rcases ht with (rfl | ht) | ht
    · exact trivial
    · exact Command.isSpelled c h.1 t ht
    · exact Command.areSpelledPiped rest h.2 t ht

theorem Pipeline.isSpelled : (p : Pipeline) → p.isWritable defined = true →
    ∀ t ∈ p.tokens, t.IsSpelled
  | ⟨_, []⟩, _ => by simp [Pipeline.tokens, Command.tokensOfAll]
  | ⟨_, c :: rest⟩, h => by
    simp only [Pipeline.isWritable, Command.areWritable, Bool.and_eq_true] at h
    intro t ht
    rcases List.mem_append.1 ht with ht | ht
    · exact Command.isSpelled c h.2.1 t ht
    · exact Command.areSpelledPiped rest h.2.2 t ht

end

theorem Readable.of_true {b : Bool} {ps : List Piece} (h : Readable true ps) : Readable b ps := by
  cases h with
  | nil => exact .nil
  | action hts hrest => exact .action hts hrest

theorem readable_endClause {b : Bool} {rest : List Piece} (h : Readable false rest) :
    Readable b (.endClause :: rest) := by
  refine .action (fun t ht => ?_) h
  rw [List.mem_singleton.1 ht]
  trivial

/-- An action of a keyword and a pipeline. -/
theorem readable_keyword {b : Bool} {k : Keyword} {p : Pipeline} {rest : List Piece}
    (hp : p.isWritable defined = true) (h : Readable false rest) :
    Readable b (.action (.keyword k :: p.tokens) :: rest) := by
  refine .action (fun t ht => ?_) h
  rcases List.mem_cons.1 ht with rfl | ht
  · trivial
  · exact Pipeline.isSpelled p hp t ht

mutual

/-- The pieces of a node are found again in front of others. Only a text must not stand behind a
text or in front of one. -/
theorem Node.readable : (n : Node) → n.isWritable defined = true → {b : Bool} →
    {rest : List Piece} → (b = true → Node.startWithText [n] = false) →
      Readable (Node.startWithText [n]) rest → Readable b (n.pieces ++ rest)
  | .text s, h, b, rest, hb, hrest => by
    cases b with
    | true => exact absurd (hb rfl) (by simp [Node.startWithText])
    | false => exact .text h hrest
  | .action p, h, b, rest, _, hrest => .action (Pipeline.isSpelled p h) hrest
  | .conditional _ branches otherwise, h, b, rest, _, hrest => by
    simp only [Node.isWritable, Bool.and_eq_true, Bool.not_eq_true'] at h
    obtain ⟨⟨hne, hbranches⟩, hotherwise⟩ := h
    -- The pieces are put together from the last one to the first one.
    have hend : Readable true (.endClause :: rest) := readable_endClause hrest
    have halternative := Node.readableAlternative otherwise hotherwise hend
    cases branches with
    | nil => exact absurd hne (by simp)
    | cons branch branches =>
      obtain ⟨condition, body⟩ := branch
      simp only [Branch.areWritable, Bool.and_eq_true] at hbranches
      have hfurther := Branch.readableFurther branches hbranches.2 halternative
      have hbody := Node.readableAll body hbranches.1.2 (b := false) (fun h => by cases h) hfurther
      have hall := readable_keyword (b := b) (k := .ifWord) hbranches.1.1 hbody
      simpa [Node.pieces, Branch.piecesOfFirst] using hall
  | .rebind kind _ p body otherwise, h, b, rest, _, hrest => by
    simp only [Node.isWritable, Bool.and_eq_true] at h
    have hend : Readable true (.endClause :: rest) := readable_endClause hrest
    have halternative := Node.readableAlternative otherwise h.2 hend
    have hbody := Node.readableAll body h.1.2 (b := false) (fun h => by cases h) halternative
    have hall := readable_keyword (b := b) (k := kind.keyword) h.1.1 hbody
    simpa [Node.pieces] using hall
  | .call _ name p, h, b, rest, _, hrest => by
    refine .action (fun t ht => ?_) hrest
    rcases List.mem_cons.1 ht with rfl | ht
    · trivial
    rcases List.mem_cons.1 ht with rfl | ht
    · trivial
    cases p with
    | none => exact absurd ht List.not_mem_nil
    | some p => exact Pipeline.isSpelled p h t ht

theorem Node.readableAll : (ns : List Node) → Node.areWritable defined ns = true → {b : Bool} →
    {rest : List Piece} → (b = true → Node.startWithText ns = false) → Readable true rest →
      Readable b (Node.piecesOfAll ns ++ rest)
  | [], _, b, rest, _, hrest => hrest.of_true
  | n :: ns, h, b, rest, hb, hrest => by
    simp only [Node.areWritable, Bool.and_eq_true, Bool.not_eq_true', Bool.and_eq_false_iff] at h
    obtain ⟨⟨hn, hapart⟩, hns⟩ := h
    -- If this node is a text, the next one is none.
    have hmore : Readable (Node.startWithText [n]) (Node.piecesOfAll ns ++ rest) := by
      refine Node.readableAll ns hns (fun htext => ?_) hrest
      rcases hapart with hfirst | hsecond
      · rw [htext] at hfirst
        exact absurd hfirst.symm Bool.false_ne_true
      · exact hsecond
    have hfirst : b = true → Node.startWithText [n] = false := by
      intro h
      have hstart := hb h
      cases n <;> first | rfl | exact hstart
    have hall := Node.readable n hn hfirst hmore
    simpa [Node.piecesOfAll] using hall

theorem Node.readableAlternative : (otherwise : Option (List Node)) →
    Node.isWritableAlternative defined otherwise = true → {rest : List Piece} →
      Readable true rest → Readable true (Node.piecesOfAlternative otherwise ++ rest)
  | none, _, rest, hrest => hrest
  | some body, h, rest, hrest => by
    refine .action (fun t ht => ?_) (Node.readableAll body h (fun h => by cases h) hrest)
    rw [List.mem_singleton.1 ht]
    trivial

theorem Branch.readableFurther : (bs : List Branch) → Branch.areWritable defined bs = true →
    {rest : List Piece} → Readable true rest →
      Readable true (Branch.piecesOfFurther bs ++ rest)
  | [], _, rest, hrest => hrest
  | ⟨condition, body⟩ :: bs, h, rest, hrest => by
    simp only [Branch.areWritable, Bool.and_eq_true] at h
    have hfurther := Branch.readableFurther bs h.2 hrest
    have hbody := Node.readableAll body h.1.2 (b := false) (fun h => by cases h) hfurther
    have hall : Readable true (.action (.keyword .elseWord :: .keyword .ifWord :: condition.tokens)
        :: (Node.piecesOfAll body ++ (Branch.piecesOfFurther bs ++ rest))) := by
      refine .action (fun t ht => ?_) hbody
      rcases List.mem_cons.1 ht with rfl | ht
      · trivial
      rcases List.mem_cons.1 ht with rfl | ht
      · trivial
      · exact Pipeline.isSpelled condition h.1.1 t ht
    simpa [Branch.piecesOfFurther] using hall

end

/-- The pieces of a source whose definitions and content can be written are found again. -/
theorem readable_ofSource {defines : List Tree} {main : List Node}
    (hdefines : ∀ t ∈ defines, Node.areWritable defined t.root = true)
    (hmain : Node.areWritable defined main = true) :
    Readable false (Piece.ofSource defines main) := by
  induction defines with
  | nil =>
    have hall := Node.readableAll main hmain (b := false) (fun h => by cases h) .nil
    simpa [Piece.ofSource] using hall
  | cons t defines ih =>
    have hrest := ih fun u hu => hdefines u (List.mem_cons_of_mem t hu)
    have hend : Readable true (.endClause :: Piece.ofSource defines main) :=
      readable_endClause hrest
    have hbody := Node.readableAll t.root (hdefines t List.mem_cons_self) (b := false)
      (fun h => by cases h) hend
    have hall : Readable false (.action [.keyword .defineWord, .string t.name]
        :: (Node.piecesOfAll t.root ++ .endClause :: Piece.ofSource defines main)) := by
      refine .action (fun u hu => ?_) hbody
      rcases List.mem_cons.1 hu with rfl | hu
      · trivial
      · rw [List.mem_singleton.1 hu]
        trivial
    simpa [Piece.ofSource, Tree.pieces] using hall

end

end Stencil
