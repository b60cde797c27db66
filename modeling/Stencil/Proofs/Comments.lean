/-
Comments vanish.

A comment between two sources adds no token and takes none away: a source that does not end with a
brace ends with a text that the comment cannot change, and a comment without trim markers changes no
text behind it either. There is one exception. The end mark of a comment is looked for from its start
mark on, so a slash directly behind the star of the start mark makes an end mark with it, and such a
comment is over before its body begins.
-/
import Stencil.Proofs.Trimming

set_option autoImplicit false

namespace Stencil

open Segments

/-- The characters of a comment without blanks and trim markers around its body. -/
def commentChars (body : List Char) : List Char :=
  ['\x7b', '\x7b', '/', '*'] ++ body ++ ['*', '/', '\x7d', '\x7d']

/-! ## A comment by itself -/

/-- A star behind a text completes no end mark in it. -/
theorem infix_of_infix_concat_star {c : List Char} (h : ['*', '/'] <:+: c ++ ['*']) :
    ['*', '/'] <:+: c := by
  obtain ⟨x, y, hxy⟩ := h
  rcases List.eq_nil_or_concat y with rfl | ⟨y, z, rfl⟩
  · have hlast := congrArg List.getLast? hxy
    simp at hlast
  · rw [List.concat_eq_append, ← List.append_assoc] at hxy
    exact ⟨x, y, (List.append_inj_left' hxy rfl)⟩

/-- No end mark is found from the start mark on but the one behind the body, unless the body begins
with a slash. -/
theorem not_infix_comment {c : List Char} (hc : ¬ ['*', '/'] <:+: c) (hslash : c.head? ≠ some '/') :
    ¬ ['*', '/'] <:+: '/' :: '*' :: c ++ ['*'] := by
  rw [List.cons_append, List.cons_append, List.infix_cons_iff, List.infix_cons_iff]
  rintro (⟨x, hx⟩ | ⟨x, hx⟩ | hlater)
  · exact absurd (List.cons.inj hx).1 (by decide)
  · -- The star of the start mark makes an end mark only with a slash behind it.
    have hhead := congrArg List.head? (List.cons.inj hx).2
    cases c with
    | nil => exact absurd (Option.some.inj hhead) (by decide)
    | cons d c => exact hslash hhead.symm
  · exact hc (infix_of_infix_concat_star hlater)

/-- A comment whose body neither has an end mark nor makes one with the start mark. -/
theorem isRead_comment {c : List Char} (hc : ¬ ['*', '/'] <:+: c) (hslash : c.head? ≠ some '/') :
    ActionText.IsRead ⟨commentChars c, []⟩ := by
  rw [ActionText.isRead_iff]
  have hcomment : IsComment (['\x7b', '\x7b'] ++ [] ++ [] ++ ('/' :: '*' :: c ++ ['*', '/']) ++ []
      ++ ['\x7d', '\x7d']) :=
    .mk (Or.inl rfl) rfl ⟨c ++ ['*', '/'], rfl⟩ (not_infix_comment hc hslash) rfl .close
  have hchars : ['\x7b', '\x7b'] ++ [] ++ [] ++ ('/' :: '*' :: c ++ ['*', '/']) ++ []
      ++ ['\x7d', '\x7d'] = commentChars c := by simp [commentChars]
  rw [hchars] at hcomment
  exact readsAction_of_isComment hcomment

theorem opensTrimming_commentChars (c : List Char) : opensTrimming (commentChars c) = false := rfl

theorem closesTrimming_commentChars (c : List Char) : closesTrimming (commentChars c) = false := by
  have hlast : (['\x7b', '\x7b', '/', '*'] ++ c ++ ['*', '/']).getLast? ≠ some '-' := by
    rw [Lexeme.getLast?_append_of_ne_nil (by simp)]
    decide
  have hends := closesTrimming_append (w := ['\x7d', '\x7d']) (by decide) hlast
  have hchars : ['\x7b', '\x7b', '/', '*'] ++ c ++ ['*', '/'] ++ ['\x7d', '\x7d']
      = commentChars c := by simp [commentChars]
  rw [hchars] at hends
  exact hends

namespace Split

/-! ## Between two sources -/

/-- A source that does not end with a brace does not from the next text on either. -/
theorem getLast?_charsFrom_tail {t next : List Char} {a : ActionText}
    {others : List (ActionText × List Char)}
    (h : (charsFrom t ((a, next) :: others)).getLast? ≠ some '\x7b') :
    (charsFrom next others).getLast? ≠ some '\x7b' := by
  intro hend
  apply h
  rw [charsFrom, Lexeme.getLast?_append_of_ne_nil, hend]
  intro hnil
  rw [hnil] at hend
  exact absurd hend (by simp)

theorem noOpening_of_last {t : List Char} (h : ProperFrom t []) (hlast : t.getLast? ≠ some '\x7b') :
    NoOpening t := by
  refine ⟨?_, hlast⟩
  rw [Bool.eq_false_iff]
  exact fun hoccurs => h (Text.occurs_iff.1 hoccurs)

/-- Two splits with an action between them, if the first does not end with a brace that the action's
opening delimiter could be taken together with. -/
theorem properFrom_append {others more : List (ActionText × List Char)} {a : ActionText}
    {next : List Char} (ha : a.IsRead) (hmore : ProperFrom next more) :
    ∀ {t : List Char}, ProperFrom t others → (charsFrom t others).getLast? ≠ some '\x7b' →
      ProperFrom t (others ++ (a, next) :: more) := by
  induction others with
  | nil =>
    intro t ht hlast
    exact ⟨noOpening_of_last ht hlast, ha, hmore⟩
  | cons p others ih =>
    rintro t ⟨ht, hread, hothers⟩ hlast
    exact ⟨ht, hread, ih hothers (getLast?_charsFrom_tail hlast)⟩

theorem charsFrom_append (others more : List (ActionText × List Char)) (a : ActionText)
    (next : List Char) : ∀ t : List Char, charsFrom t (others ++ (a, next) :: more)
      = charsFrom t others ++ a.chars ++ charsFrom next more := by
  induction others with
  | nil => exact fun _ => rfl
  | cons p others ih =>
    intro t
    rw [List.cons_append, charsFrom, charsFrom, ih]
    simp only [List.append_assoc]

/-- An action that does not trim what follows it is no neighbour that matters. -/
theorem keptFrom_some {a : ActionText} (ha : closesTrimming a.chars = false) (t : List Char)
    (others : List (ActionText × List Char)) : keptFrom (some a) t others = keptFrom none t others := by
  cases others with
  | nil => simp [keptFrom, trimmed, ha]
  | cons p others => simp [keptFrom, trimmed, ha]

/-- Around an action that trims nothing and gives no token, the tokens are those of the two sides. -/
theorem interleave_append {a : ActionText} (htokens : a.tokens = [])
    (hopens : opensTrimming a.chars = false) (hcloses : closesTrimming a.chars = false)
    (others more : List (ActionText × List Char)) (next : List Char) :
    ∀ (before : Option ActionText) (t : List Char),
      interleave (keptFrom before t (others ++ (a, next) :: more))
          ((others ++ (a, next) :: more).map Prod.fst)
        = interleave (keptFrom before t others) (others.map Prod.fst)
          ++ interleave (keptFrom none next more) (more.map Prod.fst) := by
  induction others with
  | nil =>
    intro before t
    have hkept : trimmed before t (some a) = trimmed before t none := by simp [trimmed, hopens]
    have hfirst : keptFrom before t ((a, next) :: more)
        = trimmed before t none :: keptFrom none next more := by
      rw [← hkept, ← keptFrom_some hcloses next more]
      rfl
    have hlast : interleave (keptFrom before t []) [] = tokensOfText (trimmed before t none) := by
      simp [keptFrom, interleave]
    rw [List.nil_append, hfirst, List.map_cons, interleave, htokens, List.append_nil, List.map_nil,
      hlast]
  | cons p others ih =>
    intro before t
    rw [List.cons_append, keptFrom, List.map_cons, interleave, ih, keptFrom, List.map_cons,
      interleave]
    simp only [List.append_assoc]

/-- A source fails where the action behind its first part does. -/
theorem segmentsFrom_of_failing {others : List (ActionText × List Char)} {body : List Char}
    {cause : LexCause} (hbody : ∀ start, ∃ p, action start body = .error ⟨cause, p⟩) :
    ∀ {t : List Char}, ProperFrom t others → (charsFrom t others).getLast? ≠ some '\x7b' →
      ∀ pos, ∃ p, segmentsFrom pos (charsFrom t others ++ '\x7b' :: '\x7b' :: body)
        = .error ⟨cause, p⟩ := by
  induction others with
  | nil =>
    intro t ht hlast pos
    have htext := takeText_append (s := '\x7b' :: '\x7b' :: body) (noOpening_of_last ht hlast)
      (Or.inr ⟨body, rfl⟩)
    obtain ⟨p, hp⟩ := hbody (pos.past t)
    refine ⟨p, ?_⟩
    rw [charsFrom, segmentsFrom_eq_bind htext, hp]
    rfl
  | cons q others ih =>
    obtain ⟨a, next⟩ := q
    rintro t ⟨ht, hread, hothers⟩ hlast pos
    obtain ⟨inner, hinner, hagain⟩ := (a.isRead_iff.1 hread).again
    have htext : takeText (charsFrom t ((a, next) :: others) ++ '\x7b' :: '\x7b' :: body)
        = (t, '\x7b' :: '\x7b' :: (inner ++ (charsFrom next others ++ '\x7b' :: '\x7b' :: body))) := by
      rw [charsFrom, hinner, List.append_assoc, List.append_assoc]
      exact takeText_append ht (Or.inr ⟨_, rfl⟩)
    obtain ⟨f, haction, -, -, hrest⟩ :=
      hagain (pos.past t) (charsFrom next others ++ '\x7b' :: '\x7b' :: body)
    obtain ⟨p, hp⟩ := ih hothers (getLast?_charsFrom_tail hlast) f.pos
    refine ⟨p, ?_⟩
    rw [← hrest] at hp
    simp only [segmentsFrom_eq_bind htext, haction, Except.bind, hp]

end Split

/-! ## A comment that ends too early -/

/-- What cannot close a comment cannot do so in front of its end mark. -/
theorem closing?_append_star {u : List Char} (h : closing? u = none) (rest : List Char) :
    closing? (u ++ '*' :: rest) = none := by
  match u, h with
  | [], _ => rfl
  | [c], _ =>
    show closing? (c :: '*' :: rest) = none
    unfold closing?
    split
    · rename_i heq
      simp at heq
    · rename_i heq
      simp at heq
    · rfl
  | [c, d], h =>
    show closing? (c :: d :: '*' :: rest) = none
    unfold closing?
    split
    · rename_i heq
      simp only [List.cons.injEq] at heq
      rw [heq.1, heq.2.1] at h
      exact absurd h (by simp [closing?])
    · rename_i heq
      simp at heq
    · rfl
  | c :: d :: e :: v, h => exact closing?_alike (.cons_cons d e v (v ++ '*' :: rest)) h

theorem closing?_dropWhile_append_star {c : List Char}
    (h : closing? (c.dropWhile Text.isBlank) = none) (rest : List Char) :
    closing? ((c ++ '*' :: rest).dropWhile Text.isBlank) = none := by
  rw [List.dropWhile_append]
  split
  · rfl
  · exact closing?_append_star h rest

/-- The slash behind the star of the start mark ends the comment. -/
theorem action_of_slash {s : List Char} (h : closing? (s.dropWhile Text.isBlank) = none)
    (start : Position) : ∃ p, action start ('/' :: '*' :: '/' :: s) = .error ⟨.textAfterComment, p⟩ := by
  have hcomment : ∀ pos, ∃ p, comment start pos ('/' :: '*' :: '/' :: s)
      = .error ⟨.textAfterComment, p⟩ := by
    intro pos
    unfold comment
    have hbody : takeComment ('/' :: '*' :: '/' :: s) = some (['/', '*', '/'], s) := rfl
    rw [hbody]
    simp only [h]
    exact ⟨_, rfl⟩
  have hinner : ('/' :: '*' :: '/' :: s).dropWhile Text.isBlank = '/' :: '*' :: '/' :: s :=
    List.dropWhile_cons_of_neg (by decide)
  have hmarker : openingMarker ('/' :: '*' :: '/' :: s) = ([], '/' :: '*' :: '/' :: s) := rfl
  have hstarts : startsComment ('/' :: '*' :: '/' :: s) = true := rfl
  obtain ⟨p, hp⟩ := hcomment (((start.past ['\x7b', '\x7b']).past []).past
    (('/' :: '*' :: '/' :: s).takeWhile Text.isBlank))
  refine ⟨p, ?_⟩
  unfold action
  simp only [hmarker, hinner, hstarts, if_true, hp]
  rfl

/-! ## Comments in a source -/

/-- The source with a comment between two others. -/
def withComment (a : String) (c : List Char) (b : String) : String :=
  a ++ String.ofList (commentChars c) ++ b

theorem toList_withComment (a : String) (c : List Char) (b : String) :
    (withComment a c b).toList = a.toList ++ commentChars c ++ b.toList := by
  rw [withComment, String.toList_append, String.toList_append, String.toList_ofList]

/-- **A comment between two sources vanishes**, if its body has no end mark and does not begin with a
slash: the tokens are those of the two sources, whatever trim markers these have. If the body does
begin with a slash, the comment ends there, and the source is refused unless a closing delimiter
follows. -/
theorem tokensOf_withComment {a b : String} {ts us : List PlacedToken} {c : List Char}
    (ha : tokensOf a = .ok ts) (hb : tokensOf b = .ok us) (hend : a.toList.getLast? ≠ some '\x7b')
    (hc : ¬ ['*', '/'] <:+: c) :
    (c.head? ≠ some '/' → ∃ vs, tokensOf (withComment a c b) = .ok vs
      ∧ vs.map PlacedToken.token = ts.map PlacedToken.token ++ us.map PlacedToken.token) ∧
    ∀ c', c = '/' :: c' → closing? (c'.dropWhile Text.isBlank) = none →
      ∃ e, tokensOf (withComment a c b) = .error e ∧ e.cause = .textAfterComment := by
  obtain ⟨s, hs, hschars⟩ := Split.exists_proper_of_tokensOf ha
  obtain ⟨s', hs', hschars'⟩ := Split.exists_proper_of_tokensOf hb
  have hachars : a.toList = s.chars := by rw [← hschars, String.toList_ofList]
  have hbchars : b.toList = s'.chars := by rw [← hschars', String.toList_ofList]
  have hlast : (Split.charsFrom s.first s.others).getLast? ≠ some '\x7b' := by
    rw [hachars] at hend
    exact hend
  refine ⟨fun hslash => ?_, fun c' hc' hclosing => ?_⟩
  · -- The splits of the two sides with the comment between them are a split of the whole source.
    have hcomment := isRead_comment hc hslash
    have hproper : Split.Proper ⟨s.first, s.others ++ (⟨commentChars c, []⟩, s'.first) :: s'.others⟩ :=
      Split.properFrom_append hcomment hs' hs hlast
    obtain ⟨vs, hvs, hyields⟩ := Split.yields_of_proper hproper
    have hchars := Split.charsFrom_append s.others s'.others ⟨commentChars c, []⟩ s'.first s.first
    have hsource : String.ofList (Split.charsFrom s.first
        (s.others ++ (⟨commentChars c, []⟩, s'.first) :: s'.others)) = withComment a c b := by
      rw [← String.toList_inj, toList_withComment, String.toList_ofList, hchars, hachars, hbchars]
      rfl
    refine ⟨vs, by rw [← hsource]; exact hvs, ?_⟩
    -- Each side gives what it gives by itself.
    obtain ⟨_, hts, hyieldsA⟩ := Split.yields_of_proper hs
    obtain ⟨_, hus, hyieldsB⟩ := Split.yields_of_proper hs'
    rw [hschars, ha] at hts
    rw [hschars', hb] at hus
    rw [hyields.tokens, Except.ok.inj hts, Except.ok.inj hus, hyieldsA.tokens, hyieldsB.tokens,
      Split.keptTexts_eq, Split.keptTexts_eq, Split.keptTexts_eq]
    exact Split.interleave_append rfl (opensTrimming_commentChars c)
      (closesTrimming_commentChars c) s.others s'.others s'.first none s.first
  · -- The scanner reads the first side as before and then comes to the comment.
    have hbody : ∀ start, ∃ p, action start
        ('/' :: '*' :: '/' :: (c' ++ '*' :: '/' :: '\x7d' :: '\x7d' :: b.toList))
          = .error ⟨.textAfterComment, p⟩ :=
      action_of_slash (closing?_dropWhile_append_star hclosing _)
    obtain ⟨p, hp⟩ := Split.segmentsFrom_of_failing hbody hs hlast .start
    have hsource : Split.charsFrom s.first s.others ++ '\x7b' :: '\x7b' :: '/' :: '*' :: '/' ::
        (c' ++ '*' :: '/' :: '\x7d' :: '\x7d' :: b.toList) = (withComment a c b).toList := by
      rw [toList_withComment, hachars, hc']
      simp [commentChars, Split.chars]
    rw [hsource] at hp
    refine ⟨⟨.textAfterComment, p⟩, ?_, rfl⟩
    rw [tokensOf, ofSource, hp]
    rfl

/-- A comment of braces and stars between two texts, and one of a slash and a word. -/
theorem tokensOf_withComment_stars :
    (∃ ts us vs, tokensOf "a -" = .ok ts ∧ tokensOf " b" = .ok us
      ∧ tokensOf (withComment "a -" ['*', '\x7d', '\x7d', '*'] " b") = .ok vs
      ∧ vs.map PlacedToken.token = ts.map PlacedToken.token ++ us.map PlacedToken.token) ∧
    ∃ e, tokensOf (withComment "a -" ['/', 'x'] " b") = .error e ∧ e.cause = .textAfterComment := by
  obtain ⟨ts, hts⟩ : ∃ ts, tokensOf "a -" = .ok ts := Runs.exists_eq_ok (by decide +kernel)
  obtain ⟨us, hus⟩ : ∃ us, tokensOf " b" = .ok us := Runs.exists_eq_ok (by decide +kernel)
  have hlast : "a -".toList.getLast? ≠ some '\x7b' := by decide
  refine ⟨?_, ?_⟩
  · obtain ⟨vs, hvs, hkinds⟩ :=
      (tokensOf_withComment hts hus hlast (c := ['*', '\x7d', '\x7d', '*']) (by decide)).1 (by decide)
    exact ⟨ts, us, vs, hts, hus, hvs, hkinds⟩
  · exact (tokensOf_withComment hts hus hlast (c := ['/', 'x']) (by decide)).2 ['x'] rfl rfl

/-- A comment whose body is a slash does not vanish, although nothing is around it. -/
theorem not_tokensOf_withComment_slash :
    ¬ ∀ (a b : String) (ts us : List PlacedToken) (c : List Char),
      tokensOf a = .ok ts → tokensOf b = .ok us →
      (∀ s ∈ [a, b], ¬ ['\x7b', '\x7b', '-'] <:+: s.toList ∧ ¬ ['-', '\x7d', '\x7d'] <:+: s.toList) →
      a.toList.getLast? ≠ some '\x7b' → ¬ ['*', '/'] <:+: c →
      ∃ vs, tokensOf (withComment a c b) = .ok vs
        ∧ vs.map PlacedToken.token = ts.map PlacedToken.token ++ us.map PlacedToken.token := by
  intro h
  obtain ⟨ts, hts⟩ : ∃ ts, tokensOf "" = .ok ts := Runs.exists_eq_ok (by decide +kernel)
  obtain ⟨vs, hvs, -⟩ := h "" "" ts ts ['/'] hts hts (by decide) (by decide) (by decide)
  have hcause : (Runs.error? (tokensOf (withComment "" ['/'] ""))).map LexError.cause
      = some .textAfterComment := by
    decide +kernel
  rw [hvs] at hcause
  exact absurd hcause (by simp [Runs.error?])

end Stencil
