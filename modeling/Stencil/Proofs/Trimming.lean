/-
Trim markers trim the texts next to them and nothing else.

A text loses the blanks at its start if the action before it ends with a trim marker, and those at its
end if the action behind it begins with one, where comments count as actions. The tokens of a source
are its texts, trimmed so and without those that are then empty, and between them what its actions
give by themselves.
-/
import Stencil.Proofs.Splits

set_option autoImplicit false

namespace Stencil

open Segments

/-! ## Texts and their neighbours -/

/-- What is left of a text between two actions, one of which or both may be missing. -/
def trimmed (before : Option ActionText) (t : List Char) (after : Option ActionText) : List Char :=
  let kept := if before.any (closesTrimming ·.chars) then Text.trimStart t else t
  if after.any (opensTrimming ·.chars) then Text.trimEnd kept else kept

/-- The text that a token is, if it is one. -/
def Token.text? : Token → Option String
  | .text s => some s
  | _ => none

/-- Texts and actions as tokens, in turn. An empty text gives none. -/
def interleave : List (List Char) → List ActionText → List Token
  | t :: ts, a :: as => tokensOfText t ++ a.tokens ++ interleave ts as
  | ts, _ => ts.flatMap tokensOfText

namespace Split

/-- The texts as they stand in the source. -/
def texts (s : Split) : List (List Char) := s.first :: s.others.map Prod.snd

/-- The actions and comments. -/
def actions (s : Split) : List ActionText := s.others.map Prod.fst

/-- The texts as trim markers leave them, each between the action before it and the one behind it. -/
def keptTexts (s : Split) : List (List Char) :=
  ((none :: s.actions.map some).zip (s.texts.zip (s.actions.map some ++ [none]))).map
    fun p => trimmed p.1 p.2.1 p.2.2

/-- Says how the tokens of a source come from the texts and actions that it is split into. -/
structure Yields (s : Split) (ts : List PlacedToken) : Prop where
  /-- Texts and actions are those that the scanner has found. -/
  scanned : ∃ segments, ofSource (String.ofList s.chars) = .ok segments
    ∧ segments.first.chars :: segments.others.map (·.2.chars) = s.texts
    ∧ segments.others.map (·.1.tokens.map PlacedToken.token) = s.actions.map ActionText.tokens
  tokens : ts.map PlacedToken.token = interleave s.keptTexts s.actions
  texts : ts.filterMap (·.token.text?) = (s.keptTexts.filter (!·.isEmpty)).map String.ofList
  actions : (ts.map PlacedToken.token).filter (·.text?.isNone) = s.actions.flatMap ActionText.tokens

/-! ## From one text to the next

The induction over a split carries the action before the text that it has come to. -/

/-- The texts behind an action as trim markers leave them. -/
def keptFrom (before : Option ActionText) (t : List Char) :
    List (ActionText × List Char) → List (List Char)
  | [] => [trimmed before t none]
  | (a, next) :: more => trimmed before t (some a) :: keptFrom (some a) next more

theorem keptTexts_eq (s : Split) : s.keptTexts = keptFrom none s.first s.others := by
  have hfrom : ∀ (others : List (ActionText × List Char)) (before : Option ActionText)
      (t : List Char), ((before :: (others.map Prod.fst).map some).zip
        ((t :: others.map Prod.snd).zip ((others.map Prod.fst).map some ++ [none]))).map
          (fun p => trimmed p.1 p.2.1 p.2.2) = keptFrom before t others := by
    intro others
    -- The list of actions before the texts is the one behind them, later by one.
    induction others with
    | nil => exact fun _ _ => rfl
    | cons p more ih =>
      intro before t
      have hmore := ih (some p.1) p.2
      simp only [List.map_cons, List.cons_append, List.zip_cons_cons, keptFrom] at hmore ⊢
      rw [hmore]
  exact hfrom s.others none s.first

end Split

/-- The token of a text is what its neighbours leave of it. -/
theorem RawText.tokens_map_token (r : RawText) (before after : Option ActionText) :
    (r.tokens (before.any (closesTrimming ·.chars)) (after.any (opensTrimming ·.chars))).map
      PlacedToken.token = tokensOfText (trimmed before r.chars after) := by
  have hdrop : r.chars.drop (r.chars.takeWhile Text.isBlank).length = Text.trimStart r.chars := by
    rw [Text.trimStart]
    conv =>
      lhs
      arg 2
      rw [← List.takeWhile_append_dropWhile (p := Text.isBlank) (l := r.chars)]
    exact List.drop_left
  have hkept : r.chars.drop
      (if before.any (closesTrimming ·.chars) then r.chars.takeWhile Text.isBlank else []).length
        = if before.any (closesTrimming ·.chars) then Text.trimStart r.chars else r.chars := by
    split
    · exact hdrop
    · rfl
  unfold RawText.tokens trimmed
  simp only [hkept]
  generalize (if after.any (opensTrimming ·.chars) then Text.trimEnd _ else _) = kept
  cases kept with
  | nil => rfl
  | cons c kept => rfl

namespace Split

/-- The tokens from a text on, `before` being the action in front of it. -/
theorem tokensFrom_of_matches {read : List (Action × RawText)}
    {others : List (ActionText × List Char)} (h : List.Forall₂ Matches read others) :
    ∀ (before : Option ActionText) (r : RawText),
      (tokensFrom (before.any (closesTrimming ·.chars)) r read).map PlacedToken.token
        = interleave (keptFrom before r.chars others) (others.map Prod.fst) := by
  induction h with
  | nil =>
    intro before r
    have htext := r.tokens_map_token before none
    simpa [tokensFrom, keptFrom, interleave] using htext
  | @cons p given _ _ hp _ ih =>
    intro before r
    obtain ⟨a, next⟩ := given
    have htext := r.tokens_map_token before (some a)
    have hmore := ih (some a) p.2
    simp only [Option.any_some] at htext hmore
    rw [keptFrom, List.map_cons, interleave, tokensFrom, List.map_append, List.map_append, hp.before,
      htext, hp.tokens, hp.after, hmore, hp.text]

/-! ## Texts and actions told apart -/

theorem text?_of_isInside {t : Token} (h : t.isInside = true) : t.text? = none := by
  cases t with
  | text s => exact absurd h Bool.false_ne_true
  | _ => rfl

theorem text?_of_mem_isRead {a : ActionText} (h : a.IsRead) {t : Token} (ht : t ∈ a.tokens) :
    t.text? = none := by
  rcases (a.isRead_iff.1 h).tokens with hnil | ⟨inner, htokens, hinner⟩
  · rw [hnil] at ht
    exact absurd ht List.not_mem_nil
  · rw [htokens, List.cons_append, List.mem_cons, List.mem_append, List.mem_singleton] at ht
    rcases ht with rfl | ht | rfl
    · rfl
    · exact text?_of_isInside (hinner t ht)
    · rfl

theorem filterMap_text?_tokensOfText (t : List Char) :
    (tokensOfText t).filterMap Token.text? = ([t].filter (!·.isEmpty)).map String.ofList := by
  cases t with
  | nil => rfl
  | cons c t => rfl

theorem filter_tokensOfText (t : List Char) : (tokensOfText t).filter (·.text?.isNone) = [] := by
  cases t with
  | nil => rfl
  | cons c t => rfl

theorem isRead_of_properFrom {others : List (ActionText × List Char)} :
    ∀ {t : List Char}, ProperFrom t others → ∀ a ∈ others.map Prod.fst, a.IsRead := by
  induction others with
  | nil => exact fun _ _ ha => absurd ha List.not_mem_nil
  | cons p more ih =>
    rintro t ⟨-, hread, hmore⟩ a ha
    rcases List.mem_cons.1 ha with rfl | ha
    · exact hread
    · exact ih hmore a ha

/-- Among the tokens, the texts are those that are not empty. -/
theorem filterMap_interleave {others : List (ActionText × List Char)}
    (h : ∀ a ∈ others.map Prod.fst, a.IsRead) : ∀ (before : Option ActionText) (t : List Char),
      (interleave (keptFrom before t others) (others.map Prod.fst)).filterMap Token.text?
        = ((keptFrom before t others).filter (!·.isEmpty)).map String.ofList := by
  induction others with
  | nil =>
    intro before t
    have htext := filterMap_text?_tokensOfText (trimmed before t none)
    simpa [keptFrom, interleave] using htext
  | cons p more ih =>
    intro before t
    have hnone : p.1.tokens.filterMap Token.text? = [] := by
      rw [List.filterMap_eq_nil_iff]
      exact fun u hu => text?_of_mem_isRead (h p.1 List.mem_cons_self) hu
    have htext := filterMap_text?_tokensOfText (trimmed before t (some p.1))
    have hmore := ih (fun a ha => h a (List.mem_cons_of_mem _ ha)) (some p.1) p.2
    rw [keptFrom, List.map_cons, interleave, List.filterMap_append, List.filterMap_append, htext,
      hnone, hmore, List.append_nil, ← List.map_append, ← List.filter_append, List.singleton_append]

/-- The other tokens are those of the actions. -/
theorem filter_interleave {others : List (ActionText × List Char)}
    (h : ∀ a ∈ others.map Prod.fst, a.IsRead) : ∀ (before : Option ActionText) (t : List Char),
      (interleave (keptFrom before t others) (others.map Prod.fst)).filter (·.text?.isNone)
        = (others.map Prod.fst).flatMap ActionText.tokens := by
  induction others with
  | nil =>
    intro before t
    have htext := filter_tokensOfText (trimmed before t none)
    simpa [keptFrom, interleave] using htext
  | cons p more ih =>
    intro before t
    have hall : p.1.tokens.filter (·.text?.isNone) = p.1.tokens := by
      rw [List.filter_eq_self]
      intro u hu
      rw [text?_of_mem_isRead (h p.1 List.mem_cons_self) hu]
      rfl
    have htext := filter_tokensOfText (trimmed before t (some p.1))
    have hmore := ih (fun a ha => h a (List.mem_cons_of_mem _ ha)) (some p.1) p.2
    rw [keptFrom, List.map_cons, interleave, List.filter_append, List.filter_append, htext, hall,
      hmore, List.nil_append, List.flatMap_cons]

/-! ## The tokens of a source -/

/-- What the scanner and a split have in common is the same along the whole source. -/
theorem map_eq_of_matches {α : Type} {read : List (Action × RawText)}
    {others : List (ActionText × List Char)} {f : Action × RawText → α}
    {g : ActionText × List Char → α} (hfg : ∀ {p q}, Matches p q → f p = g q)
    (h : List.Forall₂ Matches read others) : read.map f = others.map g := by
  rw [← List.forall₂_eq_eq_eq, List.forall₂_map_left_iff, List.forall₂_map_right_iff]
  exact h.imp fun _ _ => hfg

/-- A source that is put together from texts and actions has tokens, and they come from these. -/
theorem yields_of_proper {s : Split} (h : s.Proper) :
    ∃ ts, tokensOf (String.ofList s.chars) = .ok ts ∧ s.Yields ts := by
  obtain ⟨segments, hsegments, hfirst, hmatches⟩ := segmentsFrom_of_proper h .start
  have hscanned : ofSource (String.ofList s.chars) = .ok segments := by
    rw [ofSource, String.toList_ofList]
    exact hsegments
  have hreads : ∀ a ∈ s.actions, a.IsRead := isRead_of_properFrom h
  have htokens : segments.tokens.map PlacedToken.token = interleave s.keptTexts s.actions := by
    have hall := tokensFrom_of_matches hmatches none segments.first
    rw [hfirst] at hall
    rw [keptTexts_eq]
    exact hall
  refine ⟨segments.tokens, ?_, ⟨segments, hscanned, ?_, ?_⟩, htokens, ?_, ?_⟩
  · rw [tokensOf, hscanned]
    rfl
  · have htexts : segments.others.map (·.2.chars) = s.others.map Prod.snd :=
      map_eq_of_matches Matches.text hmatches
    rw [hfirst, htexts]
    rfl
  · rw [actions, List.map_map]
    exact map_eq_of_matches Matches.tokens hmatches
  · have hkinds : segments.tokens.filterMap (·.token.text?)
        = (segments.tokens.map PlacedToken.token).filterMap Token.text? := by
      rw [List.filterMap_map]
      rfl
    rw [hkinds, htokens, keptTexts_eq]
    exact filterMap_interleave hreads none s.first
  · rw [htokens, keptTexts_eq]
    exact filter_interleave hreads none s.first

/-- A source that has tokens is split into texts and actions. -/
theorem exists_proper_of_tokensOf {source : String} {ts : List PlacedToken}
    (h : tokensOf source = .ok ts) : ∃ s : Split, s.Proper ∧ String.ofList s.chars = source := by
  obtain ⟨segments, hsegments, -⟩ := Runs.monad_bind_eq_ok.1 h
  rw [ofSource, ← Position.behind_nil] at hsegments
  obtain ⟨t, others, hproper, hchars⟩ := exists_proper hsegments
  refine ⟨⟨t, others⟩, hproper, ?_⟩
  rw [chars, hchars, String.ofList_toList]

/-- **Trim markers trim exactly the adjacent texts.** A source with tokens is split into texts and
actions in one way, the scanner's; what is left of each text depends on it and on the actions next to
it only, and with other texts between them the actions give the same tokens. -/
theorem texts_trimmed_by_adjacent_actions {source : String} {ts : List PlacedToken}
    (h : tokensOf source = .ok ts) :
    ∃ s : Split, s.Proper ∧ String.ofList s.chars = source
      ∧ (∀ s' : Split, s'.Proper → String.ofList s'.chars = source → s' = s)
      ∧ s.Yields ts
      ∧ ∀ s' : Split, s'.Proper → s'.actions = s.actions →
        ∃ ts', tokensOf (String.ofList s'.chars) = .ok ts' ∧ s'.Yields ts'
          ∧ (ts'.map PlacedToken.token).filter (·.text?.isNone)
            = (ts.map PlacedToken.token).filter (·.text?.isNone) := by
  obtain ⟨s, hproper, hchars⟩ := exists_proper_of_tokensOf h
  obtain ⟨read, hread, hyields⟩ := yields_of_proper hproper
  have hts : read = ts := by
    rw [hchars] at hread
    exact Except.ok.inj (hread.symm.trans h)
  rw [hts] at hyields
  refine ⟨s, hproper, hchars, ?_, hyields, ?_⟩
  · intro s' hproper' hchars'
    have heq : s'.chars = s.chars := by
      rw [← String.toList_ofList (l := s'.chars), hchars', ← hchars, String.toList_ofList]
    obtain ⟨hfirst, hothers⟩ := eq_of_charsFrom_eq hproper' hproper heq
    exact Split.ext hfirst hothers
  · intro s' hproper' hactions
    obtain ⟨ts', hts', hyields'⟩ := yields_of_proper hproper'
    refine ⟨ts', hts', hyields', ?_⟩
    rw [hyields'.actions, hyields.actions, hactions]

/-- A blank text between two actions that both trim it, and a text behind a comment that does. -/
theorem texts_trimmed_by_adjacent_actions_blank :
    ∃ ts, tokensOf "a \x7b\x7b- .x -\x7d\x7d\n\x7b\x7b- /* c */ -\x7d\x7d b " = .ok ts
      ∧ ts.filterMap (·.token.text?) = ["a", "b "]
      ∧ ∃ s : Split, s.Proper ∧ s.Yields ts ∧ (⟨['z', ' '], s.others⟩ : Split).Proper
        ∧ ∃ ts', tokensOf (String.ofList (⟨['z', ' '], s.others⟩ : Split).chars) = .ok ts' := by
  have htexts : (tokensOf "a \x7b\x7b- .x -\x7d\x7d\n\x7b\x7b- /* c */ -\x7d\x7d b ").toOption.map
      (fun ts => ts.filterMap (·.token.text?)) = some ["a", "b "] := by
    decide +kernel
  obtain ⟨ts, hts, hkept⟩ := Option.map_eq_some_iff.1 htexts
  rw [Runs.toOption_eq_some] at hts
  obtain ⟨s, hproper, -, -, hyields, hothers⟩ := texts_trimmed_by_adjacent_actions hts
  have hplain : NoOpening ['z', ' '] ∧ ¬ ['\x7b', '\x7b'] <:+: ['z', ' '] :=
    ⟨⟨by decide, by decide⟩, by decide⟩
  have hproper' : (⟨['z', ' '], s.others⟩ : Split).Proper := by
    unfold Proper at hproper ⊢
    cases hs : s.others with
    | nil => exact hplain.2
    | cons p more =>
      rw [hs] at hproper
      exact ⟨hplain.1, hproper.2⟩
  obtain ⟨ts', hts', -⟩ := hothers ⟨['z', ' '], s.others⟩ hproper' rfl
  exact ⟨ts, hts, hkept, s, hproper, hyields, hproper', ts', hts'⟩

end Split

end Stencil
