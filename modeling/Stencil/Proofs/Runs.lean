/-
Loops that stop at the first failure.

Sources, files and tokens are all taken one after the other by `foldlM` in a monad where a failure
ends the loop. The lemmas on single steps take such a computation apart from its result, and the
loop lemma carries a property indexed by the processed prefix over a whole loop, so that a fact
about a run is proved by saying what one step does.
-/
import Stencil.Site.Event

set_option autoImplicit false

namespace Stencil.Runs

variable {ε α β : Type}

/-- A computation in two parts succeeds exactly if both parts do. -/
theorem bind_eq_ok {x : Except ε α} {f : α → Except ε β} {b : β} :
    x.bind f = .ok b ↔ ∃ a, x = .ok a ∧ f a = .ok b := by
  cases x with
  | error e => simp [Except.bind]
  | ok a => simp [Except.bind]

/-- `bind_eq_ok` for `do` blocks. -/
theorem monad_bind_eq_ok {x : Except ε α} {f : α → Except ε β} {b : β} :
    x >>= f = .ok b ↔ ∃ a, x = .ok a ∧ f a = .ok b :=
  bind_eq_ok

/-- A computation in two parts fails in one of them. -/
theorem monad_bind_eq_error {x : Except ε α} {f : α → Except ε β} {e : ε} :
    x >>= f = .error e ↔ x = .error e ∨ ∃ a, x = .ok a ∧ f a = .error e := by
  cases x with
  | error e' => simp [bind, Except.bind]
  | ok a => simp [bind, Except.bind]

/-- `bind_eq_ok` for computations that report what they do. -/
theorem traced_bind_eq_ok {t : Traced ε α} {f : α → Traced ε β} {b : β} :
    (t >>= f).result = .ok b ↔ ∃ a, t.result = .ok a ∧ (f a).result = .ok b := by
  rw [Traced.result_bind]
  exact bind_eq_ok

theorem bind_ok_eq_map {x : Except ε α} {f : α → β} : (x >>= fun a => .ok (f a)) = x.map f := by
  cases x with
  | error e => rfl
  | ok a => rfl

theorem mapError_eq_ok {ε' : Type} {f : ε → ε'} {x : Except ε α} {a : α} :
    x.mapError f = .ok a ↔ x = .ok a := by
  cases x with
  | error e =>
    show Except.error (f e) = .ok a ↔ Except.error e = .ok a
    simp
  | ok b =>
    show Except.ok b = .ok a ↔ Except.ok b = .ok a
    simp

theorem toOption_eq_some {x : Except ε α} {a : α} : x.toOption = some a ↔ x = .ok a := by
  cases x with
  | error e => simp [Except.toOption]
  | ok b => simp [Except.toOption]

/-- That a run succeeds can be computed even where its result cannot be compared. -/
theorem exists_eq_ok {x : Except ε α} (h : x.toOption.isSome = true) : ∃ a, x = .ok a := by
  obtain ⟨a, ha⟩ := Option.isSome_iff_exists.1 h
  exact ⟨a, toOption_eq_some.1 ha⟩

/-- The error of a run, if it fails. -/
def error? : Except ε α → Option ε
  | .error e => some e
  | .ok _ => none

theorem error?_eq_some {x : Except ε α} {e : ε} : error? x = some e ↔ x = .error e := by
  cases x with
  | error e' => simp [error?]
  | ok a => simp [error?]

/-- A loop that succeeds carries an invariant on, from the elements that are done to all of them.
The induction is on the elements that are left. -/
theorem foldlM_invariant_append {step : β → α → Except ε β} (inv : List α → β → Prop)
    (hstep : ∀ (done : List α) (a : α) (b b' : β),
      inv done b → step b a = .ok b' → inv (done ++ [a]) b')
    {done as : List α} {b b' : β} (h : inv done b) (hrun : as.foldlM step b = .ok b') :
    inv (done ++ as) b' := by
  induction as generalizing done b with
  | nil =>
    have hb : b = b' := by
      rw [List.foldlM_nil] at hrun
      exact Except.ok.inj hrun
    rw [List.append_nil, ← hb]
    exact h
  | cons a rest ih =>
    rw [List.foldlM_cons] at hrun
    obtain ⟨next, hnext, hrest⟩ := monad_bind_eq_ok.1 hrun
    have hinv : inv (done ++ [a] ++ rest) b' := ih (hstep done a b next h hnext) hrest
    rwa [List.append_assoc] at hinv

/-- What one step adds to what has been done, a loop that succeeds does for all its elements. -/
theorem foldlM_invariant {step : β → α → Except ε β} (inv : List α → β → Prop)
    (hstep : ∀ (done : List α) (a : α) (b b' : β),
      inv done b → step b a = .ok b' → inv (done ++ [a]) b')
    {as : List α} {b b' : β} (h : inv [] b) (hrun : as.foldlM step b = .ok b') :
    inv as b' :=
  foldlM_invariant_append inv hstep h hrun

/-- `foldlM_invariant` for loops that report what they do. -/
theorem traced_foldlM_invariant {step : β → α → Traced ε β} (inv : List α → β → Prop)
    (hstep : ∀ (done : List α) (a : α) (b b' : β),
      inv done b → (step b a).result = .ok b' → inv (done ++ [a]) b')
    {as : List α} {b b' : β} (h : inv [] b) (hrun : (as.foldlM step b).result = .ok b') :
    inv as b' := by
  rw [Traced.result_foldlM] at hrun
  exact foldlM_invariant inv hstep h hrun

end Stencil.Runs
