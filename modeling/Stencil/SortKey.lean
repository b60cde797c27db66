/-
Keys that can be sorted.

Tables keep their keys in order, so that a listing needs no sorting and two tables with the same
contents are the same table. The order is a test on two keys together with the three laws that make
it a strict total order; keeping the laws beside the test lets every table rely on them without
carrying them as hypotheses.
-/

set_option autoImplicit false

namespace Stencil

/-- A type with a strict total order given by a test. -/
class SortKey (κ : Type) where
  before : κ → κ → Bool
  irrefl : ∀ a, before a a = false
  trans : ∀ a b c, before a b = true → before b c = true → before a c = true
  total : ∀ a b, a ≠ b → before a b = true ∨ before b a = true

namespace SortKey

variable {κ : Type} [SortKey κ]

/-- Of two keys at most one comes before the other. -/
theorem asymm {a b : κ} (h : before a b = true) : before b a = false := by
  cases hba : before b a with
  | false => rfl
  | true =>
    have haa : before a a = true := trans a b a h hba
    rw [irrefl] at haa
    exact absurd haa (by decide)

/-- A key that comes before another is a different key. -/
theorem ne_of_before {a b : κ} (h : before a b = true) : a ≠ b := by
  intro hab
  rw [hab, irrefl] at h
  exact absurd h (by decide)

end SortKey

/-! ## Strings -/

/-- Strings in the order of their characters' code points, which is also the order of the bytes
that encode them. -/
instance : SortKey String where
  before a b := decide (a < b)
  irrefl a := by simp
  trans a b c hab hbc := by
    simp only [decide_eq_true_eq] at hab hbc ⊢
    exact String.lt_trans hab hbc
  total a b hab := by
    simp only [decide_eq_true_eq]
    exact Decidable.or_iff_not_imp_left.2 fun h => Decidable.byContradiction fun h' =>
      hab (String.le_antisymm (String.not_lt.1 h') (String.not_lt.1 h))

/-! ## Lists -/

/-- Whether a list comes before another: the first place where they differ decides, and a list comes
before its own continuations. -/
def SortKey.listBefore {κ : Type} [SortKey κ] : List κ → List κ → Bool
  | _, [] => false
  | [], _ :: _ => true
  | a :: as, b :: bs => before a b || (!before b a && listBefore as bs)

/-- Lists of keys in the order of a dictionary. -/
instance {κ : Type} [SortKey κ] [DecidableEq κ] : SortKey (List κ) where
  before := SortKey.listBefore
  irrefl a := by
    induction a with
    | nil => rfl
    | cons x xs ih => simp [SortKey.listBefore, SortKey.irrefl, ih]
  trans a b c hab hbc := by
    induction a generalizing b c with
    | nil =>
      match b, c with
      | [], _ => simp [SortKey.listBefore] at hab
      | _ :: _, [] => simp [SortKey.listBefore] at hbc
      | _ :: _, _ :: _ => rfl
    | cons x xs ih =>
      match b, c with
      | [], _ => simp [SortKey.listBefore] at hab
      | _ :: _, [] => simp [SortKey.listBefore] at hbc
      | y :: ys, z :: zs =>
        simp only [SortKey.listBefore, Bool.or_eq_true, Bool.and_eq_true, Bool.not_eq_true'] at hab hbc ⊢
        by_cases hxy : x = y
        · subst hxy
          rcases hbc with hxz | ⟨hzx, htail⟩
          · exact Or.inl hxz
          · rcases hab with hxx | ⟨_, hhead⟩
            · rw [SortKey.irrefl] at hxx
              exact absurd hxx (by decide)
            · exact Or.inr ⟨hzx, ih ys zs hhead htail⟩
        · have hxy' : SortKey.before x y = true := by
            rcases hab with h | ⟨h, _⟩
            · exact h
            · rcases SortKey.total x y hxy with h' | h'
              · exact h'
              · rw [h] at h'
                exact absurd h' (by decide)
          by_cases hyz : y = z
          · subst hyz
            exact Or.inl hxy'
          · rcases hbc with h | ⟨h, _⟩
            · exact Or.inl (SortKey.trans x y z hxy' h)
            · rcases SortKey.total y z hyz with h' | h'
              · exact Or.inl (SortKey.trans x y z hxy' h')
              · rw [h] at h'
                exact absurd h' (by decide)
  total a b hab := by
    induction a generalizing b with
    | nil =>
      match b with
      | [] => exact absurd rfl hab
      | _ :: _ => exact Or.inl rfl
    | cons x xs ih =>
      match b with
      | [] => exact Or.inr rfl
      | y :: ys =>
        simp only [SortKey.listBefore, Bool.or_eq_true, Bool.and_eq_true, Bool.not_eq_true']
        by_cases hxy : x = y
        · subst hxy
          have htails : xs ≠ ys := fun h => hab (by rw [h])
          rcases ih ys htails with h | h
          · exact Or.inl (Or.inr ⟨SortKey.irrefl x, h⟩)
          · exact Or.inr (Or.inr ⟨SortKey.irrefl x, h⟩)
        · rcases SortKey.total x y hxy with h | h
          · exact Or.inl (Or.inl h)
          · exact Or.inr (Or.inl h)

end Stencil
