/-
Following keys into a value.

A field and the function `index` both follow keys through nested maps, and they differ in what they do
when there is no way on. A field leads nowhere, which counts as nothing. The function goes on from
nothing as well, whether it stands there or a key was missing, but it fails on anything else that is no
map. So the two agree unless a value that has no keys is asked for one.
-/
import Stencil.Template.Evaluation

set_option autoImplicit false

namespace Stencil

namespace Value

/-- Says that a value can be asked for a key: it is a map, or nothing. -/
def TakesKeys : Value → Prop
  | .map _ => True
  | .null => True
  | _ => False

/-- Says that on the way along keys the value `w` is reached with a key left, but takes none. -/
def StopsAt (v : Value) (ks : List String) (w : Value) : Prop :=
  ∃ front k behind, ks = front ++ k :: behind ∧ v.getPath? front = some w ∧ ¬ w.TakesKeys

variable {v w : Value} {k : String} {ks : List String}

theorem getPath?_map_cons (entries : List (String × Value)) (k : String) (ks : List String) :
    (map entries).getPath? (k :: ks) = (Entries.get? k entries).bind fun next => next.getPath? ks :=
  rfl

/-- Nothing has nothing under any key. -/
theorem getPath?_null_cons (k : String) (ks : List String) : null.getPath? (k :: ks) = none := rfl

theorem getPath?_cons_of_not_takesKeys (h : ¬ v.TakesKeys) (k : String) (ks : List String) :
    v.getPath? (k :: ks) = none := by
  cases v with
  | map entries => exact absurd trivial h
  | null => exact absurd trivial h
  | bool _ | int _ | float _ | string _ | list _ => rfl

/-- A path in two stretches is followed along the first and from there along the second. -/
theorem getPath?_append (v : Value) (ks ls : List String) :
    v.getPath? (ks ++ ls) = (v.getPath? ks).bind fun w => w.getPath? ls := by
  induction ks generalizing v with
  | nil => rw [List.nil_append, getPath?, Option.bind_some]
  | cons k ks ih =>
    rw [List.cons_append]
    cases v with
    | map entries =>
      rw [getPath?_map_cons, getPath?_map_cons]
      cases Entries.get? k entries with
      | none => rfl
      | some next => exact ih next
    | null => rw [getPath?_null_cons, getPath?_null_cons, Option.bind_none]
    | bool _ | int _ | float _ | string _ | list _ => rfl

/-! ## Where the way ends -/

theorem not_stopsAt_nil : ¬ v.StopsAt [] w := by
  rintro ⟨front, k, behind, hsplit, _, _⟩
  exact absurd hsplit (by simp)

/-- In a map the way goes on from what is under the key. -/
theorem stopsAt_map_cons_iff {entries : List (String × Value)} :
    (map entries).StopsAt (k :: ks) w
      ↔ ∃ next, Entries.get? k entries = some next ∧ next.StopsAt ks w := by
  constructor
  · rintro ⟨front, l, behind, hsplit, hreached, hkeys⟩
    cases front with
    | nil =>
      -- Before any key the way is at the map itself, which takes keys.
      rw [getPath?] at hreached
      rw [← Option.some.inj hreached] at hkeys
      exact absurd trivial hkeys
    | cons k' front =>
      rw [List.cons_append, List.cons.injEq] at hsplit
      obtain ⟨rfl, hrest⟩ := hsplit
      rw [getPath?_map_cons] at hreached
      obtain ⟨next, hnext, hreached⟩ := Option.bind_eq_some_iff.1 hreached
      exact ⟨next, hnext, front, l, behind, hrest, hreached, hkeys⟩
  · rintro ⟨next, hnext, front, l, behind, rfl, hreached, hkeys⟩
    refine ⟨k :: front, l, behind, rfl, ?_, hkeys⟩
    rw [getPath?_map_cons, hnext, Option.bind_some, hreached]

/-- Nothing is never in the way. -/
theorem not_stopsAt_null : ¬ null.StopsAt ks w := by
  rintro ⟨front, k, behind, _, hreached, hkeys⟩
  cases front with
  | nil =>
    rw [getPath?] at hreached
    rw [← Option.some.inj hreached] at hkeys
    exact hkeys trivial
  | cons l front =>
    rw [getPath?_null_cons] at hreached
    exact absurd hreached (by simp)

/-- What takes no keys ends the way at once. -/
theorem stopsAt_cons_iff_of_not_takesKeys (h : ¬ v.TakesKeys) : v.StopsAt (k :: ks) w ↔ w = v := by
  constructor
  · rintro ⟨front, l, behind, _, hreached, _⟩
    cases front with
    | nil =>
      rw [getPath?] at hreached
      exact (Option.some.inj hreached).symm
    | cons k' front =>
      rw [getPath?_cons_of_not_takesKeys h] at hreached
      exact absurd hreached (by simp)
  · rintro rfl
    exact ⟨[], k, ks, rfl, by rw [getPath?], h⟩

end Value

namespace Builtin

open Value

variable {v : Value} {k : String} {ks : List String}

/-! ## Following keys with `index` -/

theorem part_of_not_takesKeys (h : ¬ v.TakesKeys) (k : String) :
    part v (.string k) = .error (.notIndexable v.typeName "string") := by
  cases v with
  | map entries => exact absurd trivial h
  | null => exact absurd trivial h
  | bool _ | int _ | float _ | string _ | list _ => rfl

/-- From nothing, keys lead to nothing. -/
theorem foldlM_part_null (ks : List String) : (ks.map Value.string).foldlM part null = .ok null := by
  induction ks with
  | nil => rfl
  | cons k ks ih =>
    rw [List.map_cons, List.foldlM_cons]
    exact ih

/-- Following keys gives what the path leads to, or fails at the value that takes no key. The induction
is on the keys, and each of them is asked of the value that those in front of it have led to. -/
theorem lookUp_cases (v : Value) (ks : List String) :
    (lookUp (v :: ks.map .string) = .ok ((v.getPath? ks).getD .null) ∧ ∀ w, ¬ v.StopsAt ks w) ∨
      ∃ w, v.StopsAt ks w ∧ (∀ w', v.StopsAt ks w' → w' = w) ∧
        lookUp (v :: ks.map .string) = .error (.notIndexable w.typeName "string") := by
  show ((ks.map Value.string).foldlM part v = _ ∧ _) ∨
    ∃ w, _ ∧ _ ∧ (ks.map Value.string).foldlM part v = _
  induction ks generalizing v with
  | nil =>
    left
    refine ⟨?_, fun w => not_stopsAt_nil⟩
    rw [getPath?, Option.getD_some]
    rfl
  | cons k ks ih =>
    rw [List.map_cons, List.foldlM_cons]
    by_cases hkeys : v.TakesKeys
    · cases v with
      | map entries =>
        show ((ks.map Value.string).foldlM part ((Entries.get? k entries).getD .null) = _ ∧ _) ∨
          ∃ w, _ ∧ _ ∧ (ks.map Value.string).foldlM part ((Entries.get? k entries).getD .null) = _
        cases hnext : Entries.get? k entries with
        | none =>
          -- A key that is missing leads to nothing, and so do all behind it.
          left
          refine ⟨?_, ?_⟩
          · rw [getPath?_map_cons, hnext]
            exact foldlM_part_null ks
          · intro w hstops
            obtain ⟨next, hsome, _⟩ := stopsAt_map_cons_iff.1 hstops
            rw [hnext] at hsome
            exact absurd hsome (by simp)
        | some next =>
          have hstops : ∀ w, (map entries).StopsAt (k :: ks) w ↔ next.StopsAt ks w := by
            intro w
            rw [stopsAt_map_cons_iff, hnext]
            simp
          rw [getPath?_map_cons, hnext]
          simp only [hstops]
          exact ih next
      | null =>
        left
        refine ⟨?_, fun w => not_stopsAt_null⟩
        rw [getPath?_null_cons]
        exact foldlM_part_null ks
      | bool _ | int _ | float _ | string _ | list _ => exact absurd hkeys id
    · right
      have hstops : ∀ w, v.StopsAt (k :: ks) w ↔ w = v :=
        fun w => stopsAt_cons_iff_of_not_takesKeys hkeys
      refine ⟨v, (hstops v).2 rfl, fun w h => (hstops w).1 h, ?_⟩
      rw [part_of_not_takesKeys hkeys]
      rfl

/-- **A field and `index` lead to the same value.** What the function answers for a value and keys is
what the field of these keys is, whatever the template. It fails exactly if the keys lead through maps
to a value that is neither a map nor nothing, with a key left, and then names that value's type. And a
path in two stretches is followed one after the other. -/
theorem index_agrees_with_field (s : Scope) (v : Value) (ks ls : List String) :
    (∀ r, apply .index (v :: ks.map .string) = .ok r
      ↔ (∀ w, ¬ v.StopsAt ks w) ∧ s.operand v (.field ks) = .ok r) ∧
    s.operand v (.field ks) = .ok ((v.getPath? ks).getD .null) ∧
    (∀ e, apply .index (v :: ks.map .string) = .error e
      ↔ ∃ w, v.StopsAt ks w ∧ e = .notIndexable w.typeName "string") ∧
    v.getPath? (ks ++ ls) = (v.getPath? ks).bind fun w => w.getPath? ls := by
  have hfield : s.operand v (.field ks) = .ok ((v.getPath? ks).getD .null) := by
    rw [Scope.operand]
    rfl
  refine ⟨?_, hfield, ?_, getPath?_append v ks ls⟩
  · intro r
    show lookUp (v :: ks.map .string) = _ ↔ _
    rw [hfield]
    rcases lookUp_cases v ks with ⟨hok, hfree⟩ | ⟨w, hstops, _, herror⟩
    · rw [hok]
      rw [Except.ok.injEq, Except.ok.injEq]
      exact ⟨fun h => ⟨hfree, h⟩, fun h => h.2⟩
    · rw [herror]
      exact iff_of_false (by simp) fun h => h.1 w hstops
  · intro e
    show lookUp (v :: ks.map .string) = _ ↔ _
    rcases lookUp_cases v ks with ⟨hok, hfree⟩ | ⟨w, hstops, hunique, herror⟩
    · rw [hok]
      refine iff_of_false (by simp) ?_
      rintro ⟨w, hstops, _⟩
      exact hfree w hstops
    · rw [herror]
      constructor
      · intro h
        exact ⟨w, hstops, (Except.error.inj h).symm⟩
      · rintro ⟨w', hstops', rfl⟩
        rw [hunique w' hstops']

/-- A missing key is nothing to both, and a list in the way is a failure of one. -/
example : apply .index [Value.ofEntries [("a", .list [.null])], .string "b", .string "c"] = .ok .null ∧
    apply .index [Value.ofEntries [("a", .list [.null])], .string "a", .string "c"]
      = .error (.notIndexable "list" "string") := ⟨rfl, rfl⟩

end Builtin

end Stencil
