/-
Tables from keys to values, kept in the order of their keys.

A table is a list of entries with strictly ascending keys. There is one list for each finite
assignment of values to keys, so tables with equal look-ups are equal, listings come out sorted, and
inserting in any order gives the same table. Values that contain themselves, such as nested maps,
use the operations on plain lists of entries, which are stated first; how a row of entries is searched
by halving is stated with them.
-/
import Stencil.SortKey

set_option autoImplicit false

namespace Stencil

/-! ## Entries -/

namespace Entries

variable {κ α : Type} [DecidableEq κ]

/-- The value under a key. -/
def get? (k : κ) : List (κ × α) → Option α
  | [] => none
  | (k', v) :: rest => if k = k' then some v else get? k rest

/-- The entries with the value under `k` set: replaced where the key stands already, else put in
front of the first later key. -/
def insert [SortKey κ] (k : κ) (v : α) : List (κ × α) → List (κ × α)
  | [] => [(k, v)]
  | (k', v') :: rest =>
    if k = k' then (k, v) :: rest
    -- All later keys are greater still, so this is the place.
    else if SortKey.before k k' then (k, v) :: (k', v') :: rest
    else (k', v') :: insert k v rest

/-- The entries with the keys in ascending order, the last of the values given for a key. -/
def ofList [SortKey κ] (entries : List (κ × α)) : List (κ × α) :=
  entries.foldl (fun acc e => insert e.1 e.2 acc) []

/-- Ascending keys, each at most once. -/
def Sorted [SortKey κ] (entries : List (κ × α)) : Prop :=
  entries.Pairwise fun a b => SortKey.before a.1 b.1 = true

theorem get?_insert [SortKey κ] (k k' : κ) (v : α) (entries : List (κ × α)) :
    get? k' (insert k v entries) = if k' = k then some v else get? k' entries := by
  induction entries with
  | nil => rfl
  | cons e rest ih =>
    obtain ⟨k₀, v₀⟩ := e
    unfold insert
    by_cases hk : k = k₀
    · subst hk
      by_cases hk' : k' = k
      · rw [if_pos rfl, get?, if_pos hk', if_pos hk']
      · rw [if_pos rfl, get?, if_neg hk', if_neg hk', get?, if_neg hk']
    · rw [if_neg hk]
      split
      · rfl
      · simp only [get?, ih]
        by_cases h₀ : k' = k₀
        · have hne : k' ≠ k := fun h => hk (h.symm.trans h₀)
          rw [if_pos h₀, if_neg hne, if_pos h₀]
        · rw [if_neg h₀, if_neg h₀]

theorem mem_keys_insert [SortKey κ] {k x : κ} {v : α} {entries : List (κ × α)}
    (h : x ∈ (insert k v entries).map Prod.fst) : x = k ∨ x ∈ entries.map Prod.fst := by
  induction entries with
  | nil => exact Or.inl (by simpa [insert] using h)
  | cons e rest ih =>
    obtain ⟨k₀, v₀⟩ := e
    unfold insert at h
    split at h
    · rename_i hk
      rcases List.mem_cons.1 h with h | h
      · exact Or.inl h
      · exact Or.inr (List.mem_cons_of_mem _ h)
    · split at h
      · rcases List.mem_cons.1 h with h | h
        · exact Or.inl h
        · exact Or.inr h
      · rcases List.mem_cons.1 h with h | h
        · exact Or.inr (List.mem_cons.2 (Or.inl h))
        · rcases ih h with h | h
          · exact Or.inl h
          · exact Or.inr (List.mem_cons_of_mem _ h)

theorem Sorted.insert [SortKey κ] {entries : List (κ × α)} (h : Sorted entries) (k : κ) (v : α) :
    Sorted (Entries.insert k v entries) := by
  induction entries with
  | nil => exact List.pairwise_singleton _ _
  | cons e rest ih =>
    obtain ⟨k₀, v₀⟩ := e
    have hrest : Sorted rest := (List.pairwise_cons.1 h).2
    have hfirst : ∀ b ∈ rest, SortKey.before k₀ b.1 = true := (List.pairwise_cons.1 h).1
    unfold Entries.insert
    by_cases hk : k = k₀
    · subst hk
      rw [if_pos rfl]
      exact List.pairwise_cons.2 ⟨hfirst, hrest⟩
    · rw [if_neg hk]
      by_cases hlt : SortKey.before k k₀ = true
      · rw [if_pos hlt]
        refine List.pairwise_cons.2 ⟨?_, h⟩
        intro b hb
        rcases List.mem_cons.1 hb with rfl | hb
        · exact hlt
        · exact SortKey.trans k k₀ b.1 hlt (hfirst b hb)
      · rw [if_neg hlt]
        have hgt : SortKey.before k₀ k = true := (SortKey.total k k₀ hk).resolve_left hlt
        refine List.pairwise_cons.2 ⟨?_, ih hrest⟩
        intro b hb
        have hmem : b.1 ∈ (Entries.insert k v rest).map Prod.fst := List.mem_map_of_mem hb
        rcases mem_keys_insert hmem with h' | h'
        · rw [h']
          exact hgt
        · obtain ⟨c, hc, hcb⟩ := List.mem_map.1 h'
          rw [← hcb]
          exact hfirst c hc

/-- A key in front of all others is not among them. -/
theorem get?_eq_none_of_before [SortKey κ] {k : κ} {entries : List (κ × α)}
    (h : ∀ b ∈ entries, SortKey.before k b.1 = true) : get? k entries = none := by
  induction entries with
  | nil => rfl
  | cons e rest ih =>
    have hne : k ≠ e.1 := SortKey.ne_of_before (h e List.mem_cons_self)
    rw [get?, if_neg hne]
    exact ih fun b hb => h b (List.mem_cons_of_mem _ hb)

/-- A key that looks something up stands among the entries. -/
theorem mem_keys_of_get? {k : κ} {v : α} {entries : List (κ × α)} (h : get? k entries = some v) :
    (k, v) ∈ entries := by
  induction entries with
  | nil => simp [get?] at h
  | cons e rest ih =>
    obtain ⟨k₀, v₀⟩ := e
    by_cases hk : k = k₀
    · rw [get?, if_pos hk] at h
      rw [hk, ← Option.some.inj h]
      exact List.mem_cons_self
    · rw [get?, if_neg hk] at h
      exact List.mem_cons_of_mem _ (ih h)

/-- An entry is what its key looks up, since no key stands twice. -/
theorem Sorted.get?_of_mem [SortKey κ] {k : κ} {v : α} {entries : List (κ × α)}
    (h : Sorted entries) (hmem : (k, v) ∈ entries) : get? k entries = some v := by
  induction entries with
  | nil => exact absurd hmem (by simp)
  | cons e rest ih =>
    rcases List.mem_cons.1 hmem with rfl | hrest
    · rw [get?, if_pos rfl]
    · have hfirst : SortKey.before e.1 k = true := (List.pairwise_cons.1 h).1 (k, v) hrest
      rw [get?, if_neg (Ne.symm (SortKey.ne_of_before hfirst))]
      exact ih (List.pairwise_cons.1 h).2 hrest

theorem get?_erase (k k' : κ) (entries : List (κ × α)) :
    get? k' (entries.filter fun e => e.1 ≠ k) = if k' = k then none else get? k' entries := by
  induction entries with
  | nil => simp [get?]
  | cons e rest ih =>
    by_cases he : e.1 = k
    · rw [List.filter_cons_of_neg (by simp [he]), ih, get?]
      by_cases hk : k' = k
      · rw [if_pos hk, if_pos hk]
      · rw [if_neg hk, if_neg hk, if_neg fun h => hk (h.trans he)]
    · rw [List.filter_cons_of_pos (by simp [he]), get?, ih, get?]
      by_cases hk : k' = k
      · rw [if_pos hk, if_pos hk, if_neg fun h => he (h.symm.trans hk)]
      · rw [if_neg hk, if_neg hk]

/-- A key stands among the entries if and only if it looks something up. -/
theorem mem_keys_iff {k : κ} {entries : List (κ × α)} :
    k ∈ entries.map Prod.fst ↔ (get? k entries).isSome = true := by
  induction entries with
  | nil => simp [get?]
  | cons e rest ih =>
    rw [List.map_cons, List.mem_cons, ih, get?]
    by_cases hk : k = e.1
    · simp [hk]
    · simp [hk]

/-- Sorted entries are determined by what they look up. -/
theorem Sorted.ext [SortKey κ] {a b : List (κ × α)} (ha : Sorted a) (hb : Sorted b)
    (h : ∀ k, get? k a = get? k b) : a = b := by
  induction a generalizing b with
  | nil =>
    match b with
    | [] => rfl
    | (k, v) :: rest =>
      have hk := h k
      simp [get?] at hk
  | cons x xs ih =>
    obtain ⟨k₁, v₁⟩ := x
    match b with
    | [] =>
      have hk := h k₁
      simp [get?] at hk
    | (k₂, v₂) :: ys =>
      have hxs : ∀ e ∈ xs, SortKey.before k₁ e.1 = true := (List.pairwise_cons.1 ha).1
      have hys : ∀ e ∈ ys, SortKey.before k₂ e.1 = true := (List.pairwise_cons.1 hb).1
      have hkeys : k₁ = k₂ := by
        refine Decidable.byContradiction fun hne => ?_
        rcases SortKey.total k₁ k₂ hne with hlt | hlt
        · have hone := h k₁
          rw [get?, if_pos rfl, get?, if_neg hne, get?_eq_none_of_before
            (fun e he => SortKey.trans k₁ k₂ e.1 hlt (hys e he))] at hone
          exact absurd hone (by simp)
        · have htwo := h k₂
          rw [get?, if_neg (Ne.symm hne), get?_eq_none_of_before
            (fun e he => SortKey.trans k₂ k₁ e.1 hlt (hxs e he)), get?, if_pos rfl] at htwo
          exact absurd htwo (by simp)
      subst hkeys
      have hvals : v₁ = v₂ := by simpa [get?] using h k₁
      subst hvals
      have htails : xs = ys := by
        refine ih (List.pairwise_cons.1 ha).2 (List.pairwise_cons.1 hb).2 fun k => ?_
        by_cases hk : k = k₁
        · rw [hk, get?_eq_none_of_before hxs, get?_eq_none_of_before hys]
        · have hrest := h k
          rwa [get?, if_neg hk, get?, if_neg hk] at hrest
      rw [htails]

/-! ## Halving

A row of entries that can be reached by their indices is not walked along: the spot of a key is found
by comparing it with the entry in the middle, and going on in one of the halves. -/

/-- Where a key belongs in a row: at an index where it stands already, or in front of an index. -/
inductive Spot where
  | taken (i : Nat)
  | free (i : Nat)
  deriving DecidableEq, Repr

/-- The row with an entry at its spot: in the place of the one that stands there, or put in between. -/
def putAt (e : κ × α) (es : List (κ × α)) : Spot → List (κ × α)
  | .taken i => es.set i e
  | .free i => es.insertIdx i e

/-- The value at a spot. -/
def valueAt (es : List (κ × α)) : Spot → Option α
  | .taken i => es[i]?.map Prod.snd
  | .free _ => none

/-- The spot of a key among the entries from `low` up to `high`, found by halving. -/
def spotBetween [SortKey κ] (k : κ) (es : List (κ × α)) (low high : Nat) : Spot :=
  if _h : low < high then
    match es[low + (high - low) / 2]? with
    | none => .free low
    | some e =>
      if SortKey.before e.1 k then spotBetween k es (low + (high - low) / 2 + 1) high
      else if SortKey.before k e.1 then spotBetween k es low (low + (high - low) / 2)
      else .taken (low + (high - low) / 2)
  else .free low
termination_by high - low

/-- The spot of a key in a row. -/
def spot [SortKey κ] (k : κ) (es : List (κ × α)) : Spot := spotBetween k es 0 es.length

/-- The row after entries have been put into it one after the other, each at its spot. -/
def putAll [SortKey κ] (given : List (κ × α)) : List (κ × α) :=
  given.foldl (fun es e => putAt e es (spot e.1 es)) []

end Entries

/-! ## Tables -/

/-- A finite assignment of values to keys. -/
structure Table (κ α : Type) [SortKey κ] where
  entries : List (κ × α)
  sorted : Entries.Sorted entries

namespace Table

variable {κ α : Type} [SortKey κ] [DecidableEq κ]

/-- The table without entries. -/
def empty : Table κ α := ⟨[], List.Pairwise.nil⟩

instance : Inhabited (Table κ α) := ⟨empty⟩

/-- The value under a key. -/
def get? (t : Table κ α) (k : κ) : Option α := Entries.get? k t.entries

/-- Whether a key has a value. -/
def contains (t : Table κ α) (k : κ) : Bool := (t.get? k).isSome

/-- The table with the value under `k` set. -/
def insert (t : Table κ α) (k : κ) (v : α) : Table κ α :=
  ⟨Entries.insert k v t.entries, t.sorted.insert k v⟩

/-- The table without the key `k`. -/
def erase (t : Table κ α) (k : κ) : Table κ α :=
  ⟨t.entries.filter fun e => e.1 ≠ k, t.sorted.sublist List.filter_sublist⟩

/-- The keys in ascending order. -/
def keys (t : Table κ α) : List κ := t.entries.map Prod.fst

/-- The number of keys. -/
def size (t : Table κ α) : Nat := t.entries.length

/-- The table of a list of entries; of several values for one key the last counts. -/
def ofList (entries : List (κ × α)) : Table κ α :=
  entries.foldl (fun t e => t.insert e.1 e.2) empty

/-- The entries of both tables; the second wins where both have a key. -/
def union (t u : Table κ α) : Table κ α :=
  u.entries.foldl (fun acc e => acc.insert e.1 e.2) t

@[simp] theorem get?_empty (k : κ) : (empty : Table κ α).get? k = none := rfl

@[simp] theorem get?_insert (t : Table κ α) (k k' : κ) (v : α) :
    (t.insert k v).get? k' = if k' = k then some v else t.get? k' :=
  Entries.get?_insert k k' v t.entries

@[simp] theorem get?_erase (t : Table κ α) (k k' : κ) :
    (t.erase k).get? k' = if k' = k then none else t.get? k' :=
  Entries.get?_erase k k' t.entries

/-- A key is listed if and only if it has a value. -/
theorem mem_keys_iff {t : Table κ α} {k : κ} : k ∈ t.keys ↔ (t.get? k).isSome = true :=
  Entries.mem_keys_iff

/-- An entry of a table is what its key looks up. -/
theorem get?_of_mem {t : Table κ α} {k : κ} {v : α} (h : (k, v) ∈ t.entries) :
    t.get? k = some v :=
  t.sorted.get?_of_mem h

/-- Where both tables have a key, the second one counts. -/
theorem get?_union (t u : Table κ α) (k : κ) :
    (t.union u).get? k = (u.get? k).or (t.get? k) := by
  have hnodup := u.sorted
  obtain ⟨entries, _⟩ := u
  simp only [union, get?]
  induction entries generalizing t with
  | nil => rfl
  | cons e rest ih =>
    have hrest : Entries.Sorted rest := (List.pairwise_cons.1 hnodup).2
    have hfirst : ∀ b ∈ rest, SortKey.before e.1 b.1 = true := (List.pairwise_cons.1 hnodup).1
    rw [List.foldl_cons, ih (t.insert e.1 e.2) hrest hrest]
    have hinsert : Entries.get? k (t.insert e.1 e.2).entries =
        if k = e.1 then some e.2 else Entries.get? k t.entries :=
      Entries.get?_insert e.1 k e.2 t.entries
    rw [hinsert]
    by_cases hk : k = e.1
    · rw [hk, Entries.get?_eq_none_of_before hfirst, if_pos rfl, Entries.get?, if_pos rfl]
      rfl
    · rw [if_neg hk, Entries.get?, if_neg hk]

/-- Tables with the same look-ups are equal. -/
theorem ext_get? {t u : Table κ α} (h : ∀ k, t.get? k = u.get? k) : t = u := by
  obtain ⟨a, ha⟩ := t
  obtain ⟨b, hb⟩ := u
  have hab : a = b := Entries.Sorted.ext ha hb h
  subst hab
  rfl

end Table

/-- The keys are listed in ascending order. -/
theorem Table.keys_sorted {κ α : Type} [SortKey κ] (t : Table κ α) :
    t.keys.Pairwise fun a b => SortKey.before a b = true :=
  List.pairwise_map.2 t.sorted

end Stencil
