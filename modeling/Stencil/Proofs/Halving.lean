/-
Tables kept in a row and searched by halving.

A table is described by walks along its entries, which stop at the first key that is not smaller than
the one they look for. Where a row is searched by halving instead, every step compares the key with
the entry in the middle and goes on in one of the halves. The invariant is that all keys in front of
the half are smaller and all keys behind it greater, so what is left when the half is empty is the one
place where the key may be put. Both ways therefore insert the same and find the same, and a run of
insertions leaves the same row.
-/
import Mathlib.Data.List.Basic
import Stencil.Table

set_option autoImplicit false

namespace Stencil.Entries

variable {κ α : Type} [SortKey κ] [DecidableEq κ] {k : κ} {v w : α} {es front behind : List (κ × α)}

/-! ## Walks over a row in two stretches -/

/-- A key that is behind all of `front` is looked for behind it. -/
theorem get?_append_of_before (h : ∀ e ∈ front, SortKey.before e.1 k = true)
    (behind : List (κ × α)) : get? k (front ++ behind) = get? k behind := by
  induction front with
  | nil => rfl
  | cons e front ih =>
    obtain ⟨hfirst, hrest⟩ := List.forall_mem_cons.1 h
    rw [List.cons_append, get?, if_neg (Ne.symm (SortKey.ne_of_before hfirst)), ih hrest]

/-- A key that is behind all of `front` is put behind it. -/
theorem insert_append_of_before (h : ∀ e ∈ front, SortKey.before e.1 k = true) (v : α)
    (behind : List (κ × α)) : insert k v (front ++ behind) = front ++ insert k v behind := by
  induction front with
  | nil => rfl
  | cons e front ih =>
    obtain ⟨hfirst, hrest⟩ := List.forall_mem_cons.1 h
    rw [List.cons_append, insert, if_neg (Ne.symm (SortKey.ne_of_before hfirst)),
      if_neg (by simp [SortKey.asymm hfirst]), ih hrest, List.cons_append]

/-- A key in front of all others is put in front of them. -/
theorem insert_of_before (h : ∀ e ∈ behind, SortKey.before k e.1 = true) (v : α) :
    insert k v behind = (k, v) :: behind := by
  cases behind with
  | nil => rfl
  | cons e rest =>
    have hfirst := h e List.mem_cons_self
    rw [insert, if_neg (SortKey.ne_of_before hfirst), if_pos hfirst]

/-! ## Spots -/

/-- Says that a spot is the one of a key: what is in front of it has smaller keys and what is behind it
greater ones. -/
inductive IsSpot (k : κ) : List (κ × α) → Spot → Prop where
  | taken {front behind : List (κ × α)} (v : α) :
      (∀ e ∈ front, SortKey.before e.1 k = true) → (∀ e ∈ behind, SortKey.before k e.1 = true) →
      IsSpot k (front ++ (k, v) :: behind) (.taken front.length)
  | free {front behind : List (κ × α)} :
      (∀ e ∈ front, SortKey.before e.1 k = true) → (∀ e ∈ behind, SortKey.before k e.1 = true) →
      IsSpot k (front ++ behind) (.free front.length)

omit [SortKey κ] [DecidableEq κ] in
theorem insertIdx_length (e : κ × α) (front behind : List (κ × α)) :
    (front ++ behind).insertIdx front.length e = front ++ e :: behind := by
  induction front with
  | nil => rfl
  | cons e' front ih => rw [List.cons_append, List.length_cons, List.insertIdx_succ_cons, ih]; rfl

theorem IsSpot.putAt {spot : Spot} (h : IsSpot k es spot) (v : α) :
    putAt (k, v) es spot = insert k v es := by
  cases h with
  | taken w hfront hbehind =>
    rw [insert_append_of_before hfront, insert, if_pos rfl]
    simp [Entries.putAt]
  | free hfront hbehind =>
    rw [insert_append_of_before hfront, insert_of_before hbehind]
    exact insertIdx_length (k, v) _ _

theorem IsSpot.valueAt {spot : Spot} (h : IsSpot k es spot) : valueAt es spot = get? k es := by
  cases h with
  | taken w hfront hbehind =>
    rw [get?_append_of_before hfront, get?, if_pos rfl]
    simp [Entries.valueAt]
  | free hfront hbehind =>
    rw [get?_append_of_before hfront, get?_eq_none_of_before hbehind]
    rfl

/-! ## Halving -/

/-- Says that a key belongs between two indices of a row: all in front of `low` is smaller, and all
from `high` on is greater. -/
structure Window (k : κ) (es : List (κ × α)) (low high : Nat) : Prop where
  low_le : low ≤ high
  high_le : high ≤ es.length
  smaller : ∀ e ∈ es.take low, SortKey.before e.1 k = true
  greater : ∀ e ∈ es.drop high, SortKey.before k e.1 = true

omit [DecidableEq κ] in
/-- The keys in front of an entry are smaller than its own, and those behind it greater. -/
theorem Sorted.exists_around (hes : Sorted es) {i : Nat} {e : κ × α} (hi : es[i]? = some e) :
    ∃ front behind, es = front ++ e :: behind ∧ front.length = i ∧
      (∀ x ∈ front, SortKey.before x.1 e.1 = true) ∧
      ∀ x ∈ behind, SortKey.before e.1 x.1 = true := by
  obtain ⟨hlt, rfl⟩ := List.getElem?_eq_some_iff.1 hi
  have hsplit : es = es.take i ++ es[i] :: es.drop (i + 1) := by
    rw [← List.drop_eq_getElem_cons hlt, List.take_append_drop]
  have hsorted : Sorted (es.take i ++ es[i] :: es.drop (i + 1)) := hsplit ▸ hes
  obtain ⟨_, hbehind, hacross⟩ := List.pairwise_append.1 hsorted
  have hlength : (es.take i).length = i := by
    rw [List.length_take]
    omega
  exact ⟨_, _, hsplit, hlength, fun x hx => hacross x hx _ List.mem_cons_self,
    (List.pairwise_cons.1 hbehind).1⟩

/-- Halving a window around the spot of a key leads to the spot. Where the middle is smaller than the
key, so is all in front of it, and where it is greater, so is all behind it. -/
theorem isSpot_spotBetween (hes : Sorted es) {low high : Nat} (h : Window k es low high) :
    IsSpot k es (spotBetween k es low high) := by
  fun_induction spotBetween k es low high with
  | case1 low high hlt hnone =>
    -- The middle of a window is in the row.
    have hhigh := h.high_le
    rw [List.getElem?_eq_none_iff] at hnone
    omega
  | case2 low high hlt e hmid hsmaller ih =>
    obtain ⟨front, behind, hsplit, hlength, hfront, _⟩ := hes.exists_around hmid
    refine ih ⟨by omega, h.high_le, ?_, h.greater⟩
    intro x hx
    rw [hsplit, ← hlength, List.take_length_add_append, List.take_succ_cons, List.take_zero,
      List.mem_append, List.mem_singleton] at hx
    rcases hx with hx | rfl
    · exact SortKey.trans _ _ _ (hfront x hx) hsmaller
    · exact hsmaller
  | case3 low high hlt e hmid hsmaller hgreater ih =>
    obtain ⟨front, behind, hsplit, hlength, _, hbehind⟩ := hes.exists_around hmid
    have hhigh : low + (high - low) / 2 ≤ es.length := by
      rw [hsplit, List.length_append, hlength]
      omega
    refine ih ⟨by omega, hhigh, h.smaller, ?_⟩
    intro x hx
    rw [hsplit, ← hlength, List.drop_left, List.mem_cons] at hx
    rcases hx with rfl | hx
    · exact hgreater
    · exact SortKey.trans _ _ _ hgreater (hbehind x hx)
  | case4 low high hlt e hmid hsmaller hgreater =>
    obtain ⟨front, behind, hsplit, hlength, hfront, hbehind⟩ := hes.exists_around hmid
    -- A key that is neither smaller nor greater is the key itself.
    have hkey : e.1 = k := by
      by_contra hne
      exact (SortKey.total _ _ hne).elim hsmaller hgreater
    obtain ⟨k', v⟩ := e
    rw [← hlength, hsplit]
    rw [show k' = k from hkey] at hfront hbehind ⊢
    exact .taken v hfront hbehind
  | case5 low high hlt =>
    have hlow := h.low_le
    have hhigh := h.high_le
    have hsame : high = low := by omega
    have hlength : (es.take low).length = low := by
      rw [List.length_take]
      omega
    have hspot := IsSpot.free h.smaller (hsame ▸ h.greater)
    rwa [List.take_append_drop, hlength] at hspot

theorem isSpot_spot (hes : Sorted es) (k : κ) : IsSpot k es (spot k es) :=
  isSpot_spotBetween hes ⟨Nat.zero_le _, Nat.le_refl _, by simp, by simp⟩

/-! ## Runs -/

/-- A row that is searched by halving has the entries of the table at any time. -/
theorem putAll_eq_entries (given : List (κ × α)) : putAll given = (Table.ofList given).entries := by
  have hrun : ∀ t : Table κ α, given.foldl (fun es e => putAt e es (spot e.1 es)) t.entries
      = (given.foldl (fun t e => t.insert e.1 e.2) t).entries := by
    induction given with
    | nil => exact fun t => rfl
    | cons e given ih =>
      intro t
      rw [List.foldl_cons, List.foldl_cons, (isSpot_spot t.sorted e.1).putAt e.2]
      exact ih (t.insert e.1 e.2)
  exact hrun Table.empty

theorem valueAt_spot (t : Table κ α) (k : κ) : valueAt t.entries (spot k t.entries) = t.get? k :=
  (isSpot_spot t.sorted k).valueAt

end Stencil.Entries
