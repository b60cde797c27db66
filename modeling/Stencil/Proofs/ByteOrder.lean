/-
The order of strings is that of their bytes.

Keys that are strings are compared by the code points of their characters. A character's encoding
has its code point cut into digits, the first ones first, and a longer encoding starts with a greater
byte. So where two strings first differ, the encodings of the two characters decide in the same way.
-/
import Stencil.SortKey
import Mathlib.Data.List.Basic

set_option autoImplicit false

namespace Stencil

/-- The bytes that encode a string. -/
def bytesOf (s : String) : List UInt8 := s.toUTF8.data.toList

theorem bytesOf_eq_flatMap (s : String) : bytesOf s = s.toList.flatMap String.utf8EncodeChar := by
  show s.toByteArray.data.toList = _
  rw [← String.utf8Encode_toList, List.utf8Encode, List.data_toByteArray]

theorem ofNat_lt_ofNat_iff {a b : Nat} (ha : a < 256) (hb : b < 256) :
    UInt8.ofNat a < UInt8.ofNat b ↔ a < b := by
  rw [UInt8.lt_iff_toNat_lt, UInt8.toNat_ofNat', UInt8.toNat_ofNat']
  omega

theorem ofNat_eq_ofNat_iff {a b : Nat} (ha : a < 256) (hb : b < 256) :
    UInt8.ofNat a = UInt8.ofNat b ↔ a = b := by
  rw [← UInt8.toNat_inj, UInt8.toNat_ofNat', UInt8.toNat_ofNat']
  omega

/-- The encoding of a smaller character comes first, whatever is behind the two. -/
theorem utf8EncodeChar_append_lt {c d : Char} (h : c < d) (cs ds : List UInt8) :
    String.utf8EncodeChar c ++ cs < String.utf8EncodeChar d ++ ds := by
  have hlt : c.val.toNat < d.val.toNat := h
  have hbound : d.val.toNat < 0x110000 := by
    rcases d.valid with hd | ⟨-, hd⟩
    · omega
    · exact hd
  unfold String.utf8EncodeChar
  generalize c.val.toNat = u at *
  generalize d.val.toNat = v at *
  have hdigits : ∀ n : Nat, n / 4096 = n / 64 / 64 ∧ n / 262144 = n / 64 / 64 / 64 := by omega
  dsimp only
  -- One case for each pair of lengths; in all of them the first digit that differs decides.
  split_ifs <;> simp (disch := omega) only [List.cons_append, List.nil_append,
    List.cons_lt_cons_iff, ofNat_lt_ofNat_iff, ofNat_eq_ofNat_iff, hdigits]
  all_goals omega

theorem flatMap_utf8EncodeChar_lt {cs ds : List Char} (h : cs < ds) :
    cs.flatMap String.utf8EncodeChar < ds.flatMap String.utf8EncodeChar := by
  induction h with
  | nil =>
    rename_i d ds
    obtain ⟨b, bs, hd⟩ := List.exists_cons_of_ne_nil (String.utf8EncodeChar_ne_nil (c := d))
    rw [List.flatMap_nil, List.flatMap_cons, hd]
    exact List.nil_lt_cons _ _
  | rel h => exact utf8EncodeChar_append_lt h _ _
  | cons _ ih => exact List.append_left_lt ih

/-- **Strings come in the order of their bytes.** -/
theorem before_iff_bytesOf_lt (s t : String) :
    SortKey.before s t = true ↔ bytesOf s < bytesOf t := by
  have hbytes : ∀ {s t : String}, SortKey.before s t = true → bytesOf s < bytesOf t := by
    intro s t h
    rw [bytesOf_eq_flatMap, bytesOf_eq_flatMap]
    exact flatMap_utf8EncodeChar_lt (String.lt_iff.1 (of_decide_eq_true h))
  refine ⟨hbytes, fun h => ?_⟩
  by_cases hst : s = t
  · rw [hst] at h
    exact absurd h (List.lt_irrefl _)
  · refine (SortKey.total s t hst).resolve_right fun hback => ?_
    exact List.lt_irrefl _ (List.lt_trans h (hbytes hback))

/-- Lists of strings come in the order of the lists of their bytes. -/
theorem before_iff_map_bytesOf_lt (as bs : List String) :
    SortKey.before as bs = true ↔ as.map bytesOf < bs.map bytesOf := by
  induction as generalizing bs with
  | nil =>
    cases bs with
    | nil => exact iff_of_false Bool.false_ne_true (List.lt_irrefl _)
    | cons b bs => exact iff_of_true rfl (List.nil_lt_cons _ _)
  | cons a as ih =>
    cases bs with
    | nil => exact iff_of_false Bool.false_ne_true (List.not_lt_nil _)
    | cons b bs =>
      show (SortKey.before a b || (!SortKey.before b a && SortKey.before as bs)) = true ↔ _
      rw [List.map_cons, List.map_cons, List.cons_lt_cons_iff, ← ih, ← before_iff_bytesOf_lt]
      by_cases hab : a = b
      · simp [hab, SortKey.irrefl]
      · rcases SortKey.total a b hab with h | h
        · simp [h]
        · have hne : bytesOf a ≠ bytesOf b := by
            intro heq
            have hlt := (before_iff_bytesOf_lt b a).1 h
            rw [heq] at hlt
            exact List.lt_irrefl _ hlt
          simp [h, SortKey.asymm h, hne]

end Stencil
