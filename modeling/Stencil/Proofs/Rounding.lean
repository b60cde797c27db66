/-
Integers as double-precision numbers.

A double-precision number has a significand of 53 binary digits, so an integer with more digits is
rounded when it becomes one, and two different integers may become the same number. Which ones do is
said here in integers: exactly those that are the same once they are rounded to 53 digits. The way
from there to the comparison of floating-point numbers goes over the bits. The significand and the
exponent of a rounded integer can be read off its bits, so different ones have different bits, and
finite numbers that are equal have equal bits, the two zeros apart.
-/
import Mathlib
import Stencil.Decimal.Binary

set_option autoImplicit false

namespace Stencil.Decimal

/-! ## Rounding to 53 digits -/

/-- How far apart the numbers with 53 binary digits are around a natural number. -/
def spacing (m : Nat) : Nat := 2 ^ (m.log2 - 52)

/-- A natural number rounded to 53 binary digits, and to the even one of two equally near. -/
def roundedMagnitude (m : Nat) : Nat := roundHalfEven m (spacing m) * spacing m

/-- An integer rounded to 53 binary digits. -/
def rounded (n : Int) : Int :=
  if n < 0 then -(roundedMagnitude n.natAbs : Int) else roundedMagnitude n.natAbs

theorem roundHalfEven_bounds (num den : Nat) :
    num / den ≤ roundHalfEven num den ∧ roundHalfEven num den ≤ num / den + 1 := by
  unfold roundHalfEven
  dsimp only
  split <;> omega

theorem roundHalfEven_of_dvd {num den : Nat} (hden : 0 < den) (h : den ∣ num) :
    roundHalfEven num den = num / den := by
  have hmod : num % den = 0 := Nat.mod_eq_zero_of_dvd h
  unfold roundHalfEven
  dsimp only
  rw [hmod, if_pos (Or.inl (by omega))]

/-- Up to 53 digits nothing is rounded. The last number here has 54 digits, but its last one is
zero. -/
theorem roundedMagnitude_of_le {m : Nat} (h : m ≤ 2 ^ 53) : roundedMagnitude m = m := by
  have hdvd : spacing m ∣ m := by
    unfold spacing
    by_cases hm : m = 2 ^ 53
    · rw [hm, Nat.log2_two_pow]
      exact Nat.pow_dvd_pow 2 (by omega)
    · have hlog : m.log2 < 53 := by
        by_cases hzero : m = 0
        · rw [hzero, Nat.log2_zero]
          omega
        · exact (Nat.log2_lt hzero).2 (by omega)
      rw [show m.log2 - 52 = 0 by omega]
      exact Nat.one_dvd m
  have hpos : 0 < spacing m := Nat.two_pow_pos _
  rw [roundedMagnitude, roundHalfEven_of_dvd hpos hdvd, Nat.div_mul_cancel hdvd]

theorem rounded_of_natAbs_le {n : Int} (h : n.natAbs ≤ 2 ^ 53) : rounded n = n := by
  rw [rounded, roundedMagnitude_of_le h]
  split <;> omega

/-! ## Bits -/

/-- Says that bits, without that of the sign, stand for a natural number: no bit at all for zero, and
otherwise a significand `s` of 53 digits, which is kept without its first one, and above it an
exponent. -/
inductive Encodes : (bits v : Nat) → Prop where
  | zero : Encodes 0 0
  | normal {s e v : Nat} :
      leadingBit ≤ s → s < 2 * leadingBit → e ≤ 64 → s * 2 ^ e = v * leadingBit →
      Encodes ((e + 1023) * leadingBit + (s - leadingBit)) v

namespace Encodes

variable {a b v w : Nat}

/-- No infinity and nothing that is not a number is among these bits. -/
theorem finite (h : Encodes a v) : a < 2047 * leadingBit := by
  cases h with
  | zero => decide
  | normal hlow hhigh he _ =>
    unfold leadingBit at hlow hhigh ⊢
    omega

theorem eq_zero_iff (h : Encodes a v) : a = 0 ↔ v = 0 := by
  cases h with
  | zero => exact Iff.rfl
  | @normal s e v hlow hhigh he hvalue =>
    have hs : s * 2 ^ e ≠ 0 := by
      have hpos : 0 < s := Nat.lt_of_lt_of_le (by decide) hlow
      exact Nat.mul_ne_zero (by omega) (Nat.two_pow_pos e).ne'
    constructor
    · intro hbits
      exact absurd hbits (by unfold leadingBit; omega)
    · intro hv
      rw [hvalue, hv, Nat.zero_mul] at hs
      exact absurd rfl hs

/-- A significand with a first digit and its exponent are determined by the product. -/
theorem significand_unique {s s' e e' : Nat} (hlow : leadingBit ≤ s) (hhigh' : s' < 2 * leadingBit)
    (hlow' : leadingBit ≤ s') (hhigh : s < 2 * leadingBit) (h : s * 2 ^ e = s' * 2 ^ e') :
    s = s' ∧ e = e' := by
  -- With a smaller exponent the significand would have to be twice as large at least.
  have hnot : ∀ {s s' e e' : Nat}, leadingBit ≤ s' → s < 2 * leadingBit →
      s * 2 ^ e = s' * 2 ^ e' → ¬ e < e' := by
    intro s s' e e' hs' hs heq hlt
    obtain ⟨d, rfl⟩ := Nat.exists_eq_add_of_lt hlt
    rw [show e + d + 1 = (d + 1) + e by omega, Nat.pow_add, ← Nat.mul_assoc] at heq
    have hfactor : s = s' * 2 ^ (d + 1) := Nat.eq_of_mul_eq_mul_right (Nat.two_pow_pos e) heq
    have htwo : s' * 2 ≤ s' * 2 ^ (d + 1) := by
      apply Nat.mul_le_mul_left
      exact Nat.le_self_pow (by omega) 2
    omega
  have he : e = e' := by
    have hless := hnot hlow' hhigh h
    have hmore := hnot hlow hhigh' h.symm
    omega
  rw [he] at h
  exact ⟨Nat.eq_of_mul_eq_mul_right (Nat.two_pow_pos e') h, he⟩

/-- Bits and numbers determine each other. -/
theorem eq_iff (h : Encodes a v) (h' : Encodes b w) : a = b ↔ v = w := by
  by_cases hv : v = 0
  · rw [hv, h.eq_zero_iff.2 hv, eq_comm, h'.eq_zero_iff, eq_comm]
  by_cases hw : w = 0
  · rw [hw, h'.eq_zero_iff.2 hw, h.eq_zero_iff]
  cases h with
  | zero => exact absurd rfl hv
  | @normal s e v hlow hhigh he hvalue =>
    cases h' with
    | zero => exact absurd rfl hw
    | @normal s' e' w hlow' hhigh' he' hvalue' =>
      constructor
      · intro hbits
        have hparts : s = s' ∧ e = e' := by
          unfold leadingBit at hlow hhigh hlow' hhigh' hbits
          omega
        rw [hparts.1, hparts.2, hvalue'] at hvalue
        exact (Nat.eq_of_mul_eq_mul_right (by decide) hvalue).symm
      · intro heq
        rw [heq, ← hvalue'] at hvalue
        obtain ⟨hs, he⟩ := significand_unique hlow hhigh' hlow' hhigh hvalue
        rw [hs, he]

end Encodes

/-! ## From an integer to its bits -/

section
variable {m : Nat}

theorem pow_log2_le (hm : 0 < m) : 2 ^ m.log2 ≤ m := Nat.log2_self_le hm.ne'

/-- A positive number counted in a unit in which it has 54 digits does not fit a significand. -/
theorem not_fits (hm : 0 < m) :
    ¬ (inUnits m 1 ((m.log2 : Int) - 53)).1 / (inUnits m 1 ((m.log2 : Int) - 53)).2
      < Nat.pow 2 53 := by
  have hfirst := pow_log2_le hm
  unfold inUnits
  by_cases hlog : m.log2 < 53
  · rw [if_pos (by omega), Nat.div_one, Nat.not_lt]
    show 2 ^ 53 ≤ m * 2 ^ (-((m.log2 : Int) - 53)).toNat
    rw [show (-((m.log2 : Int) - 53)).toNat = 53 - m.log2 by omega]
    calc 2 ^ 53 = 2 ^ m.log2 * 2 ^ (53 - m.log2) := by rw [← Nat.pow_add]; congr 1; omega
      _ ≤ m * 2 ^ (53 - m.log2) := Nat.mul_le_mul_right _ hfirst
  · rw [if_neg (by omega), Nat.not_lt, Nat.one_mul]
    show 2 ^ 53 ≤ m / 2 ^ ((m.log2 : Int) - 53).toNat
    rw [show ((m.log2 : Int) - 53).toNat = m.log2 - 53 by omega,
      Nat.le_div_iff_mul_le (Nat.two_pow_pos _), ← Nat.pow_add]
    rw [show 53 + (m.log2 - 53) = m.log2 by omega]
    exact hfirst

/-- In the unit in which a positive number has 53 digits, the nearest integer is what the rounded
number is worth there. It has 53 digits, unless it is the next power of two. -/
theorem roundHalfEven_inUnits (hm : 0 < m) :
    let units := inUnits m 1 ((m.log2 : Int) - 52)
    leadingBit ≤ roundHalfEven units.1 units.2 ∧ roundHalfEven units.1 units.2 ≤ 2 * leadingBit
      ∧ roundHalfEven units.1 units.2 * 2 ^ m.log2 = roundedMagnitude m * leadingBit := by
  have hfirst := pow_log2_le hm
  have hlast : m < 2 ^ (m.log2 + 1) := Nat.lt_log2_self
  have hbit : leadingBit = 2 ^ 52 := by decide
  unfold inUnits
  dsimp only
  by_cases hlog : m.log2 < 52
  · -- A small number is a whole number of such units.
    have hsame : roundedMagnitude m = m := by
      apply roundedMagnitude_of_le
      have hpow : 2 ^ (m.log2 + 1) ≤ 2 ^ 52 := Nat.pow_le_pow_right (by decide) (by omega)
      omega
    have hsplit : 2 ^ (52 - m.log2) * 2 ^ m.log2 = 2 ^ 52 := by
      rw [← Nat.pow_add]
      congr 1
      omega
    rw [if_pos (by omega), show (-((m.log2 : Int) - 52)).toNat = 52 - m.log2 by omega,
      roundHalfEven_of_dvd Nat.one_pos (Nat.one_dvd _), Nat.div_one, hsame, hbit]
    show 2 ^ 52 ≤ m * 2 ^ (52 - m.log2) ∧ m * 2 ^ (52 - m.log2) ≤ 2 * 2 ^ 52
      ∧ m * 2 ^ (52 - m.log2) * 2 ^ m.log2 = m * 2 ^ 52
    refine ⟨?_, ?_, ?_⟩
    · calc 2 ^ 52 = 2 ^ m.log2 * 2 ^ (52 - m.log2) := by rw [Nat.mul_comm, hsplit]
        _ ≤ m * 2 ^ (52 - m.log2) := Nat.mul_le_mul_right _ hfirst
    · calc m * 2 ^ (52 - m.log2) ≤ 2 ^ (m.log2 + 1) * 2 ^ (52 - m.log2) :=
          Nat.mul_le_mul_right _ hlast.le
        _ = 2 * 2 ^ 52 := by rw [Nat.pow_succ, ← hsplit]; ring
    · rw [Nat.mul_assoc, hsplit]
  · have hunit : Nat.pow 2 ((m.log2 : Int) - 52).toNat = spacing m := by
      show 2 ^ ((m.log2 : Int) - 52).toNat = 2 ^ (m.log2 - 52)
      congr 1
      omega
    have hsplit : spacing m * 2 ^ 52 = 2 ^ m.log2 := by
      rw [spacing, ← Nat.pow_add]
      congr 1
      omega
    have hpos : 0 < spacing m := Nat.two_pow_pos _
    rw [if_neg (by omega), Nat.one_mul, hunit, hbit]
    obtain ⟨hlow, hhigh⟩ := roundHalfEven_bounds m (spacing m)
    have hquotient : 2 ^ 52 ≤ m / spacing m := by
      rw [Nat.le_div_iff_mul_le hpos, Nat.mul_comm, hsplit]
      exact hfirst
    have hbelow : m / spacing m < 2 * 2 ^ 52 := by
      rw [Nat.div_lt_iff_lt_mul hpos, Nat.mul_assoc, Nat.mul_comm (2 ^ 52), hsplit]
      rw [Nat.pow_succ] at hlast
      omega
    dsimp only
    refine ⟨by omega, by omega, ?_⟩
    rw [roundedMagnitude, ← hsplit, Nat.mul_assoc]

/-- Only zero is rounded to zero. -/
theorem eq_zero_of_roundedMagnitude {n : Int} (h : roundedMagnitude n.natAbs = 0) : n = 0 := by
  by_contra hn
  obtain ⟨hlow, -, hvalue⟩ := roundHalfEven_inUnits (Int.natAbs_pos.2 hn)
  rw [h, Nat.zero_mul, Nat.mul_eq_zero] at hvalue
  rcases hvalue with hzero | hzero
  · rw [hzero] at hlow
    exact absurd hlow (by decide)
  · exact absurd hzero (Nat.two_pow_pos _).ne'

/-- The nearest number of the format has the bits of the rounded number. -/
theorem exists_nearest? (hm : 0 < m) (hlarge : m.log2 ≤ 63) :
    ∃ b, binary64.nearest? m 1 = some b ∧ leadingBit ≤ b.significand ∧
      Encodes ((b.exponent + 1075).toNat * leadingBit + (b.significand - leadingBit))
        (roundedMagnitude m) := by
  obtain ⟨hlow, hhigh, hvalue⟩ := roundHalfEven_inUnits hm
  have hstart : max binary64.minExponent
      (((m.log2 : Int) - (Nat.log2 1 : Int)) - (binary64.precision : Int))
        = (m.log2 : Int) - 53 := by
    simp only [binary64, show Nat.log2 1 = 0 by decide]
    omega
  have hunit : (m.log2 : Int) - 53 + 1 = (m.log2 : Int) - 52 := by omega
  unfold BinaryFormat.nearest?
  dsimp only
  rw [hstart, if_neg (show ¬ _ < Nat.pow 2 binary64.precision from not_fits hm), hunit]
  generalize roundHalfEven (inUnits m 1 ((m.log2 : Int) - 52)).1
    (inUnits m 1 ((m.log2 : Int) - 52)).2 = s at hlow hhigh hvalue ⊢
  have hmax : (binary64.maxExponent : Int) = 971 := rfl
  by_cases hs : s < Nat.pow 2 binary64.precision
  · have hfits : s < 2 * leadingBit := hs
    rw [if_pos hs, if_pos (by dsimp only; omega)]
    refine ⟨_, rfl, hlow, ?_⟩
    rw [show ((m.log2 : Int) - 52 + 1075).toNat = m.log2 + 1023 by omega]
    exact .normal hlow hfits (by omega) hvalue
  · have htop : s = 2 * leadingBit := by
      have hge : 2 * leadingBit ≤ s := Nat.not_lt.1 hs
      omega
    have hhalf : s / 2 = leadingBit := by
      rw [htop]
      rfl
    rw [if_neg hs, if_pos (by dsimp only; omega)]
    refine ⟨_, rfl, hhalf.ge, ?_⟩
    rw [show ((m.log2 : Int) - 52 + 1 + 1075).toNat = m.log2 + 1 + 1023 by omega]
    dsimp only
    rw [hhalf]
    refine .normal (le_refl _) (by decide) (by omega) ?_
    rw [← hvalue, htop, Nat.pow_succ]
    ring

end

/-- The bit of the sign of an integer. -/
def signBit (n : Int) : Nat := if n < 0 then 0x8000000000000000 else 0

/-- An integer of at most 64 binary digits has the bits of its sign and of its rounded magnitude. -/
theorem exists_bits {n : Int} (h : n.natAbs.log2 ≤ 63) :
    ∃ bits, Encodes bits (roundedMagnitude n.natAbs) ∧
      floatOfInteger n = Float.ofBits (UInt64.ofNat (signBit n + bits)) := by
  by_cases hn : n = 0
  · rw [hn]
    exact ⟨0, .zero, rfl⟩
  · obtain ⟨b, hb, hlow, hbits⟩ := exists_nearest? (Int.natAbs_pos.2 hn) h
    refine ⟨_, hbits, ?_⟩
    unfold floatOfInteger floatOfFraction
    rw [hb]
    dsimp only
    unfold ofParts signBit
    simp only [decide_eq_true_eq, if_neg (Nat.not_lt.2 hlow)]

/-! ## Floating-point numbers with given bits -/

section
open Float.Model

variable {a b : UInt64}

/-- Says that bits are those of a finite number. -/
def IsFinite (a : UInt64) : Prop := a.toNat / leadingBit % 2048 ≠ 2047

theorem toNat_unpackExponent (a : UInt64) :
    (@UnpackedFloat.unpackExponent Format.binary64 a.toBitVec).toNat
      = a.toNat / leadingBit % 2048 := by
  simp [UnpackedFloat.unpackExponent, BitVec.extractLsb, BitVec.extractLsb',
    Nat.shiftRight_eq_div_pow, leadingBit]

theorem isNaNBits_of_isFinite (h : IsFinite a) :
    @UnpackedFloat.isNaNBits Format.binary64 a.toBitVec = false := by
  rw [UnpackedFloat.isNaNBits, decide_eq_false_iff_not]
  rintro ⟨hexponent, -⟩
  apply h
  rw [← toNat_unpackExponent, hexponent]
  rfl

theorem ne_packedNaN_of_isFinite (h : IsFinite a) :
    a.toBitVec ≠ UnpackedFloat.packedNaN Format.binary64 := by
  intro heq
  have hbits := isNaNBits_of_isFinite h
  rw [heq, UnpackedFloat.isNaNBits_packedNaN] at hbits
  exact Bool.false_ne_true hbits.symm

theorem toBits_ofBits_of_isFinite (h : IsFinite a) : (Float.Model.ofBits a).toBits = a := by
  have hpack := @UnpackedFloat.pack_unpack Format.binary64 a.toBitVec (by decide)
  rw [isNaNBits_of_isFinite h, if_neg Bool.false_ne_true] at hpack
  show UInt64.ofBitVec (UnpackedFloat.pack Format.binary64
    (UnpackedFloat.unpack Format.binary64 a.toBitVec)) = a
  rw [hpack]

/-- Finite numbers are equal exactly if their bits are, the two zeros apart. -/
theorem beq_ofBits_iff (ha : IsFinite a) (hb : IsFinite b) :
    (Float.ofBits a == Float.ofBits b) = true
      ↔ a = b ∨ a = 0 ∧ b = 0x8000000000000000 ∨ a = 0x8000000000000000 ∧ b = 0 := by
  show (UnpackedFloat.unpack Format.binary64 (Float.Model.ofBits a).toBits.toBitVec).beq
    (UnpackedFloat.unpack Format.binary64 (Float.Model.ofBits b).toBits.toBitVec) = true ↔ _
  rw [UnpackedFloat.unpack_beq_unpack_iff (Float.Model.valid _) (Float.Model.valid _),
    toBits_ofBits_of_isFinite ha, toBits_ofBits_of_isFinite hb]
  have hinj : ∀ {c d : UInt64}, c.toBitVec = d.toBitVec ↔ c = d := UInt64.toBitVec_inj
  have hpositive : UnpackedFloat.packedZero Format.binary64 .positive = (0 : UInt64).toBitVec := rfl
  have hnegative : UnpackedFloat.packedZero Format.binary64 .negative
      = (0x8000000000000000 : UInt64).toBitVec := rfl
  rw [hpositive, hnegative, hinj, hinj, hinj, hinj, hinj]
  constructor
  · rintro ⟨-, -, h⟩
    exact h
  · intro h
    exact ⟨ne_packedNaN_of_isFinite ha, ne_packedNaN_of_isFinite hb, h⟩

end

/-! ## Integers that become the same number -/

/-- With the bit of a sign in front, the bits of a magnitude are still those of a finite number. -/
theorem isFinite_signed {n : Int} {bits v : Nat} (h : Encodes bits v) :
    IsFinite (UInt64.ofNat (signBit n + bits)) ∧
      (UInt64.ofNat (signBit n + bits)).toNat = signBit n + bits := by
  have hbits := h.finite
  have hsign : signBit n = 0 ∨ signBit n = 0x8000000000000000 := by
    unfold signBit
    split <;> simp
  unfold leadingBit at hbits
  have hvalue : (UInt64.ofNat (signBit n + bits)).toNat = signBit n + bits := by
    rw [UInt64.toNat_ofNat', Nat.mod_eq_of_lt]
    omega
  refine ⟨?_, hvalue⟩
  rw [IsFinite, hvalue]
  unfold leadingBit
  omega

/-- **Two integers are equal as double-precision numbers exactly if they are the same once they are
rounded to 53 binary digits.** -/
theorem beq_floatOfInteger_iff {x y : Int} (hx : x.natAbs.log2 ≤ 63) (hy : y.natAbs.log2 ≤ 63) :
    (floatOfInteger x == floatOfInteger y) = true ↔ rounded x = rounded y := by
  obtain ⟨a, ha, hax⟩ := exists_bits hx
  obtain ⟨b, hb, hby⟩ := exists_bits hy
  obtain ⟨hfinitex, hvaluex⟩ := isFinite_signed (n := x) ha
  obtain ⟨hfinitey, hvaluey⟩ := isFinite_signed (n := y) hb
  have hsame := ha.eq_iff hb
  -- A negative zero has the bit of its sign only, and no integer is encoded so.
  have hnonex := ha.eq_zero_iff
  have hnoney := hb.eq_zero_iff
  have hzerox : roundedMagnitude x.natAbs = 0 → x = 0 := eq_zero_of_roundedMagnitude
  have hzeroy : roundedMagnitude y.natAbs = 0 → y = 0 := eq_zero_of_roundedMagnitude
  have hboundx := ha.finite
  have hboundy := hb.finite
  unfold leadingBit at hboundx hboundy
  rw [hax, hby, beq_ofBits_iff hfinitex hfinitey]
  simp only [← UInt64.toNat_inj, hvaluex, hvaluey, UInt64.reduceToNat]
  unfold rounded signBit
  -- What is left is arithmetic, for each of the signs that the two may have.
  by_cases hnegx : x < 0
  · by_cases hnegy : y < 0
    · simp only [hnegx, hnegy, if_true]
      omega
    · simp only [hnegx, hnegy, if_true, if_false]
      omega
  · by_cases hnegy : y < 0
    · simp only [hnegx, hnegy, if_true, if_false]
      omega
    · simp only [hnegx, hnegy, if_false]
      omega

end Stencil.Decimal
