import Roxo.Library.BinaryFloat
import Roxo.Snapshot.Variant

/-!
# Casts of numbers

`as` between the floats and from and to integers. A cast rounds to the nearest float; a cast to an
integer cuts off the fraction and saturates. Which NaN a cast of a NaN gives is not specified.
-/

namespace Roxo

open BinaryFloat

def F32.magnitudeBits (a : F32) : ℕ := (a.bits.extractLsb' 0 31).toNat

def F64.magnitudeBits (a : F64) : ℕ := (a.bits.extractLsb' 0 63).toNat

/-- What is too large is infinite. -/
def F32.ofMagnitude (negative : Bool) (bits : ℕ) : F32 :=
  ⟨BitVec.ofNat 32 ((if negative then 2 ^ 31 else 0) + min bits (255 * 2 ^ 23))⟩

def F64.ofMagnitude (negative : Bool) (bits : ℕ) : F64 :=
  ⟨BitVec.ofNat 64 ((if negative then 2 ^ 63 else 0) + min bits (2047 * 2 ^ 52))⟩

/-- The units of the two formats are `2 ^ -149` and `2 ^ -1074`. -/
def F32.toF64 (a : F32) : F64 :=
  if a.isNan then ⟨0x7ff8000000000000⟩
  else if a.magnitudeBits = 255 * 2 ^ 23 then .ofMagnitude a.bits.msb (2047 * 2 ^ 52)
  else .ofMagnitude a.bits.msb (encode 52 (decode 23 a.magnitudeBits * 2 ^ 925) 0)

def F64.toF32 (a : F64) : F32 :=
  if a.isNan then ⟨0x7fc00000⟩
  else .ofMagnitude a.bits.msb (encode 23 (decode 52 a.magnitudeBits) 925)

def F64.ofInt (n : ℤ) : F64 := .ofMagnitude (n < 0) (encode 52 (n.natAbs * 2 ^ 1074) 0)

/-- The integer between two bounds that is nearest to the float without its fraction. -/
def F64.toIntBetween (low high : ℤ) (a : F64) : ℤ :=
  if a.isNan then 0
  else
    let whole : ℤ := (decode 52 a.magnitudeBits / 2 ^ 1074 : ℕ)
    max low (min high (if a.bits.msb then -whole else whole))

def F64.toInt32 (a : F64) : Int32 := .ofInt (a.toIntBetween (-2 ^ 31) (2 ^ 31 - 1))

def F64.toInt64 (a : F64) : Int64 := .ofInt (a.toIntBetween (-2 ^ 63) (2 ^ 63 - 1))

/-! ## Integers and back -/

/-- A float has room for the integer: at most its first 53 bits are not zero. -/
def FitsF64 (n : ℤ) : Prop := 2 ^ (n.natAbs.log2 - 52) ∣ n.natAbs

instance (n : ℤ) : Decidable (FitsF64 n) := inferInstanceAs (Decidable (_ ∣ _))

theorem fitsF64_of_lt {n : ℤ} (h : n.natAbs < 2 ^ 53) : FitsF64 n := by
  have hlog : n.natAbs.log2 - 52 = 0 := by
    rcases Nat.eq_zero_or_pos n.natAbs with hzero | hpos
    · rw [hzero]
      rfl
    · have := (Nat.log2_lt hpos.ne').mpr h
      omega
  unfold FitsF64
  rw [hlog]
  exact Nat.one_dvd _

theorem F64.magnitudeBits_ofMagnitude {negative : Bool} {bits : ℕ} (h : bits ≤ 2047 * 2 ^ 52) :
    (F64.ofMagnitude negative bits).magnitudeBits = bits := by
  unfold magnitudeBits ofMagnitude
  rw [min_eq_left h, BitVec.extractLsb'_toNat, BitVec.toNat_ofNat]
  cases negative <;> simp only [Bool.false_eq_true, if_true, if_false] <;> omega

theorem F64.msb_ofMagnitude {negative : Bool} {bits : ℕ} (h : bits ≤ 2047 * 2 ^ 52) :
    (F64.ofMagnitude negative bits).bits.msb = negative := by
  unfold ofMagnitude
  rw [min_eq_left h, BitVec.msb_eq_decide, BitVec.toNat_ofNat]
  cases negative with
  | true =>
    refine decide_eq_true ?_
    rw [if_pos rfl]
    omega
  | false =>
    refine decide_eq_false ?_
    rw [if_neg Bool.false_ne_true]
    omega

theorem F64.isNan_ofMagnitude {negative : Bool} {bits : ℕ} (h : bits ≤ 2047 * 2 ^ 52) :
    (F64.ofMagnitude negative bits).isNan = false := by
  have hbits := @F64.magnitudeBits_ofMagnitude negative bits h
  unfold magnitudeBits at hbits
  unfold isNan
  rw [hbits]
  refine decide_eq_false ?_
  omega

/-- In smaller units the integer has no more leading bits than before. -/
theorem FitsF64.units {n : ℤ} (h : FitsF64 n) {k : ℕ} (hk : 52 ≤ k) (hne : n.natAbs ≠ 0) :
    2 ^ ((n.natAbs * 2 ^ k).log2 - 52) ∣ n.natAbs * 2 ^ k := by
  rw [log2_mul_two_pow hne]
  rcases Nat.le_total n.natAbs.log2 52 with hsmall | hlarge
  · exact Nat.dvd_trans (Nat.pow_dvd_pow 2 (by omega)) (Nat.dvd_mul_left _ _)
  · rw [show n.natAbs.log2 + k - 52 = (n.natAbs.log2 - 52) + k by omega, Nat.pow_add]
    exact Nat.mul_dvd_mul_right h _

/-- An integer that fits is the same after the cast to a float and back. -/
theorem F64.toIntBetween_ofInt {n low high : ℤ} (hfits : FitsF64 n) (hlow : low ≤ n)
    (hhigh : n ≤ high) (hbound : n.natAbs < 2 ^ 64) : (F64.ofInt n).toIntBetween low high = n := by
  obtain ⟨units, hunits⟩ : ∃ units, n.natAbs * 2 ^ 1074 = units := ⟨_, rfl⟩
  have hzero : n.natAbs = 0 → units = 0 := fun h =>
    hunits.symm.trans (Nat.mul_eq_zero.mpr (.inl h))
  have hroom : 2 ^ (units.log2 - 52) ∣ units := by
    by_cases hne : n.natAbs = 0
    · rw [hzero hne]
      exact Nat.dvd_zero _
    · have hdvd := hfits.units (k := 1074) (by omega) hne
      rwa [hunits] at hdvd
  have hfinite : encode 52 units 0 ≤ 2047 * 2 ^ 52 := by
    refine (encode_le 52 units).trans (Nat.mul_le_mul_right _ ?_)
    have hlog : units.log2 < 1138 := by
      by_cases hne : n.natAbs = 0
      · rw [hzero hne]
        decide
      · rw [← hunits, log2_mul_two_pow hne 1074]
        have := (Nat.log2_lt hne).mpr hbound
        omega
    omega
  have hwhole : decode 52 (encode 52 units 0) / 2 ^ 1074 = n.natAbs := by
    rw [decode_encode hroom, ← hunits, Nat.mul_div_cancel _ (Nat.two_pow_pos 1074)]
  unfold toIntBetween ofInt
  rw [hunits, isNan_ofMagnitude hfinite, if_neg Bool.false_ne_true,
    magnitudeBits_ofMagnitude hfinite, msb_ofMagnitude hfinite, hwhole]
  have hsign : (if decide (n < 0) = true then -(n.natAbs : ℤ) else (n.natAbs : ℤ)) = n := by
    by_cases hneg : n < 0
    · rw [if_pos (decide_eq_true hneg)]
      omega
    · rw [if_neg (by rwa [decide_eq_true_iff])]
      omega
  dsimp only
  rw [hsign, min_eq_right hhigh, max_eq_right hlow]

theorem F64.toInt32_ofInt (n : Int32) : (F64.ofInt n.toInt).toInt32 = n := by
  have hlow := Int32.le_toInt n
  have hhigh := Int32.toInt_lt n
  unfold toInt32
  rw [toIntBetween_ofInt (fitsF64_of_lt (by omega)) (by omega) (by omega) (by omega)]
  exact Int32.ofInt_toInt n

theorem F64.toInt64_ofInt {n : Int64} (h : FitsF64 n.toInt) : (F64.ofInt n.toInt).toInt64 = n := by
  have hlow := Int64.le_toInt n
  have hhigh := Int64.toInt_lt n
  unfold toInt64
  rw [toIntBetween_ofInt h (by omega) (by omega) (by omega)]
  exact Int64.ofInt_toInt n

/-- The greatest integer does not fit, but saturating gives it back. -/
theorem F64.toInt64_ofInt_max : (F64.ofInt Int64.maxValue.toInt).toInt64 = Int64.maxValue := by
  decide +kernel

end Roxo
