import Roxo.LuaAst
import Roxo.Snapshot.Casts
import Roxo.SnapshotMiddleware.Json

/-!
# Floats as text

A finite float is displayed by decimal digits, with no exponent, that are read as the same float.
Luau reads a decimal number as the float that is nearest to it.
-/

namespace Roxo

open BinaryFloat

/-- `f64::classify`: a float with the greatest exponent is infinite or not a number. -/
def F64.isFinite (a : F64) : Bool := a.bits.extractLsb' 52 11 ≠ 2047#11

/-- The float that is nearest to a decimal number. -/
def F64.ofDecimal (negative : Bool) (whole fraction : List Char) : F64 :=
  .ofMagnitude negative (encodeRatio 52
    (Nat.ofDigitChars 10 (whole ++ fraction) 0 * 2 ^ 1074) (10 ^ fraction.length))

def Decimal.toF64 (d : Decimal) : F64 := .ofDecimal d.negative d.whole d.fraction

/-- How a finite float is displayed. It can be read back. -/
class FloatText where
  display : F64 → Decimal
  toF64_display : ∀ a : F64, a.isFinite = true → (display a).toF64 = a

/-! ## The parts of a float -/

namespace F64

variable {a : F64}

theorem magnitudeBits_eq (a : F64) : a.magnitudeBits = a.bits.toNat % 2 ^ 63 := by
  unfold magnitudeBits
  rw [BitVec.extractLsb'_toNat, Nat.shiftRight_zero]

theorem exponent_eq (a : F64) : (a.bits.extractLsb' 52 11).toNat = a.magnitudeBits / 2 ^ 52 := by
  rw [magnitudeBits_eq, BitVec.extractLsb'_toNat, Nat.shiftRight_eq_div_pow]
  omega

theorem fraction_eq (a : F64) : (a.bits.extractLsb' 0 52).toNat = a.magnitudeBits % 2 ^ 52 := by
  rw [magnitudeBits_eq, BitVec.extractLsb'_toNat, Nat.shiftRight_zero]
  omega

theorem isFinite_iff : a.isFinite = true ↔ a.magnitudeBits < 2047 * 2 ^ 52 := by
  have hlt : a.magnitudeBits < 2 ^ 63 := by
    rw [magnitudeBits_eq]
    exact Nat.mod_lt _ (Nat.two_pow_pos 63)
  have hiff : a.bits.extractLsb' 52 11 = 2047#11 ↔ a.magnitudeBits / 2 ^ 52 = 2047 := by
    rw [← exponent_eq, BitVec.toNat_eq]
    exact Iff.rfl
  unfold isFinite
  rw [decide_eq_true_iff, ne_eq, hiff]
  omega

/-- A float is its sign and its magnitude. -/
theorem ofMagnitude_magnitudeBits (h : a.isFinite = true) :
    ofMagnitude a.bits.msb a.magnitudeBits = a := by
  have hmax := isFinite_iff.mp h
  have hlt := a.bits.isLt
  obtain ⟨bits⟩ := a
  unfold ofMagnitude
  rw [min_eq_left hmax.le, magnitudeBits_eq, BitVec.msb_eq_decide]
  refine congrArg F64.mk (BitVec.eq_of_toNat_eq ?_)
  rw [BitVec.toNat_ofNat]
  dsimp only at hlt ⊢
  split_ifs with hsign
  · have := of_decide_eq_true hsign
    omega
  · have : ¬2 ^ 63 ≤ bits.toNat := fun hle => hsign (decide_eq_true hle)
    omega

/-- The number of a float, in units of the least one. -/
theorem toRat_eq (a : F64) : a.toRat =
    if a.bits.msb then -((decode 52 a.magnitudeBits : ℚ) / 2 ^ 1074)
    else (decode 52 a.magnitudeBits : ℚ) / 2 ^ 1074 := by
  have hmagnitude : (if a.magnitudeBits / 2 ^ 52 = 0 then
        ((a.magnitudeBits % 2 ^ 52 : ℕ) : ℚ) * 2 ^ (-1074 : ℤ)
      else (2 ^ 52 + (a.magnitudeBits % 2 ^ 52 : ℕ)) *
        2 ^ (((a.magnitudeBits / 2 ^ 52 : ℕ) : ℤ) - 1075)) =
      (decode 52 a.magnitudeBits : ℚ) / 2 ^ 1074 := by
    unfold decode
    generalize a.magnitudeBits % 2 ^ 52 = fraction
    cases a.magnitudeBits / 2 ^ 52 with
    | zero =>
      rw [if_pos rfl, if_pos rfl, show (-1074 : ℤ) = -((1074 : ℕ) : ℤ) from rfl, zpow_neg,
        zpow_natCast, div_eq_mul_inv]
    | succ exponent =>
      have hexponent : ((exponent + 1 : ℕ) : ℤ) - 1075 = (exponent : ℤ) - ((1074 : ℕ) : ℤ) := by
        push_cast
        omega
      rw [if_neg (Nat.succ_ne_zero _), if_neg (Nat.succ_ne_zero _), hexponent,
        zpow_sub₀ two_ne_zero, zpow_natCast, zpow_natCast, Nat.add_sub_cancel, Nat.cast_mul,
        Nat.cast_add, Nat.cast_pow, Nat.cast_pow, mul_div_assoc]
      rfl
  unfold toRat
  dsimp only
  rw [exponent_eq, fraction_eq, hmagnitude]

variable {n : ℤ}

/-- The bits of an integer are those of a finite float. -/
theorem encode_lt_of_natAbs_lt (h : n.natAbs < 2 ^ 64) :
    encode 52 (n.natAbs * 2 ^ 1074) 0 < 2047 * 2 ^ 52 := by
  have hlog : (n.natAbs * 2 ^ 1074).log2 < 1138 := by
    rcases Nat.eq_zero_or_pos n.natAbs with hzero | hpos
    · rw [hzero, Nat.zero_mul]
      decide
    · rw [log2_mul_two_pow hpos.ne' 1074]
      have := (Nat.log2_lt hpos.ne').mpr h
      omega
  refine (encode_le 52 _).trans_lt (Nat.mul_lt_mul_of_pos_right ?_ (Nat.two_pow_pos 52))
  omega

theorem isFinite_ofInt (h : n.natAbs < 2 ^ 64) : (F64.ofInt n).isFinite = true := by
  have hlt := encode_lt_of_natAbs_lt h
  rw [isFinite_iff]
  unfold ofInt
  rwa [magnitudeBits_ofMagnitude hlt.le]

/-- In units that are small enough, room for the integer is room for all its units. -/
theorem fitsF64_iff (n : ℤ) {k : ℕ} (hk : 52 ≤ k) :
    FitsF64 n ↔ round 52 (n.natAbs * 2 ^ k) = n.natAbs * 2 ^ k := by
  rw [round_eq_iff]
  rcases Nat.eq_zero_or_pos n.natAbs with hzero | hpos
  · refine iff_of_true ?_ ?_
    · unfold FitsF64
      rw [hzero]
      exact Nat.dvd_zero _
    · rw [hzero, Nat.zero_mul]
      exact Nat.dvd_zero _
  · refine ⟨fun hfits => hfits.units hk hpos.ne', fun hdvd => ?_⟩
    rw [log2_mul_two_pow hpos.ne'] at hdvd
    rcases Nat.le_total n.natAbs.log2 52 with hsmall | hlarge
    · unfold FitsF64
      rw [Nat.sub_eq_zero_of_le hsmall]
      exact Nat.one_dvd _
    · have hlog : n.natAbs.log2 + k - 52 = (n.natAbs.log2 - 52) + k := by omega
      rw [hlog, Nat.pow_add] at hdvd
      exact Nat.dvd_of_mul_dvd_mul_right (Nat.two_pow_pos k) hdvd

/-- The float of an integer has the number of the integer exactly if it has room for it. -/
theorem toRat_ofInt_eq_iff (h : n.natAbs < 2 ^ 64) : (F64.ofInt n).toRat = n ↔ FitsF64 n := by
  have hlt := encode_lt_of_natAbs_lt h
  have hsign : ∀ units : ℚ,
      (if n < 0 then -(units / 2 ^ 1074) else units / 2 ^ 1074) = (n : ℚ) ↔
        units = ((n.natAbs * 2 ^ 1074 : ℕ) : ℚ) := by
    intro units
    have hpos : (2 : ℚ) ^ 1074 ≠ 0 := pow_ne_zero _ two_ne_zero
    rw [Nat.cast_mul, Nat.cast_pow, Nat.cast_natAbs]
    split_ifs with hneg
    · rw [abs_of_neg hneg, neg_eq_iff_eq_neg, div_eq_iff hpos, Int.cast_neg]
      exact Iff.rfl
    · rw [abs_of_nonneg (not_lt.mp hneg), div_eq_iff hpos]
      exact Iff.rfl
  rw [toRat_eq]
  unfold ofInt
  rw [msb_ofMagnitude hlt.le, magnitudeBits_ofMagnitude hlt.le, fitsF64_iff n (k := 1074) (by decide)]
  simp only [decide_eq_true_eq]
  rw [hsign, Nat.cast_inj]
  exact Iff.rfl

end F64

/-! ## All the digits of a float -/

/-- The digits of a number, with zeros before them where there are fewer. -/
def paddedDigits (count n : ℕ) : List Char :=
  List.replicate (count - (Nat.toDigits 10 n).length) '0' ++ Nat.toDigits 10 n

theorem isDigit_of_mem_paddedDigits {count n : ℕ} {c : Char} (h : c ∈ paddedDigits count n) :
    c.isDigit = true := by
  rcases List.mem_append.mp h with h | h
  · rw [List.eq_of_mem_replicate h]
    rfl
  · exact Nat.isDigit_of_mem_toDigits (by decide) (by decide) h

theorem length_paddedDigits {count n : ℕ} (hcount : 0 < count) (h : n < 10 ^ count) :
    (paddedDigits count n).length = count := by
  have hlength := (Nat.length_toDigits_le_iff (by decide : 1 < 10) hcount).mpr h
  unfold paddedDigits
  rw [List.length_append, List.length_replicate]
  omega

theorem ofDigitChars_paddedDigits {count n : ℕ} (hcount : 0 < count) (h : n < 10 ^ count)
    (init : ℕ) : Nat.ofDigitChars 10 (paddedDigits count n) init = 10 ^ count * init + n := by
  have hlength := length_paddedDigits hcount h
  have hvalue : Nat.ofDigitChars 10 (paddedDigits count n) 0 = n := by
    unfold paddedDigits
    rw [Nat.ofDigitChars_append, Nat.ofDigitChars_replicate_zero, Nat.mul_zero,
      Nat.ofDigitChars_ten_toDigits]
  rw [Nat.ofDigitChars_eq_ofDigitChars_zero, hlength, hvalue]

/-- The digits behind the point of a number of units of which `2 ^ k` are one. -/
def fractionDigits (k units : ℕ) : List Char :=
  if units % 2 ^ k = 0 then [] else paddedDigits k (units % 2 ^ k * 5 ^ k)

theorem isDigit_of_mem_fractionDigits {k units : ℕ} {c : Char} (h : c ∈ fractionDigits k units) :
    c.isDigit = true := by
  unfold fractionDigits at h
  split_ifs at h
  · cases h
  · exact isDigit_of_mem_paddedDigits h

theorem ofDigitChars_fractionDigits {k : ℕ} (hk : 0 < k) (units : ℕ) :
    Nat.ofDigitChars 10 (Nat.toDigits 10 (units / 2 ^ k) ++ fractionDigits k units) 0 * 2 ^ k =
      units * 10 ^ (fractionDigits k units).length := by
  have hsplit := Nat.div_add_mod' units (2 ^ k)
  have hten : (10 : ℕ) ^ k = 5 ^ k * 2 ^ k := by rw [← Nat.mul_pow]
  rw [Nat.ofDigitChars_append, Nat.ofDigitChars_ten_toDigits]
  unfold fractionDigits
  split_ifs with hrest
  · rw [Nat.ofDigitChars_nil, List.length_nil, Nat.pow_zero, Nat.mul_one]
    rw [hrest] at hsplit
    exact hsplit
  · have hlt : units % 2 ^ k * 5 ^ k < 10 ^ k := by
      rw [hten, Nat.mul_comm]
      exact Nat.mul_lt_mul_of_pos_left (Nat.mod_lt _ (Nat.two_pow_pos k)) (Nat.pow_pos (by decide))
    rw [ofDigitChars_paddedDigits hk hlt, length_paddedDigits hk hlt]
    calc (10 ^ k * (units / 2 ^ k) + units % 2 ^ k * 5 ^ k) * 2 ^ k
        = (units / 2 ^ k * 2 ^ k) * 10 ^ k + units % 2 ^ k * (5 ^ k * 2 ^ k) := by ring
      _ = (units / 2 ^ k * 2 ^ k + units % 2 ^ k) * 10 ^ k := by rw [← hten, Nat.add_mul]
      _ = units * 10 ^ k := by rw [hsplit]

/-- All the digits of a finite float. -/
def F64.allDigits (a : F64) : Decimal where
  negative := a.bits.msb
  whole := Nat.toDigits 10 (decode 52 a.magnitudeBits / 2 ^ 1074)
  fraction := fractionDigits 1074 (decode 52 a.magnitudeBits)
  whole_ne_nil := Nat.toDigits_ne_nil
  whole_digits _ hc := Nat.isDigit_of_mem_toDigits (by decide) (by decide) hc
  fraction_digits _ hc := isDigit_of_mem_fractionDigits hc

theorem F64.toF64_allDigits {a : F64} (h : a.isFinite = true) : a.allDigits.toF64 = a := by
  unfold Decimal.toF64 ofDecimal allDigits
  dsimp only
  rw [ofDigitChars_fractionDigits (by decide), encodeRatio_mul (Nat.pow_pos (by decide)),
    encode_decode]
  exact ofMagnitude_magnitudeBits h

end Roxo
