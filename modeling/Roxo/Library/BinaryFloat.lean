import Mathlib.Algebra.Order.Ring.Int
import Mathlib.Algebra.Order.Ring.Nat
import Mathlib.Data.Nat.Log
import Mathlib.Tactic.Ring

/-!
# Magnitudes of binary floats

A binary format with fractions of some length counts in units of its least positive float. The
bits of a finite magnitude, exponent and fraction together, are a natural number, and `decode` is
how many units it is. `encode` rounds to the nearest magnitude, and of two to the even one; the
exponent is not bounded here.
-/

namespace BinaryFloat

/-- The units of a magnitude. -/
def decode (fraction bits : ℕ) : ℕ :=
  if bits / 2 ^ fraction = 0 then bits % 2 ^ fraction
  else (2 ^ fraction + bits % 2 ^ fraction) * 2 ^ (bits / 2 ^ fraction - 1)

/-- A number divided by a power of two, to the nearest integer, and of two to the even one. -/
def roundEven (n shift : ℕ) : ℕ :=
  let quotient := n / 2 ^ shift
  let remainder := n % 2 ^ shift
  if 2 * remainder > 2 ^ shift ∨ 2 * remainder = 2 ^ shift ∧ quotient % 2 = 1 then quotient + 1
  else quotient

/-- The magnitude nearest to `n / 2 ^ shift` units. -/
def encode (fraction n shift : ℕ) : ℕ :=
  let spare := n.log2 - shift - fraction
  spare * 2 ^ fraction + roundEven n (spare + shift)

/-- The magnitude nearest to `n / d` units. Whatever is lost of a fraction shows in the last bit. -/
def encodeRatio (fraction n d : ℕ) : ℕ :=
  encode fraction (2 * (2 * n / d) + if 2 * n % d = 0 then 0 else 1) 2

/-- The number of units that has a magnitude and is nearest to `n`. -/
def round (fraction n : ℕ) : ℕ := decode fraction (encode fraction n 0)

theorem roundEven_of_dvd {n shift : ℕ} (h : 2 ^ shift ∣ n) : roundEven n shift = n / 2 ^ shift := by
  have hpos : 0 < 2 ^ shift := Nat.two_pow_pos shift
  unfold roundEven
  dsimp only
  rw [Nat.mod_eq_zero_of_dvd h, if_neg]
  rintro (hgt | ⟨heq, -⟩) <;> omega

theorem decode_of_lt {fraction bits : ℕ} (h : bits < 2 ^ fraction) :
    decode fraction bits = bits := by
  unfold decode
  rw [if_pos (Nat.div_eq_of_lt h), Nat.mod_eq_of_lt h]

/-- A significand with its first bit, and the exponent. -/
theorem decode_normal {fraction exponent significand : ℕ} (hlow : 2 ^ fraction ≤ significand)
    (hhigh : significand < 2 * 2 ^ fraction) :
    decode fraction (exponent * 2 ^ fraction + significand) = significand * 2 ^ exponent := by
  obtain ⟨rest, rfl⟩ := Nat.exists_eq_add_of_le hlow
  have hrest : rest < 2 ^ fraction := by omega
  have hbits : exponent * 2 ^ fraction + (2 ^ fraction + rest) =
      rest + 2 ^ fraction * (exponent + 1) := by
    rw [Nat.mul_add, Nat.mul_comm (2 ^ fraction) exponent]
    omega
  have hpos : 0 < 2 ^ fraction := Nat.two_pow_pos fraction
  have hquotient : (rest + 2 ^ fraction * (exponent + 1)) / 2 ^ fraction = exponent + 1 := by
    rw [Nat.add_mul_div_left _ _ hpos, Nat.div_eq_of_lt hrest, Nat.zero_add]
  have hremainder : (rest + 2 ^ fraction * (exponent + 1)) % 2 ^ fraction = rest := by
    rw [Nat.add_mul_mod_self_left, Nat.mod_eq_of_lt hrest]
  unfold decode
  rw [hbits, hquotient, hremainder, if_neg (Nat.succ_ne_zero exponent), Nat.add_sub_cancel]

theorem encode_of_dvd {fraction n : ℕ} (h : 2 ^ (n.log2 - fraction) ∣ n) : encode fraction n 0 =
    (n.log2 - fraction) * 2 ^ fraction + n / 2 ^ (n.log2 - fraction) := by
  unfold encode
  dsimp only
  rw [Nat.sub_zero, Nat.add_zero, roundEven_of_dvd h]

theorem log2_mul_two_pow {n : ℕ} (hn : n ≠ 0) (k : ℕ) : (n * 2 ^ k).log2 = n.log2 + k := by
  induction k with
  | zero => rw [Nat.pow_zero, Nat.mul_one, Nat.add_zero]
  | succ k ih =>
    have hne : n * 2 ^ k ≠ 0 := Nat.mul_ne_zero hn (Nat.two_pow_pos k).ne'
    rw [Nat.pow_succ, ← Nat.mul_assoc, Nat.mul_comm _ 2, Nat.log2_two_mul hne, ih, Nat.add_assoc]

/-- A number of units for which the fraction has room is itself. -/
theorem decode_encode {fraction n : ℕ} (h : 2 ^ (n.log2 - fraction) ∣ n) :
    decode fraction (encode fraction n 0) = n := by
  rw [encode_of_dvd h]
  rcases lt_or_ge n (2 ^ fraction) with hsmall | hlarge
  · have hspare : n.log2 - fraction = 0 := by
      rcases Nat.eq_zero_or_pos n with rfl | hn
      · exact Nat.zero_sub fraction
      · exact Nat.sub_eq_zero_of_le ((Nat.log2_lt hn.ne').mpr hsmall).le
    rw [hspare, Nat.zero_mul, Nat.zero_add, Nat.pow_zero, Nat.div_one, decode_of_lt hsmall]
  · have hne : n ≠ 0 := by
      have hpos : 0 < 2 ^ fraction := Nat.two_pow_pos fraction
      omega
    have hlog : fraction ≤ n.log2 := (Nat.le_log2 hne).mpr hlarge
    have hsplit : 2 ^ n.log2 = 2 ^ fraction * 2 ^ (n.log2 - fraction) := by
      rw [← Nat.pow_add, Nat.add_sub_cancel' hlog]
    have hspare : 0 < 2 ^ (n.log2 - fraction) := Nat.two_pow_pos _
    rw [decode_normal, Nat.div_mul_cancel h]
    · rw [Nat.le_div_iff_mul_le hspare, ← hsplit]
      exact Nat.log2_self_le hne
    · rw [Nat.div_lt_iff_lt_mul hspare, Nat.mul_assoc, ← hsplit, Nat.mul_comm, ← Nat.pow_succ]
      exact Nat.lt_log2_self

/-! ## Rounding -/

theorem roundEven_mul_add {shift quotient rest : ℕ} (hrest : rest < 2 ^ shift) :
    roundEven (quotient * 2 ^ shift + rest) shift =
      if 2 * rest > 2 ^ shift ∨ 2 * rest = 2 ^ shift ∧ quotient % 2 = 1 then quotient + 1
      else quotient := by
  have hquotient : (quotient * 2 ^ shift + rest) / 2 ^ shift = quotient := by
    rw [Nat.mul_comm, Nat.mul_add_div (Nat.two_pow_pos _), Nat.div_eq_of_lt hrest, Nat.add_zero]
  have hremainder : (quotient * 2 ^ shift + rest) % 2 ^ shift = rest := by
    rw [Nat.mul_comm, Nat.mul_add_mod, Nat.mod_eq_of_lt hrest]
  unfold roundEven
  dsimp only
  rw [hquotient, hremainder]

/-- A significand that may be a bit longer than there is room for. -/
theorem decode_carry {fraction exponent significand : ℕ} (hlow : 2 ^ fraction ≤ significand)
    (hhigh : significand ≤ 2 * 2 ^ fraction) :
    decode fraction (exponent * 2 ^ fraction + significand) = significand * 2 ^ exponent := by
  rcases hhigh.lt_or_eq with hlt | rfl
  · exact decode_normal hlow hlt
  · have hbits : exponent * 2 ^ fraction + 2 * 2 ^ fraction =
        (exponent + 1) * 2 ^ fraction + 2 ^ fraction := by ring
    have hpos : 0 < 2 ^ fraction := Nat.two_pow_pos fraction
    rw [hbits, decode_normal (Nat.le_refl _) (by omega), Nat.pow_succ]
    ring

theorem log2_sub_of_lt {fraction n : ℕ} (h : n < 2 ^ (fraction + 1)) : n.log2 - fraction = 0 := by
  rcases Nat.eq_zero_or_pos n with rfl | hn
  · exact Nat.zero_sub fraction
  · exact Nat.sub_eq_zero_of_le (Nat.lt_succ_iff.mp ((Nat.log2_lt hn.ne').mpr h))

theorem round_of_lt {fraction n : ℕ} (h : n < 2 ^ (fraction + 1)) : round fraction n = n := by
  refine decode_encode ?_
  rw [log2_sub_of_lt h, Nat.pow_zero]
  exact Nat.one_dvd n

/-- A significand with its first bit, the exponent, and what there is no room for. -/
structure Split (fraction n exponent significand rest : ℕ) : Prop where
  low : 2 ^ fraction ≤ significand
  high : significand < 2 * 2 ^ fraction
  rest_lt : rest < 2 ^ exponent
  eq : n = significand * 2 ^ exponent + rest

variable {fraction n exponent significand rest : ℕ}

theorem exists_split (h : 2 ^ (fraction + 1) ≤ n) :
    ∃ exponent significand rest, 0 < exponent ∧ Split fraction n exponent significand rest := by
  have hne : n ≠ 0 := (lt_of_lt_of_le (Nat.two_pow_pos _) h).ne'
  obtain ⟨exponent, hexponent⟩ := Nat.exists_eq_add_of_le ((Nat.le_log2 hne).mpr h)
  have hpos : 0 < 2 ^ (exponent + 1) := Nat.two_pow_pos _
  have hlog : n.log2 = fraction + (exponent + 1) := by omega
  refine ⟨exponent + 1, n / 2 ^ (exponent + 1), n % 2 ^ (exponent + 1), Nat.succ_pos _, ?_, ?_,
    Nat.mod_lt _ hpos, (Nat.div_add_mod' n _).symm⟩
  · rw [Nat.le_div_iff_mul_le hpos, ← Nat.pow_add, ← hlog]
    exact Nat.log2_self_le hne
  · rw [Nat.div_lt_iff_lt_mul hpos, Nat.mul_assoc, ← Nat.pow_add, ← hlog, Nat.mul_comm,
      ← Nat.pow_succ]
    exact Nat.lt_log2_self

theorem Split.log2_eq (h : Split fraction n exponent significand rest) :
    n.log2 = fraction + exponent := by
  obtain ⟨hlow, hhigh, hrest, rfl⟩ := h
  have hge : 2 ^ (fraction + exponent) ≤ significand * 2 ^ exponent + rest := by
    rw [Nat.pow_add]
    exact (Nat.mul_le_mul_right _ hlow).trans (Nat.le_add_right _ _)
  rw [Nat.log2_eq_iff (lt_of_lt_of_le (Nat.two_pow_pos _) hge).ne']
  refine ⟨hge, ?_⟩
  calc significand * 2 ^ exponent + rest < significand * 2 ^ exponent + 2 ^ exponent := by omega
    _ = (significand + 1) * 2 ^ exponent := by ring
    _ ≤ 2 * 2 ^ fraction * 2 ^ exponent := Nat.mul_le_mul_right _ hhigh
    _ = 2 ^ (fraction + exponent + 1) := by ring

theorem Split.round_eq (h : Split fraction n exponent significand rest) :
    round fraction n =
      (if 2 * rest > 2 ^ exponent ∨ 2 * rest = 2 ^ exponent ∧ significand % 2 = 1 then
        significand + 1 else significand) * 2 ^ exponent := by
  unfold round encode
  dsimp only
  rw [h.log2_eq, Nat.sub_zero, Nat.add_sub_cancel_left, Nat.add_zero, h.eq,
    roundEven_mul_add h.rest_lt]
  have hlow := h.low
  have hhigh := h.high
  refine decode_carry ?_ ?_ <;> split_ifs <;> omega

/-- The exponent and the significand bound the bits. -/
theorem encode_le (fraction n : ℕ) :
    encode fraction n 0 ≤ (n.log2 - fraction + 2) * 2 ^ fraction := by
  unfold encode
  dsimp only
  rw [Nat.sub_zero, Nat.add_zero, Nat.add_mul]
  refine Nat.add_le_add_left ?_ _
  rcases lt_or_ge n (2 ^ (fraction + 1)) with hlt | hge
  · rw [log2_sub_of_lt hlt]
    have hself : roundEven n 0 = n := by
      rw [roundEven_of_dvd (Nat.one_dvd n), Nat.pow_zero, Nat.div_one]
    rw [Nat.pow_succ] at hlt
    omega
  · obtain ⟨exponent, significand, rest, -, hsplit⟩ := exists_split hge
    have hhigh := hsplit.high
    rw [hsplit.log2_eq, Nat.add_sub_cancel_left, hsplit.eq, roundEven_mul_add hsplit.rest_lt]
    split_ifs <;> omega

/-- What is its own rounding has no bits behind those that there is room for. -/
theorem round_eq_iff {fraction n : ℕ} : round fraction n = n ↔ 2 ^ (n.log2 - fraction) ∣ n := by
  refine ⟨fun h => ?_, decode_encode⟩
  rcases lt_or_ge n (2 ^ (fraction + 1)) with hlt | hge
  · rw [log2_sub_of_lt hlt]
    exact Nat.one_dvd n
  · obtain ⟨exponent, significand, rest, -, hsplit⟩ := exists_split hge
    rw [hsplit.log2_eq, Nat.add_sub_cancel_left]
    have hround := hsplit.round_eq
    rw [h] at hround
    exact ⟨_, hround.trans (Nat.mul_comm _ _)⟩

/-- What has no fraction rounds to what has none. -/
theorem le_round (h : 2 ^ (fraction + 1) ≤ n) : 2 ^ (fraction + 1) ≤ round fraction n := by
  obtain ⟨exponent, significand, rest, hexponent, hsplit⟩ := exists_split h
  have htwo : 2 ≤ 2 ^ exponent := by
    calc 2 = 2 ^ 1 := rfl
      _ ≤ 2 ^ exponent := Nat.pow_le_pow_right Nat.two_pos hexponent
  rw [hsplit.round_eq, Nat.pow_succ]
  refine Nat.mul_le_mul ?_ htwo
  split_ifs
  · exact hsplit.low.trans (Nat.le_succ _)
  · exact hsplit.low

/-- Where the last bit stands for more than one unit, one more unit is lost, or is enough to get to
a significand that is even. -/
theorem round_succ (hexponent : 0 < exponent) (hlow : 2 ^ fraction ≤ significand)
    (hhigh : significand < 2 * 2 ^ fraction) :
    round fraction (significand * 2 ^ exponent + 1) =
      (if exponent = 1 ∧ significand % 2 = 1 then significand + 1 else significand) *
        2 ^ exponent := by
  obtain ⟨exponent, rfl⟩ := Nat.exists_eq_succ_of_ne_zero hexponent.ne'
  have hpos : 0 < 2 ^ exponent := Nat.two_pow_pos exponent
  have hone : 1 < 2 ^ (exponent + 1) := by
    rw [Nat.pow_succ]
    omega
  have hsplit : Split fraction (significand * 2 ^ (exponent + 1) + 1) (exponent + 1) significand 1 :=
    ⟨hlow, hhigh, hone, rfl⟩
  have htie : 2 * 1 = 2 ^ (exponent + 1) ↔ exponent + 1 = 1 := by
    rw [Nat.pow_succ]
    constructor
    · intro h
      have : 2 ^ exponent = 1 := by omega
      rw [Nat.pow_eq_one] at this
      omega
    · intro h
      obtain rfl : exponent = 0 := by omega
      rfl
  have hnot : ¬2 * 1 > 2 ^ (exponent + 1) := by omega
  rw [hsplit.round_eq]
  simp only [htie, hnot, false_or]

/-- A significand that is a bit too long is that of the next exponent. -/
theorem exists_normal (hexponent : 0 < exponent) (hlow : 2 ^ fraction ≤ significand)
    (hhigh : significand ≤ 2 * 2 ^ fraction) :
    ∃ exponent' significand', 0 < exponent' ∧ 2 ^ fraction ≤ significand' ∧
      significand' < 2 * 2 ^ fraction ∧
      significand * 2 ^ exponent = significand' * 2 ^ exponent' ∧
      (significand % 2 = 0 → exponent' = 1 → significand' % 2 = 0) := by
  have hpos : 0 < 2 ^ fraction := Nat.two_pow_pos fraction
  rcases hhigh.lt_or_eq with hlt | rfl
  · exact ⟨exponent, significand, hexponent, hlow, hlt, rfl, fun heven _ => heven⟩
  · refine ⟨exponent + 1, 2 ^ fraction, Nat.succ_pos _, Nat.le_refl _, by omega, by ring, ?_⟩
    intro _ hone
    omega

/-- Counting on by ones from a float with no fraction goes at most one float further. -/
theorem round_succ_succ (h : 2 ^ (fraction + 1) ≤ n) :
    round fraction (round fraction (round fraction n + 1) + 1) =
      round fraction (round fraction n + 1) := by
  obtain ⟨k, quotient, rest, hk, hsplit⟩ := exists_split h
  have hquotient := hsplit.low
  have hquotient' := hsplit.high
  obtain ⟨exponent, significand, hexponent, hlow, hhigh, hround, -⟩ : ∃ exponent significand,
      0 < exponent ∧ 2 ^ fraction ≤ significand ∧ significand < 2 * 2 ^ fraction ∧
        round fraction n = significand * 2 ^ exponent ∧ _ := by
    rw [hsplit.round_eq]
    refine exists_normal hk ?_ ?_ <;> split_ifs <;> omega
  rw [hround, round_succ hexponent hlow hhigh]
  split_ifs with htie
  · obtain ⟨exponent', significand', hexponent', hlow', hhigh', heq, heven⟩ :=
      @exists_normal fraction exponent (significand + 1) hexponent (by omega) (by omega)
    rw [heq, round_succ hexponent' hlow' hhigh', if_neg]
    rintro ⟨hone, hodd⟩
    have := heven (by omega) hone
    omega
  · rw [round_succ hexponent hlow hhigh, if_neg htie]

/-! ## Exact numbers -/

/-- The bits of a magnitude are found again. -/
theorem encode_decode (fraction bits : ℕ) : encode fraction (decode fraction bits) 0 = bits := by
  have hpos : 0 < 2 ^ fraction := Nat.two_pow_pos fraction
  have hsplit : bits / 2 ^ fraction * 2 ^ fraction + bits % 2 ^ fraction = bits :=
    Nat.div_add_mod' bits _
  have hrest : bits % 2 ^ fraction < 2 ^ fraction := Nat.mod_lt _ hpos
  rcases Nat.eq_zero_or_pos (bits / 2 ^ fraction) with hzero | hexponent
  · have hlt : bits < 2 ^ fraction := by
      rw [hzero] at hsplit
      omega
    have hlog : bits.log2 - fraction = 0 := log2_sub_of_lt (hlt.trans (by rw [Nat.pow_succ]; omega))
    rw [decode_of_lt hlt, encode_of_dvd (by rw [hlog]; exact Nat.one_dvd _), hlog, Nat.zero_mul,
      Nat.zero_add, Nat.pow_zero, Nat.div_one]
  · obtain ⟨exponent, hexp⟩ := Nat.exists_eq_add_of_lt hexponent
    rw [Nat.zero_add] at hexp
    have hdecode : decode fraction bits = (2 ^ fraction + bits % 2 ^ fraction) * 2 ^ exponent := by
      unfold decode
      rw [if_neg hexponent.ne', hexp, Nat.add_sub_cancel]
    have hnormal : Split fraction (decode fraction bits) exponent
        (2 ^ fraction + bits % 2 ^ fraction) 0 := ⟨by omega, by omega, Nat.two_pow_pos _, hdecode⟩
    have hlog : (decode fraction bits).log2 - fraction = exponent := by
      rw [hnormal.log2_eq, Nat.add_sub_cancel_left]
    rw [encode_of_dvd (by rw [hlog, hdecode]; exact Nat.dvd_mul_left _ _), hlog, hdecode,
      Nat.mul_div_cancel _ (Nat.two_pow_pos _)]
    rw [hexp, Nat.add_one_mul] at hsplit
    omega

theorem roundEven_mul_two_pow (n shift k : ℕ) :
    roundEven (n * 2 ^ k) (shift + k) = roundEven n shift := by
  have hpos : 0 < 2 ^ k := Nat.two_pow_pos k
  have hquotient : n * 2 ^ k / 2 ^ (shift + k) = n / 2 ^ shift := by
    rw [Nat.pow_add, Nat.mul_div_mul_right _ _ hpos]
  have hremainder : n * 2 ^ k % 2 ^ (shift + k) = n % 2 ^ shift * 2 ^ k := by
    rw [Nat.pow_add, Nat.mul_mod_mul_right]
  unfold roundEven
  dsimp only
  rw [hquotient, hremainder, Nat.pow_add, ← Nat.mul_assoc]
  simp only [gt_iff_lt, Nat.mul_lt_mul_right hpos, Nat.mul_left_inj hpos.ne']

/-- Units may be told in smaller ones. -/
theorem encode_mul_two_pow (fraction n k : ℕ) :
    encode fraction (n * 2 ^ k) k = encode fraction n 0 := by
  unfold encode
  dsimp only
  rcases Nat.eq_zero_or_pos n with rfl | hpos
  · rw [Nat.zero_mul, Nat.log2_zero, Nat.zero_sub, Nat.zero_sub, Nat.zero_mul, roundEven_of_dvd
      (Nat.dvd_zero _), roundEven_of_dvd (Nat.dvd_zero _), Nat.zero_div, Nat.zero_div]
  · rw [log2_mul_two_pow hpos.ne', Nat.add_sub_cancel, Nat.sub_zero, Nat.add_zero,
      roundEven_mul_two_pow]

theorem encodeRatio_mul {fraction n d : ℕ} (hd : 0 < d) :
    encodeRatio fraction (n * d) d = encode fraction n 0 := by
  have hquotient : 2 * (n * d) / d = 2 * n := by
    rw [← Nat.mul_assoc, Nat.mul_div_cancel _ hd]
  have hremainder : 2 * (n * d) % d = 0 := by
    rw [← Nat.mul_assoc, Nat.mul_mod_left]
  unfold encodeRatio
  rw [hquotient, hremainder, if_pos rfl, Nat.add_zero, ← encode_mul_two_pow fraction n 2]
  ring_nf

end BinaryFloat
