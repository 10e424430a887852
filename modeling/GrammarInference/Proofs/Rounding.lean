import GrammarInference.Number.Binary
import Mathlib.Algebra.Order.Floor.Semifield
import Mathlib.Data.Rat.Floor
import Mathlib.Tactic.FieldSimp
import Mathlib.Tactic.Linarith
import Mathlib.Tactic.Positivity

/-!
# Rounding to 53 bits

The nearest number of 53 bits is off by at most the number itself over `2 ^ 53`, unless it is very
small. This holds of quotients that are at least one (`Number.Binary.abs_nearest_sub_le`) and of
multiples of such numbers (`Number.Binary.abs_scale_sub_le`).
-/

namespace GrammarInference

namespace Number

/-- Rounding to a whole number is off by at most one half. -/
theorem abs_roundHalfEven_sub_le (num : Nat) {den : Nat} (h : 0 < den) :
    |(roundHalfEven num den : ℚ) - num / den| ≤ 1 / 2 := by
  obtain ⟨hupper, hlower⟩ := two_mul_roundHalfEven_le num h
  have hden : (0 : ℚ) < den := by exact_mod_cast h
  have hupper : 2 * ((roundHalfEven num den : ℚ) * den) ≤ 2 * num + den := by exact_mod_cast hupper
  have hlower : (2 * num : ℚ) ≤ 2 * ((roundHalfEven num den : ℚ) * den) + den := by
    exact_mod_cast hlower
  have hnum : (num / den : ℚ) * den = num := div_mul_cancel₀ _ hden.ne'
  refine abs_le.mpr ⟨le_of_mul_le_mul_right ?_ hden, le_of_mul_le_mul_right ?_ hden⟩
  · linarith
  · linarith

theorem roundHalfEven_zero (den : Nat) : roundHalfEven 0 den = 0 := by
  simp [roundHalfEven]

namespace Binary

variable {num den : Nat}

/-- The number that a significand and an exponent stand for. -/
def value (b : Binary) : ℚ := b.significand * 2 ^ b.exponent

theorem value_nonneg (b : Binary) : 0 ≤ b.value :=
  mul_nonneg (Nat.cast_nonneg _) (zpow_nonneg two_pos.le _)

/-! ### Multiples of a power of two -/

theorem cast_pow_two (k : Nat) : ((Nat.pow 2 k : Nat) : ℚ) = 2 ^ (k : Int) := by
  rw [zpow_natCast]
  exact Nat.cast_pow 2 k

/-- A number is rounded to a multiple of a power of two by rounding their quotient. -/
theorem significand_atExponent (num : Nat) (hden : 0 < den) (e : Int) :
    ∃ n d, (atExponent num den e).significand = roundHalfEven n d ∧ 0 < d ∧
      (n / d : ℚ) = num / den / 2 ^ e := by
  unfold atExponent
  split
  · next h =>
    refine ⟨_, _, rfl, Nat.mul_pos hden (Nat.pow_pos Nat.two_pos), ?_⟩
    rw [Nat.cast_mul, cast_pow_two, Int.toNat_of_nonneg h, div_div]
  · next h =>
    refine ⟨_, _, rfl, hden, ?_⟩
    rw [Nat.cast_mul, cast_pow_two, Int.toNat_of_nonneg (by omega), zpow_neg]
    field_simp

theorem exponent_atExponent (e : Int) : (atExponent num den e).exponent = e := by
  unfold atExponent
  split <;> rfl

/-- The rounding to a multiple of a power of two is off by at most half of the power. -/
theorem abs_atExponent_sub_le (hden : 0 < den) (e : Int) :
    |(atExponent num den e).value - num / den| ≤ 2 ^ e / 2 := by
  have hpow : (0 : ℚ) < 2 ^ e := zpow_pos two_pos e
  obtain ⟨n, d, hsig, hd, hquot⟩ := significand_atExponent num hden e
  have hround := abs_roundHalfEven_sub_le n hd
  have hscaled : (atExponent num den e).value - num / den =
      ((roundHalfEven n d : ℚ) - n / d) * 2 ^ e := by
    rw [value, hsig, exponent_atExponent, hquot, sub_mul, div_mul_cancel₀ _ hpow.ne']
  rw [hscaled, abs_mul, abs_of_pos hpow]
  linarith [mul_le_mul_of_nonneg_right hround hpow.le]

theorem needsFiner_iff (hden : 0 < den) (e : Int) :
    needsFiner num den e = true ↔ (num / den : ℚ) < 2 ^ (52 + e) := by
  have hden : (0 : ℚ) < den := by exact_mod_cast hden
  unfold needsFiner
  rw [div_lt_iff₀ hden]
  split
  · next h =>
    rw [decide_eq_true_iff, ← Nat.cast_lt (α := ℚ), Nat.cast_mul, cast_pow_two, Nat.cast_add,
      Int.toNat_of_nonneg h, mul_comm]
    rfl
  · next h =>
    have hpow : (0 : ℚ) < 2 ^ (-e) := zpow_pos two_pos _
    have hscale : (2 ^ (52 + e) * den * 2 ^ (-e) : ℚ) = den * 2 ^ ((52 : Nat) : Int) := by
      rw [mul_right_comm, ← zpow_add₀ two_ne_zero, add_neg_cancel_right, mul_comm]
      rfl
    rw [decide_eq_true_iff, ← Nat.cast_lt (α := ℚ), Nat.cast_mul, Nat.cast_mul, cast_pow_two,
      cast_pow_two, Int.toNat_of_nonneg (by omega), ← hscale, mul_lt_mul_iff_left₀ hpow]

/-! ### Quotients -/

/-- The exponent that a quotient is rounded with leaves at least 53 bits. -/
theorem two_zpow_exponent_nearest_le (hden : 0 < den) (h : den ≤ num) :
    ∃ e : Int, nearest num den = atExponent num den e ∧ (2 ^ (52 + e) : ℚ) ≤ num / den := by
  have hdenq : (0 : ℚ) < den := by exact_mod_cast hden
  have hlog : den.log2 ≤ num.log2 := by
    rw [Nat.le_log2 (by omega)]
    exact (Nat.log2_self_le (by omega)).trans h
  have hnum : (2 : ℚ) ^ (num.log2 : Int) ≤ num := by
    rw [zpow_natCast]
    exact_mod_cast Nat.log2_self_le (by omega)
  have hlt : (den : ℚ) < 2 ^ ((den.log2 + 1 : Nat) : Int) := by
    rw [zpow_natCast]
    exact_mod_cast Nat.lt_log2_self
  unfold nearest
  dsimp only
  split
  · next hfiner =>
    rw [max_eq_left (by omega)]
    refine ⟨_, rfl, ?_⟩
    rw [le_div_iff₀ hdenq]
    calc (2 : ℚ) ^ (52 + ((num.log2 : Int) - den.log2 - 52 - 1)) * den
        ≤ 2 ^ (52 + ((num.log2 : Int) - den.log2 - 52 - 1)) * 2 ^ ((den.log2 + 1 : Nat) : Int) :=
          mul_le_mul_of_nonneg_left hlt.le (zpow_nonneg two_pos.le _)
      _ = 2 ^ (num.log2 : Int) := by
          rw [← zpow_add₀ two_ne_zero]
          congr 1
          omega
      _ ≤ num := hnum
  · next hcoarse =>
    rw [max_eq_left (by omega)]
    exact ⟨_, rfl, not_lt.mp fun hlt => hcoarse ((needsFiner_iff hden _).mpr hlt)⟩

/-- The nearest number of 53 bits is off by at most the number itself over `2 ^ 53`. -/
theorem abs_nearest_sub_le (hden : 0 < den) (h : den ≤ num) :
    |(nearest num den).value - num / den| ≤ num / den / 2 ^ 53 := by
  obtain ⟨e, heq, hexp⟩ := two_zpow_exponent_nearest_le hden h
  rw [heq]
  refine (abs_atExponent_sub_le hden e).trans ?_
  rw [zpow_add₀ two_ne_zero] at hexp
  norm_num at hexp ⊢
  linarith

theorem value_nearest_zero (den : Nat) : (nearest 0 den).value = 0 := by
  unfold nearest atExponent
  dsimp only
  split <;> simp [value, roundHalfEven_zero]

/-! ### Multiples -/

/-- A multiple of a number is the nearest one to a quotient. -/
theorem scale_eq_nearest (b : Binary) (factor : Nat) :
    ∃ num den, b.scale factor = nearest num den ∧ 0 < den ∧
      (num / den : ℚ) = factor * b.value ∧ (factor = 0 → num = 0) := by
  unfold scale value
  split
  · next h =>
    refine ⟨_, _, rfl, Nat.one_pos, ?_, fun hzero => by simp [hzero]⟩
    rw [Nat.cast_mul, Nat.cast_mul, cast_pow_two, Int.toNat_of_nonneg h, Nat.cast_one, div_one,
      mul_assoc]
  · next h =>
    refine ⟨_, _, rfl, Nat.pow_pos Nat.two_pos, ?_, fun hzero => by simp [hzero]⟩
    rw [Nat.cast_mul, cast_pow_two, Int.toNat_of_nonneg (by omega), zpow_neg, div_inv_eq_mul,
      mul_assoc]

/-- A multiple of a number that is at least one is off by at most the multiple over `2 ^ 53`. -/
theorem abs_scale_sub_le {b : Binary} (hb : 1 ≤ b.value) (factor : Nat) :
    |(scale factor b).value - factor * b.value| ≤ factor * b.value / 2 ^ 53 := by
  obtain ⟨num, den, heq, hden, hquot, hzero⟩ := scale_eq_nearest b factor
  rw [heq]
  rcases Nat.eq_zero_or_pos factor with rfl | hpos
  · rw [hzero rfl, value_nearest_zero]
    simp
  · rw [← hquot]
    refine abs_nearest_sub_le hden ?_
    have hfactor : (1 : ℚ) ≤ factor := by exact_mod_cast hpos
    have hdenq : (0 : ℚ) < den := by exact_mod_cast hden
    have hone : (1 : ℚ) ≤ num / den := hquot ▸ one_le_mul_of_one_le_of_one_le hfactor hb
    rw [one_le_div hdenq] at hone
    exact_mod_cast hone

/-- The whole part of a number is its floor. -/
theorem floor_eq (b : Binary) : b.floor = ⌊b.value⌋₊ := by
  unfold floor value
  split
  · next h =>
    have hvalue : (b.significand * 2 ^ b.exponent : ℚ) =
        ((b.significand * Nat.pow 2 b.exponent.toNat : Nat) : ℚ) := by
      rw [Nat.cast_mul, cast_pow_two, Int.toNat_of_nonneg h]
    rw [hvalue, Nat.floor_natCast]
  · next h =>
    have hvalue : (b.significand * 2 ^ b.exponent : ℚ) =
        (b.significand : ℚ) / ((Nat.pow 2 (-b.exponent).toNat : Nat) : ℚ) := by
      rw [cast_pow_two, Int.toNat_of_nonneg (by omega), zpow_neg, div_inv_eq_mul]
    rw [hvalue, Nat.floor_div_eq_div]

end Binary

end Number

end GrammarInference
