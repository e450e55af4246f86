import Mathlib.Algebra.BigOperators.Group.List.Basic
import Mathlib.Algebra.Order.Round
import Mathlib.Data.Rat.Floor
import Mathlib.Tactic.FieldSimp
import Mathlib.Tactic.Linarith
import Mathlib.Tactic.NormNum
import Mathlib.Tactic.Positivity
import Mathlib.Tactic.Push
import Mathlib.Tactic.Ring

/-! Numbers written with a fixed count of decimals and read back, when every operation
is exact: half a unit of the last decimal is the only error, the order is kept, and a
number with so few decimals is itself. -/

namespace Livora.ExactDecimals

variable {x y : ℚ} {digits : ℕ}

/-- `parseFloat(x.toFixed(digits))` where each operation rounds with `arith`; halves go away
from zero, and a number of 22 digits is written in full. -/
def toFixed (arith : ℚ → ℚ) (x : ℚ) (digits : ℕ) : ℚ :=
  if 10 ^ 21 ≤ |x| then x
  else if x < 0 then -arith (round (-x * 10 ^ digits) / 10 ^ digits)
  else arith (round (x * 10 ^ digits) / 10 ^ digits)

theorem toFixed_of_large (h : 10 ^ 21 ≤ x) : toFixed id x digits = x := by
  rw [toFixed, if_pos (h.trans (le_abs_self x))]

theorem toFixed_of_small (h0 : 0 ≤ x) (h : x < 10 ^ 21) :
    toFixed id x digits = round (x * 10 ^ digits) / 10 ^ digits := by
  rw [toFixed, if_neg (by rw [abs_of_nonneg h0]; exact not_le.mpr h), if_neg (not_lt.mpr h0), id_eq]

theorem abs_round_div_sub_le (x : ℚ) (digits : ℕ) :
    |round (x * 10 ^ digits) / 10 ^ digits - x| ≤ 1 / (2 * 10 ^ digits) := by
  have hpos : (0 : ℚ) < 10 ^ digits := by positivity
  have hscale : round (x * 10 ^ digits) / 10 ^ digits - x =
      (round (x * 10 ^ digits) - x * 10 ^ digits) / 10 ^ digits := by
    rw [sub_div, mul_div_cancel_right₀ _ hpos.ne']
  rw [hscale, abs_div, abs_of_pos hpos, div_le_div_iff₀ hpos (by positivity), abs_sub_comm]
  have hround := abs_sub_round (x * 10 ^ digits)
  nlinarith only [hround, hpos]

theorem abs_toFixed_sub_le (digits : ℕ) (h0 : 0 ≤ x) :
    |toFixed id x digits - x| ≤ 1 / (2 * 10 ^ digits) := by
  rcases lt_or_ge x (10 ^ 21) with hsmall | hlarge
  · rw [toFixed_of_small h0 hsmall]
    exact abs_round_div_sub_le x digits
  · rw [toFixed_of_large hlarge, sub_self, abs_zero]
    positivity

theorem round_mono (h : x ≤ y) : round x ≤ round y := by
  rw [round_eq, round_eq]
  exact Int.floor_le_floor (by linarith)

theorem ten_pow_mul (digits : ℕ) :
    (10 : ℚ) ^ 21 * 10 ^ digits = ((10 ^ (21 + digits) : ℕ) : ℚ) := by
  rw [← pow_add, Nat.cast_pow, Nat.cast_ofNat]

theorem toFixed_of_multiple {n : ℕ} (h : x = n / 10 ^ digits) : toFixed id x digits = x := by
  have hpos : (0 : ℚ) < 10 ^ digits := by positivity
  rcases lt_or_ge x (10 ^ 21) with hsmall | hlarge
  · have h0 : 0 ≤ x := h ▸ by positivity
    have hround : round (x * 10 ^ digits) = n := by
      rw [h, div_mul_cancel₀ _ hpos.ne']
      exact round_natCast n
    rw [toFixed_of_small h0 hsmall, hround, Int.cast_natCast, h]
  · exact toFixed_of_large hlarge

theorem toFixed_mono (h0 : 0 ≤ x) (h : x ≤ y) : toFixed id x digits ≤ toFixed id y digits := by
  have hpos : (0 : ℚ) < 10 ^ digits := by positivity
  rcases lt_or_ge x (10 ^ 21) with hx | hx
  · rw [toFixed_of_small h0 hx]
    rcases lt_or_ge y (10 ^ 21) with hy | hy
    · rw [toFixed_of_small (h0.trans h) hy]
      have hround : (round (x * 10 ^ digits) : ℚ) ≤ round (y * 10 ^ digits) := by
        exact_mod_cast round_mono (mul_le_mul_of_nonneg_right h hpos.le)
      exact div_le_div_of_nonneg_right hround hpos.le
    · -- the bound itself is a multiple of the last decimal
      rw [toFixed_of_large hy, div_le_iff₀ hpos]
      have hround := round_mono (mul_le_mul_of_nonneg_right hx.le hpos.le)
      rw [ten_pow_mul, round_natCast] at hround
      have hcast : (round (x * 10 ^ digits) : ℚ) ≤ ((10 ^ (21 + digits) : ℕ) : ℚ) := by
        exact_mod_cast hround
      rw [← ten_pow_mul] at hcast
      exact hcast.trans (mul_le_mul_of_nonneg_right hy hpos.le)
  · rw [toFixed_of_large hx, toFixed_of_large (hx.trans h)]
    exact h

theorem foldl_id_add {β : Type*} (f : β → ℚ) (l : List β) (sum : ℚ) :
    l.foldl (fun sum x => id (sum + f x)) sum = sum + (l.map f).sum := by
  induction l generalizing sum with
  | nil => simp
  | cons x l ih => rw [List.foldl_cons, ih, List.map_cons, List.sum_cons, id_eq, add_assoc]

end Livora.ExactDecimals
