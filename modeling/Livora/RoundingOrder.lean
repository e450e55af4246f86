import Livora.DoubleRounding

/-! Rounding to the nearest number keeps the order: no representable number is
nearer than the one chosen, so two roundings cannot cross. -/

namespace Livora.DoubleRounding

variable {x y r : ℚ}

theorem abs_roundEven_sub_le_abs (x : ℚ) (n : ℤ) : |(roundEven x : ℚ) - x| ≤ |(n : ℚ) - x| := by
  have hclose := abs_roundEven_sub_le x
  by_cases hn : n = roundEven x
  · rw [hn]
  have hapart : (1 : ℚ) ≤ |(n : ℚ) - roundEven x| := by
    exact_mod_cast Int.one_le_abs (sub_ne_zero.mpr hn)
  have htri := abs_sub_le (n : ℚ) x (roundEven x)
  rw [abs_sub_comm x] at htri
  linarith

theorem two_zpow_lastPlace_pos (x : ℚ) : (0 : ℚ) < 2 ^ lastPlace x := by positivity

theorem abs_fl_sub_le_of_multiple {n : ℤ} (hr : r = n * 2 ^ lastPlace x) :
    |fl x - x| ≤ |r - x| := by
  have hpos := two_zpow_lastPlace_pos x
  have hscale (z : ℚ) : z * 2 ^ lastPlace x - x = (z - x / 2 ^ lastPlace x) * 2 ^ lastPlace x := by
    rw [sub_mul, div_mul_cancel₀ _ hpos.ne']
  rw [fl, hr, hscale, hscale, abs_mul, abs_mul]
  exact mul_le_mul_of_nonneg_right (abs_roundEven_sub_le_abs _ n) (abs_nonneg _)

theorem abs_lt_of_not_multiple (h0 : x ≠ 0) (hr : Representable r)
    (h : ∀ n : ℤ, r ≠ n * 2 ^ lastPlace x) :
    |r| < 2 ^ (lastPlace x + 52) ∧ (2 : ℚ) ^ (lastPlace x + 52) ≤ |x| := by
  obtain ⟨m, e, hval, hm, he⟩ := hr
  have hlt : e < lastPlace x := by
    by_contra hge
    obtain ⟨d, hd⟩ := Int.eq_ofNat_of_zero_le (sub_nonneg.mpr (not_lt.mp hge))
    refine h (m * 2 ^ d) ?_
    rw [hval, show e = d + lastPlace x by omega, zpow_add₀ (by norm_num), zpow_natCast]
    push_cast
    ring
  constructor
  · have hm' : |(m : ℚ)| < 2 ^ (53 : ℤ) := by exact_mod_cast hm
    calc |r| = |(m : ℚ)| * 2 ^ e := by
          rw [hval, abs_mul, abs_of_pos (by positivity : (0 : ℚ) < 2 ^ e)]
      _ < 2 ^ (53 : ℤ) * 2 ^ e := mul_lt_mul_of_pos_right hm' (by positivity)
      _ = 2 ^ (53 + e) := (zpow_add₀ (by norm_num) _ _).symm
      _ ≤ 2 ^ (lastPlace x + 52) := zpow_le_zpow_right₀ (by norm_num) (by omega)
  · have hplace : lastPlace x = Int.log 2 |x| - 52 := by
      unfold lastPlace at hlt ⊢
      omega
    rw [hplace, sub_add_cancel]
    exact_mod_cast Int.zpow_log_le_self (b := 2) (by norm_num) (abs_pos.mpr h0)

theorem abs_fl_sub_le_abs (hr : Representable r) : |fl x - x| ≤ |r - x| := by
  by_cases h0 : x = 0
  · rw [h0, fl_zero, sub_zero, abs_zero]
    exact abs_nonneg _
  by_cases h : ∃ n : ℤ, r = n * 2 ^ lastPlace x
  · obtain ⟨n, hn⟩ := h
    exact abs_fl_sub_le_of_multiple hn
  · -- the bound of the binade lies between
    obtain ⟨hsmall, hlarge⟩ := abs_lt_of_not_multiple h0 hr fun n hn => h ⟨n, hn⟩
    have hbound : (2 : ℚ) ^ (lastPlace x + 52) = ((2 ^ 52 : ℤ) : ℚ) * 2 ^ lastPlace x := by
      rw [zpow_add₀ (by norm_num), mul_comm]
      norm_num
    obtain ⟨hlow, hhigh⟩ := abs_lt.mp hsmall
    rcases le_total 0 x with hsign | hsign
    · rw [abs_of_nonneg hsign] at hlarge
      refine (abs_fl_sub_le_of_multiple hbound).trans ?_
      rw [abs_of_nonpos (by linarith), abs_of_nonpos (by linarith)]
      linarith
    · rw [abs_of_nonpos hsign] at hlarge
      refine (abs_fl_sub_le_of_multiple (r := -2 ^ (lastPlace x + 52)) (n := -2 ^ 52) ?_).trans ?_
      · rw [hbound]
        push_cast
        ring
      · rw [abs_of_nonneg (by linarith), abs_of_nonneg (by linarith)]
        linarith

theorem fl_mono (h : x ≤ y) : fl x ≤ fl y := by
  by_contra hcross
  rw [not_le] at hcross
  have hx := abs_fl_sub_le_abs (x := x) (fl_representable y)
  have hy := abs_fl_sub_le_abs (x := y) (fl_representable x)
  -- both lie between the two roundings, and each is nearer to the other's side
  rcases le_total x (fl y) with hlow | hlow
  · rw [abs_of_nonneg (sub_nonneg.mpr hlow), abs_of_nonneg (by linarith)] at hx
    linarith
  · rcases le_total (fl x) y with hhigh | hhigh
    · rw [abs_of_nonpos (sub_nonpos.mpr hhigh), abs_of_nonpos (by linarith)] at hy
      linarith
    · have hle : fl x - x ≤ x - fl y := by
        have := (le_abs_self (fl x - x)).trans hx
        rwa [abs_of_nonpos (by linarith : fl y - x ≤ 0), neg_sub] at this
      have hge : y - fl y ≤ fl x - y := by
        have := (neg_le_abs (fl y - y)).trans hy
        rwa [neg_sub, abs_of_nonneg (by linarith : 0 ≤ fl x - y)] at this
      have hxy : x = y := by linarith
      rw [hxy] at hcross
      exact lt_irrefl _ hcross

end Livora.DoubleRounding
