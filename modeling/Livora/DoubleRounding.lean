import Mathlib.Algebra.Order.Field.Power
import Mathlib.Algebra.Order.Round
import Mathlib.Data.Int.Log
import Mathlib.Data.Rat.Floor
import Mathlib.Tactic.FieldSimp
import Mathlib.Tactic.GCongr
import Mathlib.Tactic.Linarith
import Mathlib.Tactic.NormNum
import Mathlib.Tactic.Positivity
import Mathlib.Tactic.Ring

/-! Binary64 numbers as exact rationals: round to nearest with ties to even, the
finite numbers with their representation as a field, and the decimal text of a
number. An operation that overflows has no value here. The bounds are on one
rounding; a user composes them along his own expression. -/

namespace Livora.DoubleRounding

def roundEven (x : ℚ) : ℤ :=
  if x - ⌊x⌋ < 1 / 2 then ⌊x⌋
  else if 1 / 2 < x - ⌊x⌋ then ⌊x⌋ + 1
  else ⌊x⌋ + ⌊x⌋ % 2

theorem abs_roundEven_sub_le (x : ℚ) : |(roundEven x : ℚ) - x| ≤ 1 / 2 := by
  have hl := Int.floor_le x
  have hu := Int.lt_floor_add_one x
  have hparity : ((⌊x⌋ % 2 : ℤ) : ℚ) = 0 ∨ ((⌊x⌋ % 2 : ℤ) : ℚ) = 1 := by
    rcases Int.emod_two_eq_zero_or_one ⌊x⌋ with h | h <;> simp [h]
  unfold roundEven
  rw [abs_le]
  split_ifs with hlow hhigh
  · constructor <;> linarith
  · push_cast
    constructor <;> linarith
  · push_cast
    rcases hparity with h | h <;> rw [h] <;> constructor <;> linarith

@[simp] theorem roundEven_intCast (n : ℤ) : roundEven (n : ℚ) = n := by
  simp [roundEven]

/-- The exponent of the last place of `x`; subnormal numbers share one. -/
def lastPlace (x : ℚ) : ℤ := max (-1074) (Int.log 2 |x| - 52)

/-- Rounding to the nearest number, overflow left aside. -/
def fl (x : ℚ) : ℚ := roundEven (x / 2 ^ lastPlace x) * 2 ^ lastPlace x

theorem abs_fl_sub_le (x : ℚ) : |fl x - x| ≤ 2 ^ lastPlace x / 2 := by
  have hpos : (0 : ℚ) < 2 ^ lastPlace x := by positivity
  have hsplit : fl x - x =
      (roundEven (x / 2 ^ lastPlace x) - x / 2 ^ lastPlace x) * 2 ^ lastPlace x := by
    rw [fl, sub_mul, div_mul_cancel₀ _ hpos.ne']
  rw [hsplit, abs_mul, abs_of_pos hpos]
  have := mul_le_mul_of_nonneg_right (abs_roundEven_sub_le (x / 2 ^ lastPlace x)) hpos.le
  linarith

theorem lastPlace_le {x : ℚ} {k : ℤ} (h0 : x ≠ 0) (hx : |x| < 2 ^ k) (hk : -1021 ≤ k) :
    lastPlace x ≤ k - 53 := by
  refine max_le (by omega) ?_
  have hlog : Int.log 2 |x| < k :=
    (Int.lt_zpow_iff_log_lt (by norm_num) (abs_pos.mpr h0)).mp (by exact_mod_cast hx)
  omega

@[simp] theorem fl_zero : fl 0 = 0 := by
  simp [fl, roundEven]

theorem roundEven_nonneg {x : ℚ} (h : 0 ≤ x) : 0 ≤ roundEven x := by
  have hclose := (abs_le.mp (abs_roundEven_sub_le x)).1
  have hlt : (-1 : ℚ) < roundEven x := by linarith
  have : (-1 : ℤ) < roundEven x := by exact_mod_cast hlt
  omega

theorem roundEven_nonpos {x : ℚ} (h : x ≤ 0) : roundEven x ≤ 0 := by
  have hclose := (abs_le.mp (abs_roundEven_sub_le x)).2
  have hlt : (roundEven x : ℚ) < 1 := by linarith
  have : roundEven x < (1 : ℤ) := by exact_mod_cast hlt
  omega

theorem fl_nonneg {x : ℚ} (h : 0 ≤ x) : 0 ≤ fl x := by
  have hround : (0 : ℚ) ≤ roundEven (x / 2 ^ lastPlace x) := by
    exact_mod_cast roundEven_nonneg (div_nonneg h (by positivity))
  exact mul_nonneg hround (by positivity)

theorem fl_nonpos {x : ℚ} (h : x ≤ 0) : fl x ≤ 0 := by
  have hround : (roundEven (x / 2 ^ lastPlace x) : ℚ) ≤ 0 := by
    exact_mod_cast roundEven_nonpos (div_nonpos_of_nonpos_of_nonneg h (by positivity))
  exact mul_nonpos_of_nonpos_of_nonneg hround (by positivity)

theorem abs_fl_sub_le_of_lt {x : ℚ} {k : ℤ} (hx : |x| < 2 ^ k) (hk : -1021 ≤ k) :
    |fl x - x| ≤ 2 ^ (k - 54) := by
  by_cases h0 : x = 0
  · rw [h0, fl_zero, sub_zero, abs_zero]
    positivity
  refine (abs_fl_sub_le x).trans ?_
  have hle : (2 : ℚ) ^ lastPlace x ≤ 2 ^ (k - 53) :=
    zpow_le_zpow_right₀ (by norm_num) (lastPlace_le h0 hx hk)
  have hhalf : (2 : ℚ) ^ (k - 53) = 2 ^ (k - 54) * 2 := by
    rw [← zpow_add_one₀ (by norm_num)]
    congr 1
    ring
  linarith

/-- Far below the largest number rounding does not overflow. -/
theorem finite_fl_of_lt {x : ℚ} {k : ℤ} (hx : |x| < 2 ^ k) (hk : -1021 ≤ k) (hk' : k ≤ 1023) :
    |fl x| < 2 ^ 1024 := by
  have herr := abs_fl_sub_le_of_lt hx hk
  have htri := abs_add_le (fl x - x) x
  rw [sub_add_cancel] at htri
  have hlow : (2 : ℚ) ^ (k - 54) ≤ 2 ^ k := zpow_le_zpow_right₀ (by norm_num) (by omega)
  have hdouble : (2 : ℚ) ^ (k + 1) = 2 ^ k + 2 ^ k := by
    rw [zpow_add_one₀ (by norm_num)]
    ring
  have hhigh : (2 : ℚ) ^ (k + 1) ≤ 2 ^ (1024 : ℤ) :=
    zpow_le_zpow_right₀ (by norm_num) (by omega)
  have hpow : (2 : ℚ) ^ (1024 : ℤ) = 2 ^ 1024 := zpow_natCast 2 1024
  rw [← hpow]
  linarith

/-- A normal number is off by at most a relative `2 ^ -53`. -/
theorem abs_fl_sub_le_rel {x : ℚ} (hx : 2 ^ (-1022 : ℤ) ≤ |x|) : |fl x - x| ≤ |x| / 2 ^ 53 := by
  have h0 : |x| ≠ 0 := fun h => by
    rw [h] at hx
    exact absurd hx (not_le.mpr (by positivity))
  have hlog : -1022 ≤ Int.log 2 |x| :=
    (Int.zpow_le_iff_le_log (by norm_num) (lt_of_le_of_ne (abs_nonneg x) (Ne.symm h0))).mp
      (by exact_mod_cast hx)
  have hplace : lastPlace x = Int.log 2 |x| - 52 := max_eq_right (by omega)
  refine (abs_fl_sub_le x).trans ?_
  have hself : (2 : ℚ) ^ Int.log 2 |x| ≤ |x| := by
    exact_mod_cast Int.zpow_log_le_self (b := 2) (by norm_num)
      (lt_of_le_of_ne (abs_nonneg x) (Ne.symm h0))
  rw [hplace, zpow_sub₀ (by norm_num), div_div]
  have hpow : (2 : ℚ) ^ (52 : ℤ) * 2 = 2 ^ 53 := by norm_num
  rw [hpow]
  gcongr

theorem mul_le_fl {x : ℚ} (hx : 2 ^ (-1022 : ℤ) ≤ x) : (1 - 1 / 2 ^ 53) * x ≤ fl x := by
  have hpos : 0 < x := lt_of_lt_of_le (by positivity) hx
  have herr := abs_fl_sub_le_rel (x := x) (by rwa [abs_of_pos hpos])
  rw [abs_of_pos hpos] at herr
  have := (abs_le.mp herr).1
  linarith

/-- Only a positive normal number is rounded to 1 or more. -/
theorem normal_of_one_le_fl {x : ℚ} (h : 1 ≤ fl x) : 2 ^ (-1022 : ℤ) ≤ x := by
  by_contra hx
  rw [not_le] at hx
  by_cases hlow : x ≤ -2 ^ (-1022 : ℤ)
  · have hpos : (0 : ℚ) < 2 ^ (-1022 : ℤ) := by positivity
    have hneg : |x| = -x := abs_of_neg (by linarith)
    have herr := abs_fl_sub_le_rel (x := x) (by rw [hneg]; linarith)
    rw [hneg] at herr
    have := (abs_le.mp herr).2
    linarith
  · have hsmall : |x| < 2 ^ (-1021 : ℤ) := by
      have hstep : (2 : ℚ) ^ (-1022 : ℤ) ≤ 2 ^ (-1021 : ℤ) :=
        zpow_le_zpow_right₀ (by norm_num) (by norm_num)
      exact abs_lt.mpr ⟨by linarith, by linarith⟩
    have herr := abs_fl_sub_le_of_lt hsmall (by norm_num)
    have hhalf : (2 : ℚ) ^ (-1021 : ℤ) ≤ 2 ^ (-2 : ℤ) :=
      zpow_le_zpow_right₀ (by norm_num) (by norm_num)
    have hhalf' : (2 : ℚ) ^ (-1021 - 54 : ℤ) ≤ 2 ^ (-2 : ℤ) :=
      zpow_le_zpow_right₀ (by norm_num) (by norm_num)
    have hquarter : (2 : ℚ) ^ (-2 : ℤ) = 1 / 4 := by norm_num
    rw [hquarter] at hhalf hhalf'
    have h1 : fl x - x ≤ 1 / 4 := (abs_le.mp herr).2.trans hhalf'
    have h2 : x < 1 / 4 := (abs_lt.mp hsmall).2.trans_le hhalf
    clear * - h h1 h2
    linarith

theorem three_quarters_le_fl {x : ℚ} (hx : 2 ^ (-24 : ℤ) ≤ x) : 3 / 4 * x ≤ fl x := by
  have hpos : 0 < x := lt_of_lt_of_le (by positivity) hx
  have hnormal : (2 : ℚ) ^ (-1022 : ℤ) ≤ |x| := by
    rw [abs_of_pos hpos]
    exact (zpow_le_zpow_right₀ (by norm_num) (by norm_num)).trans hx
  have herr := abs_fl_sub_le_rel hnormal
  rw [abs_of_pos hpos] at herr
  have hsmall : x / 2 ^ 53 ≤ x / 4 := by
    gcongr
    norm_num
  linarith [(abs_le.mp herr).1]

/-- A number with a 53-bit significand. -/
def Representable (x : ℚ) : Prop :=
  ∃ m e : ℤ, x = m * 2 ^ e ∧ |m| < 2 ^ 53 ∧ -1074 ≤ e

theorem fl_eq_of_lastPlace_le {x : ℚ} {m e : ℤ} (hx : x = m * 2 ^ e) (he : lastPlace x ≤ e) :
    fl x = x := by
  obtain ⟨d, hd⟩ := Int.eq_ofNat_of_zero_le (sub_nonneg.mpr he)
  have hpos : (2 : ℚ) ^ lastPlace x ≠ 0 := by positivity
  have hscaled : x / 2 ^ lastPlace x = ((m * 2 ^ d : ℤ) : ℚ) := by
    rw [div_eq_iff hpos]
    push_cast
    rw [mul_assoc, ← zpow_natCast, ← zpow_add₀ (by norm_num : (2 : ℚ) ≠ 0), ← hd,
      sub_add_cancel]
    exact hx
  rw [fl, hscaled, roundEven_intCast, ← hscaled, div_mul_cancel₀ _ hpos]

theorem fl_of_representable {x : ℚ} (h : Representable x) : fl x = x := by
  obtain ⟨m, e, hx, hm, he⟩ := h
  by_cases h0 : x = 0
  · rw [h0, fl_zero]
  refine fl_eq_of_lastPlace_le hx ?_
  have hlt : |x| < 2 ^ (e + 53) := by
    have hm' : |(m : ℚ)| < 2 ^ 53 := by exact_mod_cast hm
    rw [hx, abs_mul, abs_of_pos (by positivity : (0 : ℚ) < 2 ^ e), zpow_add₀ (by norm_num),
      mul_comm]
    exact mul_lt_mul_of_pos_left (by exact_mod_cast hm') (by positivity)
  have := lastPlace_le h0 hlt (by omega)
  omega

theorem representable_intCast {n : ℤ} (h : |n| < 2 ^ 53) : Representable n :=
  ⟨n, 0, by simp, h, by norm_num⟩

theorem fl_intCast {n : ℤ} (h : |n| < 2 ^ 53) : fl n = n :=
  fl_of_representable (representable_intCast h)

theorem abs_div_lastPlace_lt (x : ℚ) : |x / 2 ^ lastPlace x| < 2 ^ 53 := by
  have hpos : (0 : ℚ) < 2 ^ lastPlace x := by positivity
  rw [abs_div, abs_of_pos hpos, div_lt_iff₀ hpos]
  have hlog : |x| < 2 ^ (Int.log 2 |x| + 1) := by
    exact_mod_cast Int.lt_zpow_succ_log_self (b := 2) (by norm_num) |x|
  refine hlog.trans_le ?_
  rw [← zpow_natCast, ← zpow_add₀ (by norm_num)]
  refine zpow_le_zpow_right₀ (by norm_num) ?_
  have := le_max_right (-1074) (Int.log 2 |x| - 52)
  unfold lastPlace
  push_cast
  omega

theorem fl_representable (x : ℚ) : Representable (fl x) := by
  have hle : |roundEven (x / 2 ^ lastPlace x)| ≤ 2 ^ 53 := by
    have herr := abs_roundEven_sub_le (x / 2 ^ lastPlace x)
    have hlt := abs_div_lastPlace_lt x
    have htri := abs_add_le (roundEven (x / 2 ^ lastPlace x) - x / 2 ^ lastPlace x)
      (x / 2 ^ lastPlace x)
    rw [sub_add_cancel] at htri
    have hbound : |(roundEven (x / 2 ^ lastPlace x) : ℚ)| < 2 ^ 53 + 1 := by linarith
    have hint : |roundEven (x / 2 ^ lastPlace x)| < 2 ^ 53 + 1 := by exact_mod_cast hbound
    omega
  have hplace : -1074 ≤ lastPlace x := le_max_left _ _
  rcases hle.lt_or_eq with hlt | heq
  · exact ⟨_, _, rfl, hlt, hplace⟩
  · -- the significand was rounded up to a power of two, one binade higher
    have hcarry : ∀ m : ℤ, m = 2 ^ 53 ∨ m = -2 ^ 53 →
        Representable (m * 2 ^ lastPlace x) := by
      intro m hm
      refine ⟨m / 2, lastPlace x + 1, ?_, ?_, by omega⟩
      · rw [zpow_add_one₀ (by norm_num)]
        rcases hm with rfl | rfl <;> norm_num <;> ring
      · rcases hm with rfl | rfl <;> norm_num
    exact hcarry _ (eq_or_eq_neg_of_abs_eq heq)

theorem fl_idempotent (x : ℚ) : fl (fl x) = fl x := fl_of_representable (fl_representable x)

/-- A finite binary64 number. -/
structure Double where
  val : ℚ
  representable : Representable val
  finite : |val| < 2 ^ 1024

namespace Double

theorem ext_val {a b : Double} (h : a.val = b.val) : a = b := by
  cases a
  cases b
  simp_all

instance : DecidableEq Double := fun a b =>
  decidable_of_iff (a.val = b.val) ⟨ext_val, fun h => h ▸ rfl⟩

/-- The number nearest to `x`, none on overflow. -/
def ofRat? (x : ℚ) : Option Double :=
  if h : |fl x| < 2 ^ 1024 then some ⟨fl x, fl_representable x, h⟩ else none

theorem ofRat?_eq_some {x : ℚ} {d : Double} : ofRat? x = some d ↔ d.val = fl x := by
  unfold ofRat?
  split
  · rename_i h
    rw [Option.some.injEq]
    exact ⟨fun e => e ▸ rfl, fun e => ext_val e.symm⟩
  · rename_i h
    simp only [reduceCtorEq, false_iff]
    exact fun e => h (e ▸ d.finite)

theorem ofRat?_val (d : Double) : ofRat? d.val = some d :=
  ofRat?_eq_some.mpr (fl_of_representable d.representable).symm

theorem exists_ofRat? {x : ℚ} (h : |fl x| < 2 ^ 1024) : ∃ d, ofRat? x = some d ∧ d.val = fl x :=
  ⟨_, dif_pos h, rfl⟩

def mul (a b : Double) : Option Double := ofRat? (a.val * b.val)

theorem natCast_finite {n : ℕ} (h : n < 2 ^ 53) : |(n : ℚ)| < 2 ^ 1024 := by
  have hcast : (n : ℚ) < 2 ^ 53 := by exact_mod_cast h
  rw [abs_of_nonneg (Nat.cast_nonneg n)]
  exact hcast.trans_le (pow_le_pow_right₀ (by norm_num) (by norm_num))

theorem natCast_representable {n : ℕ} (h : n < 2 ^ 53) : Representable (n : ℚ) := by
  have hint := representable_intCast (n := n) (by rw [Nat.abs_cast]; exact_mod_cast h)
  simpa using hint

def ofNat (n : ℕ) (h : n < 2 ^ 53) : Double := ⟨n, natCast_representable h, natCast_finite h⟩

end Double

/-- A decimal literal, read as `significand * 10 ^ exponent`. -/
structure Decimal where
  significand : ℤ
  exponent : ℤ
deriving DecidableEq

def Decimal.value (d : Decimal) : ℚ := d.significand * 10 ^ d.exponent

def Decimal.parse (d : Decimal) : Option Double := Double.ofRat? d.value

namespace Double

/-- The `k`-digit decimal nearest to the number. -/
def digits (x : Double) (k : ℕ) : Decimal :=
  let place := Int.log 10 |x.val| + 1 - k
  ⟨roundEven (x.val / 10 ^ place), place⟩

def exactDecimal (x : Double) : Decimal :=
  let m := roundEven (x.val / 2 ^ lastPlace x.val)
  if lastPlace x.val < 0 then ⟨m * 5 ^ (-lastPlace x.val).toNat, lastPlace x.val⟩
  else ⟨m * 2 ^ (lastPlace x.val).toNat, 0⟩

/-- The fewest digits that read back as the number. -/
def toDecimal (x : Double) : Decimal :=
  (((List.range 17).map fun k => x.digits (k + 1)).find? fun d => d.parse = some x).getD
    x.exactDecimal

theorem exactDecimal_value (x : Double) : x.exactDecimal.value = x.val := by
  have hval : x.val = roundEven (x.val / 2 ^ lastPlace x.val) * 2 ^ lastPlace x.val :=
    (fl_of_representable x.representable).symm
  unfold exactDecimal Decimal.value
  split
  · rename_i hneg
    obtain ⟨t, ht⟩ := Int.eq_ofNat_of_zero_le (neg_nonneg.mpr hneg.le)
    have hplace : lastPlace x.val = -(t : ℤ) := by omega
    rw [hplace] at hval ⊢
    conv_rhs => rw [hval]
    have hten : (10 : ℚ) ^ t = 5 ^ t * 2 ^ t := by rw [← mul_pow]; norm_num
    simp only [neg_neg, Int.toNat_natCast, zpow_neg, zpow_natCast, hten]
    push_cast
    field_simp
  · rename_i hnonneg
    obtain ⟨t, ht⟩ := Int.eq_ofNat_of_zero_le (not_lt.mp hnonneg)
    conv_rhs => rw [hval]
    rw [ht]
    simp

/-- Reading the text of a number gives the number back. -/
theorem parse_toDecimal (x : Double) : x.toDecimal.parse = some x := by
  unfold toDecimal
  cases hfind : ((List.range 17).map fun k => x.digits (k + 1)).find?
      fun d => d.parse = some x with
  | none =>
    rw [Option.getD_none, Decimal.parse, exactDecimal_value, ofRat?_val]
  | some d => simpa using List.find?_some hfind

end Double

/-! ### Sums -/

def roundedSum (amounts : List ℚ) : ℚ := amounts.foldl (fun sum a => fl (sum + fl a)) 0

/-- One addition is off by at most twice the last place of numbers below `2 ^ k`. -/
theorem abs_add_fl_sub_le {s S a e : ℚ} {k : ℤ} (hs : |s - S| ≤ e) (he : e ≤ 2 ^ (k - 1))
    (hS : 0 ≤ S) (ha : 0 ≤ a) (hsum : S + a < 2 ^ k) (hk : -1020 ≤ k) :
    |fl (s + fl a) - (S + a)| ≤ e + 2 ^ (k - 52) := by
  have hread : |fl a - a| ≤ 2 ^ (k - 54) :=
    abs_fl_sub_le_of_lt (by rw [abs_of_nonneg ha]; linarith) (by omega)
  have hdouble (i : ℤ) : (2 : ℚ) ^ (i + 1) = 2 ^ i + 2 ^ i := by
    rw [zpow_add_one₀ (by norm_num)]
    ring
  have h54 := hdouble (k - 54)
  have h53 := hdouble (k - 53)
  have h1 := hdouble (k - 1)
  have hk1 := hdouble k
  have hplace : (2 : ℚ) ^ (k - 54) ≤ 2 ^ (k - 1) :=
    zpow_le_zpow_right₀ (by norm_num) (by omega)
  rw [show k - 54 + 1 = k - 53 by ring] at h54
  rw [show k - 53 + 1 = k - 52 by ring] at h53
  rw [show k - 1 + 1 = k by ring] at h1
  have hlow := abs_le.mp hs
  have hlow' := abs_le.mp hread
  have hpos : (0 : ℚ) < 2 ^ k := by positivity
  have hsize : |s + fl a| < 2 ^ (k + 1) := by
    rw [abs_lt]
    constructor <;> linarith
  have hadd := abs_le.mp (abs_fl_sub_le_of_lt hsize (by omega))
  rw [show k + 1 - 54 = k - 53 by ring] at hadd
  rw [abs_le]
  have hsmall : (0 : ℚ) < 2 ^ (k - 54) := by positivity
  constructor <;> linarith

theorem abs_foldl_sub_le {l : List ℚ} {s S : ℚ} {k : ℤ} {m : ℕ}
    (hs : |s - S| ≤ m * 2 ^ (k - 52)) (hS : 0 ≤ S) (hnonneg : ∀ a ∈ l, 0 ≤ a)
    (hsum : S + l.sum < 2 ^ k) (hlength : m + l.length ≤ 2 ^ 51) (hk : -1020 ≤ k) :
    |l.foldl (fun sum a => fl (sum + fl a)) s - (S + l.sum)| ≤ (m + l.length) * 2 ^ (k - 52) := by
  induction l generalizing s S m with
  | nil => simpa using hs
  | cons a l ih =>
    rw [List.foldl_cons]
    have ha : 0 ≤ a := hnonneg a List.mem_cons_self
    have hrest : ∀ b ∈ l, 0 ≤ b := fun b hb => hnonneg b (List.mem_cons_of_mem _ hb)
    have hl : 0 ≤ l.sum := List.sum_nonneg hrest
    rw [List.sum_cons] at hsum ⊢
    rw [List.length_cons] at hlength ⊢
    have he : (m : ℚ) * 2 ^ (k - 52) ≤ 2 ^ (k - 1) := by
      have hm : (m : ℚ) ≤ 2 ^ 51 := by exact_mod_cast (by omega : m ≤ 2 ^ 51)
      have hsplit : (2 : ℚ) ^ (k - 1) = 2 ^ 51 * 2 ^ (k - 52) := by
        rw [← zpow_natCast, ← zpow_add₀ (by norm_num)]
        congr 1
        push_cast
        ring
      rw [hsplit]
      gcongr
    have hone := abs_add_fl_sub_le hs he hS ha (by linarith) hk
    have hnext : |fl (s + fl a) - (S + a)| ≤ ((m + 1 : ℕ) : ℚ) * 2 ^ (k - 52) := by
      push_cast
      linarith
    have := ih hnext (by linarith) hrest (by linarith) (by omega)
    push_cast at this ⊢
    rw [← add_assoc S, show (m : ℚ) + (l.length + 1) = m + 1 + l.length by ring]
    exact this

/-- The error of a sum of amounts that are not negative grows with their number. -/
theorem abs_roundedSum_sub_le {l : List ℚ} {k : ℤ} (hnonneg : ∀ a ∈ l, 0 ≤ a)
    (hsum : l.sum < 2 ^ k) (hlength : l.length ≤ 2 ^ 51) (hk : -1020 ≤ k) :
    |roundedSum l - l.sum| ≤ l.length * 2 ^ (k - 52) := by
  have := abs_foldl_sub_le (s := 0) (S := 0) (m := 0) (by simp) le_rfl hnonneg (by linarith)
    (by omega) hk
  simpa [roundedSum] using this

theorem roundedSum_nonneg {l : List ℚ} (h : ∀ a ∈ l, 0 ≤ a) : 0 ≤ roundedSum l := by
  unfold roundedSum
  suffices ∀ s : ℚ, 0 ≤ s → 0 ≤ l.foldl (fun sum a => fl (sum + fl a)) s from this 0 le_rfl
  induction l with
  | nil => exact fun s hs => hs
  | cons a l ih =>
    intro s hs
    refine ih (fun b hb => h b (List.mem_cons_of_mem _ hb)) _ ?_
    exact fl_nonneg (add_nonneg hs (fl_nonneg (h a List.mem_cons_self)))

end Livora.DoubleRounding
