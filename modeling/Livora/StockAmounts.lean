import Livora.CentAmounts
import Livora.StockBooks

/-! Weights of whole grams in the arithmetic of the stock: numbers are sent to columns of three
decimals as their texts, and what a service adds or subtracts comes back to the gram. Every write
changes what a centre has of a material by as much as the movement beside it says. -/

namespace Livora.StockAmounts

open DoubleRounding CentAmounts StockBooks

def Whole (x : ℚ) : Prop := ∃ n : ℕ, |x - n / 1000| ≤ 1 / 10 ^ 5

def Filed (q : ℚ) : Prop := (∃ z : ℤ, q = z / 1000) ∧ |q| < 10 ^ 11

def kilograms (x : ℚ) : ℚ := scale3 x

variable {x y q : ℚ} {z : ℤ} {n : ℕ}

/-! ### Columns -/

theorem scale3_eq (h : |x - z / 1000| < 1 / 2000) : scale3 x = z / 1000 := by
  obtain ⟨hlow, hup⟩ := abs_lt.mp h
  unfold scale3
  split
  · have hfloor : ⌊-x * 1000 + 1 / 2⌋ = -z := by
      rw [Int.floor_eq_iff]
      push_cast
      constructor <;> linarith
    rw [hfloor]
    push_cast
    ring
  · have hfloor : ⌊x * 1000 + 1 / 2⌋ = z := by
      rw [Int.floor_eq_iff]
      constructor <;> linarith
    rw [hfloor]

theorem scale3_thousandths (x : ℚ) : ∃ z : ℤ, scale3 x = z / 1000 := by
  unfold scale3
  split
  · exact ⟨-⌊-x * 1000 + 1 / 2⌋, by push_cast; ring⟩
  · exact ⟨_, rfl⟩

theorem scale3_nonneg (h : 0 ≤ x) : 0 ≤ scale3 x := by
  unfold scale3
  rw [if_neg (by linarith)]
  have : (0 : ℤ) ≤ ⌊x * 1000 + 1 / 2⌋ := Int.floor_nonneg.mpr (by linarith)
  positivity

theorem filed_of_column (h : kgColumn x = some q) : q = scale3 x ∧ Filed q := by
  unfold kgColumn at h
  split at h
  · cases h
    exact ⟨rfl, scale3_thousandths x, ‹_›⟩
  · cases h

theorem abs_scale3_sub_le (x : ℚ) : |scale3 x - x| ≤ 1 / 2000 := by
  unfold scale3
  split
  · have h := Int.floor_le (-x * 1000 + 1 / 2)
    have h' := Int.lt_floor_add_one (-x * 1000 + 1 / 2)
    rw [abs_le]
    constructor <;> linarith
  · have h := Int.floor_le (x * 1000 + 1 / 2)
    have h' := Int.lt_floor_add_one (x * 1000 + 1 / 2)
    rw [abs_le]
    constructor <;> linarith

theorem abs_decimal_sub_le (h : decimalOf x = some y) (hy : |y| < 2 ^ (38 : ℤ)) :
    |fl x| < 2 ^ (39 : ℤ) ∧ |y - fl x| ≤ 2 ^ (-14 : ℤ) := by
  obtain ⟨d, hd, rfl⟩ := Option.map_eq_some_iff.mp h
  have hval := Double.ofRat?_eq_some.mp hd
  have hread : fl d.toDecimal.value = d.val :=
    (Double.ofRat?_eq_some.mp (Double.parse_toDecimal d)).symm
  have herr := abs_le.mp (abs_fl_sub_le_of_lt hy (by norm_num))
  rw [hread] at herr
  obtain ⟨hlow, hup⟩ := abs_lt.mp hy
  have hnumber : |d.val| < 2 ^ (39 : ℤ) := by
    rw [abs_lt]
    norm_num at herr hlow hup ⊢
    constructor <;> linarith
  have htext := abs_toDecimal_sub_le_of_lt hnumber (by norm_num)
  rw [show (39 : ℤ) + 1 - 54 = -14 by norm_num] at htext
  rw [← hval]
  exact ⟨hnumber, htext⟩

theorem decimal_whole (hx : |x - n / 1000| ≤ 1 / 10 ^ 5) (h : decimalOf x = some y)
    (hy : |y| < 2 ^ (38 : ℤ)) : |y - n / 1000| < 1 / 4000 := by
  obtain ⟨hnumber, htext⟩ := abs_decimal_sub_le h hy
  obtain ⟨hx1, hx2⟩ := abs_le.mp hx
  have hn : (0 : ℚ) ≤ n / 1000 := by positivity
  have hsmall : x < 2 ^ (40 : ℤ) := lt_of_fl_lt (k := 39) (by norm_num) (abs_lt.mp hnumber).2
  have hread := abs_le.mp (abs_fl_sub_le_of_lt (x := x) (k := 40)
    (abs_lt.mpr ⟨by norm_num at hx1 hn ⊢; linarith, hsmall⟩) (by norm_num))
  obtain ⟨ht1, ht2⟩ := abs_le.mp htext
  rw [abs_lt]
  norm_num at hx1 hx2 hread ht1 ht2 ⊢
  constructor <;> linarith

theorem column_whole (hx : |x - n / 1000| ≤ 1 / 10 ^ 5) (h : decimalOf x = some y)
    (hq : kgColumn y = some q) : q = n / 1000 := by
  obtain ⟨rfl, -, hrange⟩ := filed_of_column hq
  obtain ⟨hs1, hs2⟩ := abs_le.mp (abs_scale3_sub_le y)
  obtain ⟨hr1, hr2⟩ := abs_lt.mp hrange
  have hy : |y| < 2 ^ (38 : ℤ) := by
    rw [abs_lt]
    norm_num at hs1 hs2 hr1 hr2 ⊢
    constructor <;> linarith
  have hnear := decimal_whole hx h hy
  exact scale3_eq (z := n) (by push_cast; linarith)

theorem column_add (hx : |x - n / 1000| ≤ 1 / 10 ^ 5) (h : decimalOf x = some y) {c : ℚ}
    (hc : Filed c) {e : ℤ} (he : e = 1 ∨ e = -1) (hq : kgColumn (c + e * y) = some q) :
    q = c + e * (n / 1000) := by
  obtain ⟨⟨k, rfl⟩, hcr⟩ := hc
  obtain ⟨rfl, -, hrange⟩ := filed_of_column hq
  obtain ⟨hs1, hs2⟩ := abs_le.mp (abs_scale3_sub_le (k / 1000 + e * y))
  obtain ⟨hr1, hr2⟩ := abs_lt.mp hrange
  obtain ⟨hc1, hc2⟩ := abs_lt.mp hcr
  have hy : |y| < 2 ^ (38 : ℤ) := by
    rw [abs_lt]
    rcases he with rfl | rfl <;> norm_num at hs1 hs2 hr1 hr2 hc1 hc2 ⊢ <;> constructor <;> linarith
  obtain ⟨hn1, hn2⟩ := abs_lt.mp (decimal_whole hx h hy)
  rw [scale3_eq (z := k + e * n)]
  · push_cast
    ring
  · rw [abs_lt]
    rcases he with rfl | rfl <;> push_cast <;> constructor <;> linarith

theorem le_of_not_short (hx : |x - n / 1000| ≤ 1 / 10 ^ 5) {c : ℚ} (hc : Filed c)
    (h : ¬ fl c < x) : (n : ℚ) / 1000 ≤ c := by
  obtain ⟨⟨k, rfl⟩, hcr⟩ := hc
  have hcr' : |(k : ℚ) / 1000| < 2 ^ (37 : ℤ) := hcr.trans (by norm_num)
  obtain ⟨hf1, hf2⟩ := abs_le.mp (abs_fl_sub_le_of_lt hcr' (by norm_num))
  obtain ⟨hx1, hx2⟩ := abs_le.mp hx
  by_contra hlt
  have hgap : k + 1 ≤ (n : ℤ) := by
    have : (k : ℚ) < n := by linarith
    exact_mod_cast this
  have hgap' : (k : ℚ) + 1 ≤ n := by exact_mod_cast hgap
  norm_num at hf1 hf2 hx1 hx2 h
  linarith

theorem column_number (hx : |x - n / 1000| ≤ 1 / 10 ^ 5) {c : ℚ} (hc : Filed c) {e : ℤ}
    (he : e = 1 ∨ e = -1 ∧ x ≤ fl c) (h : decimalOf (fl (fl c + e * x)) = some y)
    (hq : kgColumn y = some q) : q = c + e * (n / 1000) := by
  obtain ⟨⟨k, rfl⟩, hcr⟩ := hc
  obtain ⟨rfl, -, hrange⟩ := filed_of_column hq
  obtain ⟨hs1, hs2⟩ := abs_le.mp (abs_scale3_sub_le y)
  obtain ⟨hr1, hr2⟩ := abs_lt.mp hrange
  have hy : |y| < 2 ^ (38 : ℤ) := by
    rw [abs_lt]
    norm_num at hs1 hs2 hr1 hr2 ⊢
    constructor <;> linarith
  obtain ⟨hnumber, htext⟩ := abs_decimal_sub_le h hy
  rw [fl_idempotent] at hnumber htext
  have hcr' : |(k : ℚ) / 1000| < 2 ^ (37 : ℤ) := hcr.trans (by norm_num)
  obtain ⟨hf1, hf2⟩ := abs_le.mp (abs_fl_sub_le_of_lt hcr' (by norm_num))
  obtain ⟨hc1, hc2⟩ := abs_lt.mp hcr'
  obtain ⟨hx1, hx2⟩ := abs_le.mp hx
  obtain ⟨ht1, ht2⟩ := abs_le.mp htext
  have hn : (0 : ℚ) ≤ n / 1000 := by positivity
  have hup : fl (k / 1000) + e * x < 2 ^ (40 : ℤ) :=
    lt_of_fl_lt (k := 39) (by norm_num) (abs_lt.mp hnumber).2
  have hsum : |fl ((k : ℚ) / 1000) + e * x| < 2 ^ (40 : ℤ) := by
    refine abs_lt.mpr ⟨?_, hup⟩
    rcases he with rfl | ⟨rfl, hle⟩ <;> push_cast <;> norm_num at hf1 hf2 hc1 hc2 hx1 hn ⊢ <;>
      linarith
  obtain ⟨hr1, hr2⟩ := abs_le.mp (abs_fl_sub_le_of_lt hsum (by norm_num))
  rw [scale3_eq (z := k + e * n)]
  · push_cast
    ring
  · rw [abs_lt]
    rcases he with rfl | ⟨rfl, -⟩ <;> push_cast at ht1 ht2 hr1 hr2 ⊢ <;>
      norm_num at hx1 hx2 hf1 hf2 ht1 ht2 hr1 hr2 ⊢ <;> constructor <;> linarith

/-! ### Weights of whole grams -/

theorem kilograms_eq (hx : |x - n / 1000| ≤ 1 / 10 ^ 5) : kilograms x = n / 1000 :=
  scale3_eq (z := n) (by push_cast; linarith)

theorem Whole.nonneg (h : Whole x) : 0 ≤ kilograms x := by
  obtain ⟨n, hn⟩ := h
  rw [kilograms_eq hn]
  positivity

theorem Whole.column (h : Whole x) (hy : decimalOf x = some y) (hq : kgColumn y = some q) :
    q = kilograms x := by
  obtain ⟨n, hn⟩ := h
  rw [column_whole hn hy hq, kilograms_eq hn]

theorem Whole.column_add (h : Whole x) (hy : decimalOf x = some y) {c : ℚ} (hc : Filed c)
    (hq : kgColumn (c + y) = some q) : q = c + kilograms x := by
  obtain ⟨n, hn⟩ := h
  have hq' : kgColumn (c + (1 : ℤ) * y) = some q := by simpa using hq
  rw [StockAmounts.column_add hn hy hc (.inl rfl) hq', kilograms_eq hn]
  push_cast
  ring

theorem Whole.column_sub (h : Whole x) (hy : decimalOf x = some y) {c : ℚ} (hc : Filed c)
    (hq : kgColumn (c + -y) = some q) : q = c - kilograms x := by
  obtain ⟨n, hn⟩ := h
  have hq' : kgColumn (c + (-1 : ℤ) * y) = some q := by simpa using hq
  rw [StockAmounts.column_add hn hy hc (.inr rfl) hq', kilograms_eq hn]
  push_cast
  ring

theorem Whole.le_of_not_short (h : Whole x) {c : ℚ} (hc : Filed c) (hfl : ¬ fl c < x) :
    kilograms x ≤ c := by
  obtain ⟨n, hn⟩ := h
  rw [kilograms_eq hn]
  exact StockAmounts.le_of_not_short hn hc hfl

theorem Whole.number_add (h : Whole x) {c : ℚ} (hc : Filed c)
    (hy : decimalOf (fl (fl c + x)) = some y) (hq : kgColumn y = some q) :
    q = c + kilograms x := by
  obtain ⟨n, hn⟩ := h
  rw [column_number (e := 1) hn hc (.inl rfl) (by simpa using hy) hq, kilograms_eq hn]
  push_cast
  ring

theorem Whole.number_sub (h : Whole x) {c : ℚ} (hc : Filed c) (hfl : ¬ fl c < x)
    (hy : decimalOf (fl (fl c - x)) = some y) (hq : kgColumn y = some q) :
    q = c - kilograms x := by
  obtain ⟨n, hn⟩ := h
  rw [column_number (e := -1) hn hc (.inr ⟨rfl, not_lt.mp hfl⟩)
    (by rw [← hy]; push_cast; ring_nf) hq, kilograms_eq hn]
  push_cast
  ring

theorem grams_sum {amounts : List ℚ} (h : ∀ q ∈ amounts, ∃ n : ℕ, q = n / 1000) :
    ∃ n : ℕ, amounts.sum = n / 1000 := by
  induction amounts with
  | nil => exact ⟨0, by simp⟩
  | cons q amounts ih =>
    obtain ⟨n, rfl⟩ := h q List.mem_cons_self
    obtain ⟨k, hk⟩ := ih fun q hq => h q (List.mem_cons_of_mem _ hq)
    refine ⟨n + k, ?_⟩
    rw [List.sum_cons, hk]
    push_cast
    ring

/-! ### Weights of two decimals -/

theorem decimalOf_val (d : Double) : decimalOf d.val = some d.toDecimal.value := by
  rw [decimalOf, Double.ofRat?_val]
  rfl

theorem decimal_pos {d : Double} (hd : 0 < d.val) (hy : decimalOf d.val = some y) : 0 < y := by
  obtain rfl : d.toDecimal.value = y := Option.some.inj ((decimalOf_val d).symm.trans hy)
  by_contra hneg
  have hval : d.val = fl d.toDecimal.value :=
    Double.ofRat?_eq_some.mp (Double.parse_toDecimal d)
  have := fl_nonpos (not_lt.mp hneg)
  linarith

theorem whole_of_column {d : Double} (hd : ∃ n : ℕ, d.toDecimal.value = n / 100)
    (hy : decimalOf d.val = some y) (hq : kgColumn y = some q) : Whole d.val := by
  obtain ⟨n, hn⟩ := hd
  obtain rfl : d.toDecimal.value = y := Option.some.inj ((decimalOf_val d).symm.trans hy)
  obtain ⟨rfl, -, hrange⟩ := filed_of_column hq
  have hpos : (0 : ℚ) ≤ n / 100 := by positivity
  have hsmall : |(n : ℚ) / 100| < 2 ^ (37 : ℤ) := by
    have hs := (abs_le.mp (abs_scale3_sub_le d.toDecimal.value)).1
    have hr := (abs_lt.mp hrange).2
    rw [hn] at hs hr
    rw [abs_of_nonneg hpos]
    norm_num at hs hr ⊢
    linarith
  have hval : d.val = fl (n / 100) := by
    rw [← hn]
    exact Double.ofRat?_eq_some.mp (Double.parse_toDecimal d)
  refine ⟨10 * n, ?_⟩
  rw [hval, show (((10 * n : ℕ) : ℚ)) / 1000 = n / 100 by push_cast; ring]
  refine (abs_fl_sub_le_of_lt hsmall (by norm_num)).trans ?_
  norm_num

end Livora.StockAmounts
