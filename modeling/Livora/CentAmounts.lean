import Livora.StoreBooks

/-! Amounts with two decimals in binary64 arithmetic. What a service adds, subtracts
and prints to the cent is the exact amount, as long as the numbers stay where their
last place is far below a cent. -/

namespace Livora.CentAmounts

open DoubleRounding StoreBooks
open BackOffice (tokenColumn)
open RewardStrategies (toFixed)

def Cents (a : ℚ) : Prop := ∃ n : ℕ, a = n / 100

theorem cents_sum {l : List ℚ} (h : ∀ a ∈ l, Cents a) : Cents l.sum := by
  induction l with
  | nil => exact ⟨0, by simp⟩
  | cons a l ih =>
    obtain ⟨m, hm⟩ := h a List.mem_cons_self
    obtain ⟨n, hn⟩ := ih fun b hb => h b (List.mem_cons_of_mem _ hb)
    exact ⟨m + n, by rw [List.sum_cons, hm, hn]; push_cast; ring⟩

theorem Cents.nonneg {a : ℚ} (h : Cents a) : 0 ≤ a := by
  obtain ⟨n, rfl⟩ := h
  positivity

/-! ### Printing -/

theorem toFixed2_max {d : ℚ} {z : ℤ} (h : |d - z / 100| < 1 / 200) :
    toFixed2 (max 0 d) = z.toNat := by
  obtain ⟨hl, hu⟩ := abs_lt.mp h
  rcases le_total 0 d with hd | hd
  · have hround : round (d * 100) = z := round_eq_iff.mpr ⟨by linarith, by linarith⟩
    rw [max_eq_right hd, toFixed2, hround]
  · have hz : z ≤ 0 := by
      have : (z : ℚ) < 1 := by linarith
      exact_mod_cast Int.lt_add_one_iff.mp (by exact_mod_cast this)
    rw [max_eq_left hd, Int.toNat_of_nonpos hz]
    simp [toFixed2]

theorem abs_parseCents_sub_le {c : ℕ} {k : ℤ} (hc : (c : ℚ) / 100 < 2 ^ k) (hk : -1021 ≤ k) :
    |parseCents c - c / 100| ≤ 2 ^ (k - 54) :=
  abs_fl_sub_le_of_lt (by rwa [abs_of_nonneg (by positivity)]) hk

theorem parseCents_pos {c : ℕ} : 0 < parseCents c ↔ 0 < c := by
  constructor
  · intro h
    rcases Nat.eq_zero_or_pos c with rfl | hc
    · simp [parseCents] at h
    · exact hc
  · intro hc
    have hone : (1 : ℚ) ≤ c := by exact_mod_cast hc
    have hnormal : (2 : ℚ) ^ (-1022 : ℤ) ≤ c / 100 := by
      refine (zpow_le_zpow_right₀ (by norm_num) (by norm_num : (-1022 : ℤ) ≤ -7)).trans ?_
      norm_num
      linarith
    exact lt_of_lt_of_le (by positivity) (mul_le_fl hnormal)

structure Resolved (l : List ℚ) : Prop where
  cents : ∀ a ∈ l, Cents a
  few : l.length ≤ 2 ^ 20
  small : l.sum < 2 ^ 22

theorem printed_rest {l : List ℚ} {s n : ℕ} (hl : Resolved l) (hsum : l.sum = n / 100)
    (hs : (s : ℚ) / 100 < 2 ^ 40) :
    toFixed2 (max 0 (fl (parseCents s - sumNumbers l))) = s - n := by
  have hnonneg : ∀ a ∈ l, 0 ≤ a := fun a ha => (hl.cents a ha).nonneg
  have hparse := abs_parseCents_sub_le (k := 40) (by exact_mod_cast hs) (by norm_num)
  have hadd := abs_roundedSum_sub_le (k := 22) hnonneg (by exact_mod_cast hl.small)
    (hl.few.trans (by norm_num)) (by norm_num)
  have hlength : (l.length : ℚ) ≤ 2 ^ 20 := by exact_mod_cast hl.few
  have hadd' : |sumNumbers l - l.sum| ≤ 1 / 1000 := by
    refine hadd.trans ?_
    have : (l.length : ℚ) * 2 ^ (22 - 52 : ℤ) ≤ 2 ^ 20 * 2 ^ (22 - 52 : ℤ) := by gcongr
    refine this.trans ?_
    norm_num
  have hparse' : |parseCents s - s / 100| ≤ 1 / 10000 := hparse.trans (by norm_num)
  have hn : (n : ℚ) / 100 < 2 ^ 22 := hsum ▸ hl.small
  have hlow := abs_le.mp hparse'
  have hlow' := abs_le.mp hadd'
  have hpos : (0 : ℚ) ≤ s / 100 := by positivity
  have hpos' : (0 : ℚ) ≤ n / 100 := by positivity
  rw [hsum] at hlow'
  have hsub : |fl (parseCents s - sumNumbers l) - (parseCents s - sumNumbers l)| ≤ 1 / 1000 := by
    refine (abs_fl_sub_le_of_lt (k := 41) ?_ (by norm_num)).trans (by norm_num)
    rw [abs_lt]
    norm_num at hs hn ⊢
    constructor <;> linarith
  have hlow'' := abs_le.mp hsub
  have hclose : |fl (parseCents s - sumNumbers l) - ((s : ℤ) - (n : ℤ) : ℤ) / 100| < 1 / 200 := by
    push_cast
    rw [abs_lt]
    constructor <;> linarith
  rw [toFixed2_max hclose]
  omega

/-! ### The text of a balance on the chain -/

theorem abs_shown_sub_le {n : ℕ} (hn : n < 2 ^ 53) :
    |(shown (some n) : ℚ) - n / 10 ^ 5| ≤ 1 := by
  have hread : fl (n : ℚ) = n := by
    have := fl_intCast (n := n) (by rw [Nat.abs_cast]; exact_mod_cast hn)
    simpa using this
  have hsmall : (n : ℚ) / 10 ^ 7 < 2 ^ 30 := by
    have hcast : (n : ℚ) < 2 ^ 53 := by exact_mod_cast hn
    rw [div_lt_iff₀ (by norm_num)]
    exact hcast.trans (by norm_num)
  have hpos : (0 : ℚ) ≤ n / 10 ^ 7 := by positivity
  have herr := abs_le.mp (abs_fl_sub_le_of_lt (x := (n : ℚ) / 10 ^ 7) (k := 30)
    (by rw [abs_of_nonneg hpos]; exact_mod_cast hsmall) (by norm_num))
  have hround := abs_le.mp (abs_sub_round (fl ((n : ℚ) / 10 ^ 7) * 100))
  have hnonneg : 0 ≤ round (fl ((n : ℚ) / 10 ^ 7) * 100) := by
    have : (-1 : ℚ) < round (fl ((n : ℚ) / 10 ^ 7) * 100) := by
      norm_num at herr
      linarith
    have : (-1 : ℤ) < round (fl ((n : ℚ) / 10 ^ 7) * 100) := by exact_mod_cast this
    omega
  have hcast : (shown (some n) : ℚ) = round (fl ((n : ℚ) / 10 ^ 7) * 100) := by
    simp only [shown, hread, toFixed2]
    exact_mod_cast Int.toNat_of_nonneg hnonneg
  rw [hcast, abs_le]
  norm_num at herr hround ⊢
  constructor <;> linarith

theorem stroops_cents {n : ℕ} (h : (n : ℚ) / 100 < 2 ^ 22) : stroops (n / 100) = n * 10 ^ 5 := by
  have hpos : (0 : ℚ) ≤ n / 100 := by positivity
  have hread := abs_le.mp (abs_fl_sub_le_of_lt (x := (n : ℚ) / 100) (k := 22)
    (by rw [abs_of_nonneg hpos]; exact_mod_cast h) (by norm_num))
  have hproduct := abs_le.mp (abs_fl_sub_le_of_lt (x := fl ((n : ℚ) / 100) * 10 ^ 7) (k := 47)
    (by rw [abs_lt]; norm_num at hread h ⊢; constructor <;> linarith) (by norm_num))
  have hround : round (fl (fl ((n : ℚ) / 100) * 10 ^ 7)) = ((n * 10 ^ 5 : ℕ) : ℤ) := by
    refine round_eq_iff.mpr ⟨?_, ?_⟩ <;> push_cast <;> norm_num at hread hproduct ⊢ <;> linarith
  rw [stroops, hround, Int.toNat_natCast]

/-! ### What a column keeps -/

theorem abs_toDecimal_sub_le_of_lt {d : Double} {k : ℤ} (hd : |d.val| < 2 ^ k) (hk : -1000 ≤ k) :
    |d.toDecimal.value - d.val| ≤ 2 ^ (k + 1 - 54) := by
  have hread : fl d.toDecimal.value = d.val :=
    (Double.ofRat?_eq_some.mp (Double.parse_toDecimal d)).symm
  generalize d.toDecimal.value = v at hread ⊢
  rw [← hread, abs_sub_comm]
  refine abs_fl_sub_le_of_lt ?_ (by omega)
  -- a text far above the number would not be read as it
  by_contra hlarge
  rw [not_lt, zpow_add_one₀ (by norm_num)] at hlarge
  have hpos : (0 : ℚ) < 2 ^ k := by positivity
  have hnormal : (2 : ℚ) ^ (-1022 : ℤ) ≤ |v| := by
    have := zpow_le_zpow_right₀ (show (1 : ℚ) ≤ 2 by norm_num) (show (-1022 : ℤ) ≤ k by omega)
    linarith
  have hrel := abs_fl_sub_le_rel hnormal
  have htri := abs_sub_abs_le_abs_sub v (fl v)
  rw [abs_sub_comm v, hread] at htri
  rw [hread] at hrel
  norm_num at hrel
  linarith

theorem abs_toDecimal_sub_le {d : Double} (hd : |d.val| < 2 ^ 35) :
    |d.toDecimal.value - d.val| ≤ 2 ^ (36 - 54 : ℤ) := by
  have htext := abs_toDecimal_sub_le_of_lt (k := 35) (by exact_mod_cast hd) (by norm_num)
  rwa [show (35 : ℤ) + 1 - 54 = 36 - 54 by norm_num] at htext

theorem tokenColumn_eq {d : Double} {m : ℕ} (hd : |d.val| < 2 ^ 35)
    (hm : |d.val - m / 100| ≤ 2 ^ (-17 : ℤ)) : tokenColumn d = m / 100 := by
  have htext := abs_le.mp (abs_toDecimal_sub_le hd)
  have hm := abs_le.mp hm
  have hfloor : ⌊10 ^ 4 * d.toDecimal.value + 1 / 2⌋ = ((100 * m : ℕ) : ℤ) := by
    rw [Int.floor_eq_iff]
    push_cast
    norm_num at htext hm ⊢
    constructor <;> linarith
  rw [tokenColumn, hfloor]
  push_cast
  ring

theorem abs_storedAmount_lt {x stored : ℚ} (h : storedAmount x = some stored) :
    |stored| < 10 ^ 10 := by
  obtain ⟨d, -, hkept⟩ := Option.bind_eq_some_iff.mp h
  split at hkept
  · cases hkept
    assumption
  · cases hkept

theorem storedAmount_text {d : Double} {n : ℕ} {stored : ℚ} (hd : d.toDecimal.value = n / 100)
    (h : storedAmount d.val = some stored) : stored = n / 100 := by
  obtain ⟨d', hd', hkept⟩ := Option.bind_eq_some_iff.mp h
  rw [Double.ofRat?_val] at hd'
  cases hd'
  have hcolumn : tokenColumn d = n / 100 := by
    have hfloor : ⌊10 ^ 4 * d.toDecimal.value + 1 / 2⌋ = ((100 * n : ℕ) : ℤ) := by
      rw [hd, Int.floor_eq_iff]
      push_cast
      constructor <;> linarith
    rw [tokenColumn, hfloor]
    push_cast
    ring
  split at hkept
  · rw [← Option.some.inj hkept, hcolumn]
  · cases hkept

theorem abs_val_lt_of_column {d : Double} (h : |tokenColumn d| < 10 ^ 10) : |d.val| < 2 ^ 34 := by
  have hread : fl d.toDecimal.value = d.val :=
    (Double.ofRat?_eq_some.mp (Double.parse_toDecimal d)).symm
  have hfloor := Int.floor_le (10 ^ 4 * d.toDecimal.value + 1 / 2)
  have hfloor' := Int.lt_floor_add_one (10 ^ 4 * d.toDecimal.value + 1 / 2)
  rw [tokenColumn, abs_lt] at h
  have hvalue : |d.toDecimal.value| < 10 ^ 10 + 1 := by
    rw [abs_lt]
    constructor <;> linarith
  have herr := abs_le.mp (abs_fl_sub_le_of_lt (k := 34) (hvalue.trans (by norm_num)) (by norm_num))
  rw [hread] at herr
  obtain ⟨hlow, hup⟩ := abs_lt.mp hvalue
  rw [abs_lt]
  norm_num at herr ⊢
  constructor <;> linarith

theorem lt_of_fl_lt {x : ℚ} {k : ℤ} (hk : -1022 ≤ k) (h : fl x < 2 ^ k) : x < 2 ^ (k + 1) := by
  by_contra hlarge
  rw [not_lt, zpow_add_one₀ (by norm_num)] at hlarge
  have hnormal : (2 : ℚ) ^ (-1022 : ℤ) ≤ x := by
    refine (zpow_le_zpow_right₀ (by norm_num) hk).trans ?_
    have : (0 : ℚ) < 2 ^ k := by positivity
    linarith
  have hread := mul_le_fl hnormal
  have : (0 : ℚ) < 2 ^ k := by positivity
  norm_num at hread
  linarith

theorem round_nonneg {x : ℚ} (h : 0 ≤ x) : 0 ≤ round x := by
  rw [round_eq]
  exact Int.floor_nonneg.mpr (by linarith)

theorem storedAmount_toFixed {x stored : ℚ} (hpos : 0 < toFixed x 2)
    (h : storedAmount (toFixed x 2) = some stored) :
    ∃ m : ℕ, toFixed x 2 = fl (m / 100) ∧ stored = m / 100 := by
  obtain ⟨d, hd, hkept⟩ := Option.bind_eq_some_iff.mp h
  have hval := Double.ofRat?_eq_some.mp hd
  split at hkept
  · rename_i hcolumn
    cases hkept
    have hsmall := (abs_lt.mp (abs_val_lt_of_column hcolumn)).2
    rw [hval] at hsmall
    have hbound := lt_of_fl_lt (k := 34) (by norm_num) (by exact_mod_cast hsmall)
    unfold toFixed at hpos hval hbound ⊢
    split at hpos
    · rename_i hlarge
      rw [if_pos hlarge] at hbound
      rw [abs_of_pos hpos] at hlarge
      norm_num at hbound
      linarith
    · rename_i hlarge
      simp only [if_neg hlarge] at hval hbound ⊢
      split at hpos
      · -- a negative amount stays so
        have hround : 0 ≤ round (-x * 10 ^ 2) := round_nonneg (by linarith)
        have := fl_nonneg (x := (round (-x * 10 ^ 2) : ℚ) / 10 ^ 2) (by positivity)
        linarith
      · rename_i hneg
        obtain ⟨m, hm⟩ := Int.eq_ofNat_of_zero_le (round_nonneg (x := x * 10 ^ 2) (by linarith))
        simp only [if_neg hneg, hm] at hval hbound ⊢
        refine ⟨m, by norm_num, tokenColumn_eq (abs_val_lt_of_column hcolumn |>.trans (by norm_num)) ?_⟩
        have hcents := lt_of_fl_lt (k := 35) (by norm_num) (by exact_mod_cast hbound)
        have hpos' : (0 : ℚ) ≤ m / 10 ^ 2 := by positivity
        have herr := abs_fl_sub_le_of_lt (x := (m : ℚ) / 10 ^ 2) (k := 36)
          (by rw [abs_of_nonneg hpos']; norm_num at hcents ⊢; exact hcents) (by norm_num)
        rw [hval, fl_idempotent]
        norm_num at herr ⊢
        linarith
  · cases hkept

/-! ### An amount with something on top -/

theorem abs_added_sub_le {k e : ℕ} (hk : (k : ℚ) / 100 < 2 ^ 34) (he : e ≤ 3) :
    |fl (fl (k / 100) + e / 2) - (k + 50 * e : ℕ) / 100| ≤ 2 ^ (-18 : ℤ) := by
  have hpos : (0 : ℚ) ≤ k / 100 := by positivity
  have he' : (e : ℚ) ≤ 3 := by exact_mod_cast he
  have he0 : (0 : ℚ) ≤ e := by positivity
  have hread := abs_le.mp (abs_fl_sub_le_of_lt (x := (k : ℚ) / 100) (k := 34)
    (by rw [abs_of_nonneg hpos]; exact_mod_cast hk) (by norm_num))
  have hsum := abs_le.mp (abs_fl_sub_le_of_lt (x := fl ((k : ℚ) / 100) + e / 2) (k := 35)
    (by rw [abs_lt]; norm_num at hread hk ⊢; constructor <;> linarith) (by norm_num))
  rw [abs_le]
  push_cast
  norm_num at hread hsum ⊢
  constructor <;> linarith

theorem storedAmount_added {k e : ℕ} {stored : ℚ} (hk : (k : ℚ) / 100 < 2 ^ 34) (he : e ≤ 3)
    (hstored : storedAmount (fl (fl (k / 100) + e / 2)) = some stored) :
    stored = (k + 50 * e : ℕ) / 100 := by
  have hclose := abs_added_sub_le hk he
  have hpos : (0 : ℚ) ≤ k := by positivity
  have he' : (e : ℚ) ≤ 3 := by exact_mod_cast he
  have he0 : (0 : ℚ) ≤ e := by positivity
  obtain ⟨d, hd, hkept⟩ := Option.bind_eq_some_iff.mp hstored
  have hval : d.val = fl (fl (k / 100) + e / 2) := by
    rw [Double.ofRat?_eq_some.mp hd, fl_idempotent]
  rw [← hval] at hclose
  split at hkept
  · rw [← Option.some.inj hkept]
    refine tokenColumn_eq ?_ (hclose.trans (by norm_num))
    have hclose := abs_le.mp hclose
    rw [abs_lt]
    push_cast at hclose
    norm_num at hclose hk ⊢
    constructor <;> linarith
  · cases hkept

theorem le_of_not_lt_added {r k e : ℕ} (hk : (k : ℚ) / 100 < 2 ^ 34) (he : e ≤ 3)
    (h : ¬ parseCents r < fl (fl (k / 100) + e / 2)) : k + 50 * e ≤ r := by
  by_contra hless
  have hr : (r : ℚ) + 1 ≤ (k + 50 * e : ℕ) := by exact_mod_cast Nat.lt_of_not_le hless
  have he' : (e : ℚ) ≤ 3 := by exact_mod_cast he
  have hclose := abs_le.mp (abs_added_sub_le hk he)
  push_cast at hr hclose
  have hparse := abs_le.mp (abs_parseCents_sub_le (c := r) (k := 35)
    (by norm_num at hk ⊢; linarith) (by norm_num))
  refine h ?_
  norm_num at hclose hparse ⊢
  linarith

theorem sub_ge_of_check {l : List ℚ} {s n k e : ℕ} (hl : Resolved l) (hsum : l.sum = n / 100)
    (hk : (k : ℚ) / 100 < 2 ^ 22) (he : e ≤ 3)
    (hcheck : ¬ parseCents (toFixed2 (max 0 (fl (parseCents s - sumNumbers l)))) <
      fl (fl (k / 100) + e / 2)) : k + 50 * e ≤ s - n := by
  by_cases hs : (s : ℚ) / 100 < 2 ^ 40
  · rw [printed_rest hl hsum hs] at hcheck
    exact le_of_not_lt_added (hk.trans (by norm_num)) he hcheck
  · -- so much covers all that was spent and the amount besides
    have hn : (n : ℚ) / 100 < 2 ^ 22 := hsum ▸ hl.small
    have he' : (e : ℚ) ≤ 3 := by exact_mod_cast he
    have hcast : (k + 50 * e + n : ℕ) ≤ (s : ℚ) := by
      push_cast
      rw [not_lt] at hs
      norm_num at hs hk hn
      linarith
    have : k + 50 * e + n ≤ s := by exact_mod_cast hcast
    omega

theorem toFixed2_rest_le {s : ℕ} {spent : ℚ} (hs : (s : ℚ) / 100 < 2 ^ 40) (hspent : 0 ≤ spent) :
    toFixed2 (max 0 (fl (parseCents s - spent))) ≤ s := by
  have hparse := abs_le.mp (abs_parseCents_sub_le (k := 40) (by exact_mod_cast hs) (by norm_num))
  rcases le_total (parseCents s - spent) 0 with hneg | hpos
  · rw [max_eq_left (fl_nonpos hneg)]
    simp [toFixed2]
  · rw [max_eq_right (fl_nonneg hpos)]
    have hfl := abs_le.mp (abs_fl_sub_le_of_lt (x := parseCents s - spent) (k := 41)
      (by rw [abs_of_nonneg hpos]; norm_num at hparse hs ⊢; linarith) (by norm_num))
    have hround := abs_le.mp (abs_sub_round (fl (parseCents s - spent) * 100))
    have hlt : (round (fl (parseCents s - spent) * 100) : ℚ) < s + 1 := by
      norm_num at hparse hfl hround
      linarith
    have : round (fl (parseCents s - spent) * 100) < (s + 1 : ℕ) := by exact_mod_cast hlt
    unfold toFixed2
    omega

theorem add_le_of_available {r p m : ℕ} (hr : (r : ℚ) / 100 < 2 ^ 40) (hm : (m : ℚ) / 100 < 2 ^ 34)
    (hpos : 0 < fl ((m : ℚ) / 100))
    (h : ¬ max 0 (fl (parseCents r - fl (p / 100))) < fl (m / 100)) : m + p ≤ r := by
  by_contra hless
  have hless : (r : ℚ) + 1 ≤ m + p := by exact_mod_cast Nat.lt_of_not_le hless
  have hp0 : (0 : ℚ) ≤ p / 100 := by positivity
  have hm0 : (0 : ℚ) ≤ m / 100 := by positivity
  have hparse := abs_le.mp (abs_parseCents_sub_le (k := 40) (by exact_mod_cast hr) (by norm_num))
  refine h (max_lt hpos ?_)
  by_cases hp : (p : ℚ) / 100 < 2 ^ 42
  · have hread := abs_le.mp (abs_fl_sub_le_of_lt (x := (p : ℚ) / 100) (k := 42)
      (by rw [abs_of_nonneg hp0]; exact_mod_cast hp) (by norm_num))
    have hamount := abs_le.mp (abs_fl_sub_le_of_lt (x := (m : ℚ) / 100) (k := 34)
      (by rw [abs_of_nonneg hm0]; exact_mod_cast hm) (by norm_num))
    have hr0 : (0 : ℚ) ≤ r / 100 := by positivity
    have hsub := abs_le.mp (abs_fl_sub_le_of_lt (x := parseCents r - fl (p / 100)) (k := 43)
      (by rw [abs_lt]; norm_num at hread hparse hp hr ⊢; constructor <;> linarith) (by norm_num))
    norm_num at hread hamount hparse hsub
    linarith
  · refine lt_of_le_of_lt (fl_nonpos ?_) hpos
    have hnormal : (2 : ℚ) ^ (-1022 : ℤ) ≤ p / 100 := by
      refine (zpow_le_zpow_right₀ (by norm_num) (by norm_num : (-1022 : ℤ) ≤ 42)).trans ?_
      rw [not_lt] at hp
      exact_mod_cast hp
    have hread := mul_le_fl hnormal
    rw [not_lt] at hp
    norm_num at hparse hr hp hread
    linarith

/-! ### Amounts of four decimals -/

/-- Amounts whose sum binary64 resolves to the last digit of the column. -/
structure Resolvable (l : List ℚ) : Prop where
  digits : ∀ a ∈ l, 0 ≤ a ∧ (a * 10 ^ 4).den = 1
  few : l.length ≤ 2 ^ 12
  small : l.sum < 2 ^ 22

instance (l : List ℚ) : Decidable (Resolvable l) :=
  decidable_of_iff ((∀ a ∈ l, 0 ≤ a ∧ (a * 10 ^ 4).den = 1) ∧ l.length ≤ 2 ^ 12 ∧ l.sum < 2 ^ 22)
    ⟨fun h => ⟨h.1, h.2.1, h.2.2⟩, fun h => ⟨h.digits, h.few, h.small⟩⟩

theorem Resolvable.sum {l : List ℚ} (h : Resolvable l) : ∃ n : ℕ, l.sum = n / 10 ^ 4 := by
  have hdigits := h.digits
  clear h
  induction l with
  | nil => exact ⟨0, by simp⟩
  | cons a l ih =>
    obtain ⟨n, hn⟩ := ih fun b hb => hdigits b (List.mem_cons_of_mem _ hb)
    obtain ⟨ha, hden⟩ := hdigits a List.mem_cons_self
    obtain ⟨m, hm⟩ := Int.eq_ofNat_of_zero_le (Rat.num_nonneg.mpr (by positivity : 0 ≤ a * 10 ^ 4))
    have hvalue : a * 10 ^ 4 = m := by
      rw [← Rat.num_div_den (a * 10 ^ 4), hden, hm]
      norm_num
    refine ⟨m + n, ?_⟩
    rw [List.sum_cons, hn]
    push_cast
    linarith

theorem Resolvable.abs_sub_le {l : List ℚ} (h : Resolvable l) :
    |sumNumbers l - l.sum| ≤ 2 ^ (-18 : ℤ) := by
  have hadd := abs_roundedSum_sub_le (k := 22) (fun a ha => (h.digits a ha).1)
    (by exact_mod_cast h.small) (h.few.trans (by norm_num)) (by norm_num)
  have hlength : (l.length : ℚ) ≤ 2 ^ 12 := by exact_mod_cast h.few
  refine hadd.trans ?_
  have : (l.length : ℚ) * 2 ^ (22 - 52 : ℤ) ≤ 2 ^ 12 * 2 ^ (22 - 52 : ℤ) := by gcongr
  exact this.trans (by norm_num)

theorem add_le_of_covered {l : List ℚ} {number : ℚ} {b m : ℕ} (hl : Resolvable l)
    (hnumber : (b : ℚ) / 10 ^ 4 < 2 ^ 36 → |number - b / 10 ^ 4| ≤ 2 ^ (-18 : ℤ))
    (hm : (m : ℚ) / 100 < 10 ^ 10) (h : ¬ fl (number - sumNumbers l) < fl (m / 100)) :
    l.sum + m / 100 ≤ b / 10 ^ 4 := by
  have hsmall := hl.small
  by_cases hb : (b : ℚ) / 10 ^ 4 < 2 ^ 36
  · obtain ⟨n, hn⟩ := hl.sum
    have hadd := abs_le.mp hl.abs_sub_le
    have hread := abs_le.mp (hnumber hb)
    have hm0 : (0 : ℚ) ≤ m / 100 := by positivity
    have hb0 : (0 : ℚ) ≤ b / 10 ^ 4 := by positivity
    have hn0 : (0 : ℚ) ≤ n / 10 ^ 4 := by positivity
    have hescrow := abs_le.mp (abs_fl_sub_le_of_lt (x := (m : ℚ) / 100) (k := 34)
      (by rw [abs_of_nonneg hm0]; norm_num at hm ⊢; linarith) (by norm_num))
    rw [hn] at hadd hsmall ⊢
    have hsub := abs_le.mp (abs_fl_sub_le_of_lt (x := number - sumNumbers l) (k := 37)
      (by rw [abs_lt]; norm_num at hadd hread hb hsmall hb0 hn0 ⊢; constructor <;> linarith)
      (by norm_num))
    rw [not_lt] at h
    -- the three amounts are whole numbers of the last digit
    have hlt : (n : ℚ) + 100 * m < b + 1 := by
      norm_num at hadd hread hescrow hsub
      linarith
    have hle : n + 100 * m ≤ b := by
      have : ((n + 100 * m : ℕ) : ℚ) < (b + 1 : ℕ) := by push_cast; exact hlt
      exact Nat.lt_succ_iff.mp (by exact_mod_cast this)
    have hcast : (n : ℚ) + 100 * m ≤ b := by exact_mod_cast hle
    linarith
  · norm_num at hb hm hsmall ⊢
    linarith

end Livora.CentAmounts
