import Livora.BatchServices
import Livora.StockAmounts

/-! What batches weigh together. The service adds the numbers up in binary64, rounds to the gram and
sends the text to a column of three decimals; where the weights are of whole grams and not too many,
nothing is lost on the way. -/

namespace Livora.BatchWeights

open DoubleRounding RewardStrategies BatchBooks BatchDesk BatchServices StockBooks StockAmounts

def weightsOf (materialsActual : Option NumberRecord) : List ℚ :=
  (materialsActual.getD []).map fun entry => entry.2.toDecimal.value

def weights (b : Batch) : List ℚ := weightsOf b.materialsActual

def weightKg (b : Batch) : ℚ := (weights b).sum

def togetherKg (rows : List Batch) : ℚ := (rows.map weightKg).sum

def additions (rows : List Batch) : ℕ := (rows.map fun b => (weights b).length + 1).sum

/-- Weights of whole grams, so few and so light that the additions stay far within a gram. -/
structure Measured (rows : List Batch) : Prop where
  grams : ∀ b ∈ rows, ∀ q ∈ weights b, ∃ n : ℕ, q = n / 1000
  moderate : ∃ k : ℕ, togetherKg rows < 2 ^ k ∧ (additions rows + 1) * 2 ^ k ≤ 2 ^ 35

variable {rows : List Batch} {b : Batch} {k : ℤ} {x s S : ℚ} {m : ℕ}

theorem fl_value (d : Double) : fl d.toDecimal.value = d.val :=
  (Double.ofRat?_eq_some.mp (Double.parse_toDecimal d)).symm

theorem leafWeightKg_eq (b : Batch) : leafWeightKg b = roundedSum (weights b) := by
  unfold leafWeightKg addWeights roundedSum weights weightsOf
  rw [List.foldl_map]
  simp only [fl_value]

theorem weightKg_congr {b b' : Batch} (h : b'.materialsActual = b.materialsActual) :
    weightKg b' = weightKg b := by
  unfold weightKg weights
  rw [h]

theorem togetherKg_congr {rows rows' : List Batch}
    (h : rows.map Batch.materialsActual = rows'.map Batch.materialsActual) :
    togetherKg rows = togetherKg rows' := by
  have hrows : ∀ rows : List Batch, togetherKg rows =
      ((rows.map Batch.materialsActual).map fun m => (weightsOf m).sum).sum := by
    intro rows
    rw [List.map_map]
    rfl
  rw [hrows, hrows, h]

theorem weights_nonneg (h : ∀ q ∈ weights b, ∃ n : ℕ, q = n / 1000) : ∀ q ∈ weights b, 0 ≤ q := by
  intro q hq
  obtain ⟨n, rfl⟩ := h q hq
  positivity

theorem weightKg_nonneg (h : ∀ q ∈ weights b, ∃ n : ℕ, q = n / 1000) : 0 ≤ weightKg b :=
  List.sum_nonneg (weights_nonneg h)

theorem abs_fl_sub_le_near {d : ℚ} (hx : |x - S| ≤ d) (hd : d ≤ 2 ^ k) (hS : 0 ≤ S)
    (hsum : S < 2 ^ k) (hk : 0 ≤ k) : |fl x - S| ≤ d + 2 ^ (k - 52) := by
  obtain ⟨hx1, hx2⟩ := abs_le.mp hx
  have htwice : (2 : ℚ) ^ (k + 1) = 2 ^ k + 2 ^ k := by
    rw [zpow_add_one₀ (by norm_num)]
    ring
  have hsmall : |x| < 2 ^ (k + 1) := by
    rw [htwice, abs_lt]
    constructor <;> linarith
  have hround := abs_le.mp (abs_fl_sub_le_of_lt hsmall (by omega))
  have hplace : (2 : ℚ) ^ (k + 1 - 54) ≤ 2 ^ (k - 52) :=
    zpow_le_zpow_right₀ (by norm_num) (by omega)
  rw [abs_le]
  constructor <;> linarith [hround.1, hround.2]

theorem abs_leafWeightKg_sub_le (h : ∀ q ∈ weights b, ∃ n : ℕ, q = n / 1000)
    (hsum : weightKg b < 2 ^ k) (hlength : (weights b).length ≤ 2 ^ 51) (hk : 0 ≤ k) :
    |leafWeightKg b - weightKg b| ≤ (weights b).length * 2 ^ (k - 52) := by
  rw [leafWeightKg_eq]
  exact abs_roundedSum_sub_le (weights_nonneg h) hsum hlength (by omega)

theorem abs_foldl_leaf_sub_le (h : ∀ b ∈ rows, ∀ q ∈ weights b, ∃ n : ℕ, q = n / 1000)
    (hs : |s - S| ≤ m * 2 ^ (k - 52)) (hS : 0 ≤ S) (hsum : S + togetherKg rows < 2 ^ k)
    (hlength : m + additions rows ≤ 2 ^ 51) (hk : 0 ≤ k) :
    |rows.foldl (fun sum b => fl (sum + leafWeightKg b)) s - (S + togetherKg rows)| ≤
      (m + additions rows : ℕ) * 2 ^ (k - 52) := by
  induction rows generalizing s S m with
  | nil => simpa [togetherKg, additions] using hs
  | cons b rows ih =>
    have hb := h b List.mem_cons_self
    have hrest : ∀ b ∈ rows, ∀ q ∈ weights b, ∃ n : ℕ, q = n / 1000 := fun b hb =>
      h b (List.mem_cons_of_mem _ hb)
    have hpos : 0 ≤ weightKg b := weightKg_nonneg hb
    have hrestpos : 0 ≤ togetherKg rows := by
      refine List.sum_nonneg fun q hq => ?_
      obtain ⟨b, hb, rfl⟩ := List.mem_map.mp hq
      exact weightKg_nonneg (hrest b hb)
    have htogether : togetherKg (b :: rows) = weightKg b + togetherKg rows := List.sum_cons
    have hadditions : additions (b :: rows) = (weights b).length + 1 + additions rows :=
      List.sum_cons
    rw [htogether] at hsum
    rw [hadditions] at hlength
    have hleaf := abs_leafWeightKg_sub_le (k := k) hb (by linarith) (by omega) hk
    have hnear : |s + leafWeightKg b - (S + weightKg b)| ≤ (m + (weights b).length : ℕ) *
        2 ^ (k - 52) := by
      push_cast
      rw [show s + leafWeightKg b - (S + weightKg b) = s - S +
        (leafWeightKg b - weightKg b) by ring, add_mul]
      exact (abs_add_le _ _).trans (add_le_add hs hleaf)
    have hd : ((m + (weights b).length : ℕ) : ℚ) * 2 ^ (k - 52) ≤ 2 ^ k := by
      have hm : ((m + (weights b).length : ℕ) : ℚ) ≤ 2 ^ 52 := by
        exact_mod_cast (by omega : m + (weights b).length ≤ 2 ^ 52)
      have hsplit : (2 : ℚ) ^ k = 2 ^ 52 * 2 ^ (k - 52) := by
        rw [← zpow_natCast, ← zpow_add₀ (by norm_num)]
        congr 1
        push_cast
        ring
      rw [hsplit]
      exact mul_le_mul_of_nonneg_right hm (by positivity)
    have hstep := abs_fl_sub_le_near hnear hd (by linarith) (by linarith) hk
    rw [List.foldl_cons, htogether, ← add_assoc, hadditions]
    have hlast := ih (m := m + (weights b).length + 1) hrest
      (by push_cast at hstep ⊢; linarith) (by linarith) (by linarith) (by omega)
    rwa [add_assoc m, add_assoc m] at hlast

theorem togetherKg_grams (h : ∀ b ∈ rows, ∀ q ∈ weights b, ∃ n : ℕ, q = n / 1000) :
    ∃ n : ℕ, togetherKg rows = n / 1000 := by
  refine grams_sum fun q hq => ?_
  obtain ⟨b, hb, rfl⟩ := List.mem_map.mp hq
  exact grams_sum (h b hb)

theorem abs_foldl_sub_le_of_measured (h : Measured rows) :
    |rows.foldl (fun sum b => fl (sum + leafWeightKg b)) 0 - togetherKg rows| ≤ 1 / 10 ^ 5 := by
  obtain ⟨k, hsum, hmany⟩ := h.moderate
  have hpow : 0 < 2 ^ k := by positivity
  have hfew : additions rows + 1 ≤ 2 ^ 35 := (Nat.le_mul_of_pos_right _ hpow).trans hmany
  have hnear := abs_foldl_leaf_sub_le (s := 0) (S := 0) (m := 0) (k := k) h.grams (by simp) le_rfl
    (by simpa using hsum) (by omega) (by omega)
  rw [zero_add, zero_add] at hnear
  refine hnear.trans ?_
  have hmany' : ((additions rows : ℕ) : ℚ) * 2 ^ k ≤ 2 ^ 35 := by
    have hle : additions rows * 2 ^ k ≤ 2 ^ 35 :=
      (Nat.mul_le_mul_right _ (Nat.le_succ _)).trans hmany
    exact_mod_cast hle
  rw [zpow_sub₀ (by norm_num), zpow_natCast, ← mul_div_assoc, div_le_iff₀ (by positivity)]
  norm_num
  linarith

theorem totalWeightKg_whole (h : Measured rows) : ∃ n : ℕ, togetherKg rows = n / 1000 ∧
    |totalWeightKg rows - n / 1000| ≤ 1 / 10 ^ 5 := by
  obtain ⟨n, hn⟩ := togetherKg_grams h.grams
  obtain ⟨k, hsum, hmany⟩ := h.moderate
  have hnear := abs_le.mp (abs_foldl_sub_le_of_measured h)
  rw [hn] at hnear hsum
  generalize hfold : rows.foldl (fun sum b => fl (sum + leafWeightKg b)) 0 = x at hnear
  have hk : k ≤ 35 := by
    by_contra hlarge
    have hpow : 2 ^ 36 ≤ 2 ^ k := Nat.pow_le_pow_right (by norm_num) (by omega)
    have hle : 2 ^ k ≤ 2 ^ 35 := (Nat.le_mul_of_pos_left _ (Nat.succ_pos _)).trans hmany
    omega
  have hrange : (n : ℚ) / 1000 < 2 ^ (35 : ℤ) := hsum.trans_le (by
    rw [← zpow_natCast]
    exact zpow_le_zpow_right₀ (by norm_num) (by exact_mod_cast hk))
  have hpos : (0 : ℚ) ≤ n / 1000 := by positivity
  have hround : round (x * 10 ^ 3) = (n : ℤ) := by
    rw [round_eq, Int.floor_eq_iff]
    push_cast
    norm_num at hnear ⊢
    constructor <;> linarith [hnear.1, hnear.2]
  have hfixed : toFixed x 3 = fl (n / 1000) := by
    have hsmall : ¬ 10 ^ 21 ≤ |x| := by
      rw [not_le, abs_lt]
      norm_num at hnear hrange ⊢
      constructor <;> linarith [hnear.1, hnear.2]
    unfold toFixed
    rw [if_neg hsmall]
    split
    · rename_i hneg
      have hzero : round (-x * 10 ^ 3) = 0 := by
        rw [round_eq, Int.floor_eq_iff]
        norm_num at hnear ⊢
        constructor <;> linarith [hnear.1, hnear.2]
      have hn0 : n = 0 := by
        have hlt : (n : ℚ) < 1 := by
          norm_num at hnear
          linarith [hnear.1, hnear.2]
        exact_mod_cast Nat.lt_one_iff.mp (by exact_mod_cast hlt)
      rw [hzero, hn0]
      simp [fl_zero]
    · rw [hround]
      push_cast
      norm_num
  refine ⟨n, hn, ?_⟩
  unfold totalWeightKg
  rw [hfold, hfixed]
  refine (abs_fl_sub_le_of_lt (k := 35) (by rwa [abs_of_nonneg hpos]) (by norm_num)).trans ?_
  norm_num

theorem totalWeight_newRow {w : World} {id centerId : String} {row : ConsolidatedBatch}
    (h : Measured rows) (hrow : w.newRow id centerId (totalWeightKg rows) = some row) :
    row.totalWeight = togetherKg rows := by
  unfold World.newRow at hrow
  split at hrow
  · cases hrow
  · obtain ⟨y, hy, hrow⟩ := Option.bind_eq_some_iff.mp hrow
    obtain ⟨q, hq, hrow⟩ := Option.bind_eq_some_iff.mp hrow
    cases hrow
    obtain ⟨n, hn, hnear⟩ := totalWeightKg_whole h
    rw [hn]
    exact column_whole hnear hy hq

end Livora.BatchWeights
