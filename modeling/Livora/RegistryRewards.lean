import Livora.RegistryBank

/-! The reward arithmetic of a weighed batch, read on integers: the total of the
truncated products at the effective rates, and its split between households and
collector. The split loses nothing, whatever the signs. -/

namespace Livora.RegistryRewards

open CheckedWords StellarXdr TrappingState TypedStore RegistryStorage RegistryContract RegistryBank

/-- The rate in force for a material: its own entry, else the default rate. -/
def effectiveRate (s : State) (code : Symbol) : ℤ :=
  match s.persistent.get (.materialRate code) with
  | some rate => SWord.val rate
  | none => (unwrapOr (s.instanceData.get .defaultRate) 0).val

/-- Grams times stroops per kilogram, truncated to stroops entry by entry. -/
def weighedReward (rate : Symbol → ℤ) (entries : List (Symbol × I128)) : ℤ :=
  (entries.map fun e => (e.2.val * rate e.1).tdiv 1000).sum

theorem getEffectiveRate_spec {s s' : State} {code : Symbol} {rate : I128}
    (h : Returns (getEffectiveRate code) s rate s') :
    s = s' ∧ rate.val = effectiveRate s code := by
  simp only [getEffectiveRate, returns_bind, returns_persistentHas] at h
  obtain ⟨present, _, ⟨rfl, rfl⟩, h⟩ := h
  cases hget : s.persistent.get (.materialRate code) with
  | some r =>
    simp [Store.has, hget] at h
    obtain ⟨rfl, rfl⟩ := h
    exact ⟨rfl, by simp [effectiveRate, hget]⟩
  | none =>
    simp [Store.has, hget] at h
    obtain ⟨rfl, rfl⟩ := h
    exact ⟨rfl, by simp [effectiveRate, hget]⟩

theorem sumRewards_spec {entries : List (Symbol × I128)} {s s' : State} {total total' : I128}
    (h : Returns (sumRewards entries total) s total' s') :
    s = s' ∧ total'.val = total.val + weighedReward (effectiveRate s) entries := by
  induction entries generalizing total with
  | nil =>
    obtain ⟨rfl, rfl⟩ := returns_pure.mp h
    exact ⟨rfl, by simp [weighedReward]⟩
  | cons e entries ih =>
    simp only [sumRewards, returns_bind, returns_checked, SWord.checkedMul_eq_some,
      SWord.checkedDiv_eq_some, SWord.checkedAdd_eq_some] at h
    obtain ⟨rate, _, hrate, product, _, ⟨hproduct, rfl⟩, reward, _, ⟨⟨-, hreward⟩, rfl⟩,
      next, _, ⟨hnext, rfl⟩, hrest⟩ := h
    obtain ⟨rfl, hval⟩ := getEffectiveRate_spec hrate
    obtain ⟨rfl, htotal⟩ := ih hrest
    refine ⟨rfl, ?_⟩
    simp only [weighedReward, List.map_cons, List.sum_cons] at htotal ⊢
    rw [htotal, hnext, hreward, hproduct, hval, val_i128 (by decide)]
    omega

/-- The share of one household and of the collector, on integers. -/
def split (total bps : ℤ) (n : ℕ) : ℤ × ℤ :=
  if n = 0 then (0, total)
  else
    let share := (total * bps).tdiv 10000
    let rest := total - share
    (rest.tdiv n, share + (rest - rest.tdiv n * n))

theorem split_whole (total bps : ℤ) (n : ℕ) :
    n * (split total bps n).1 + (split total bps n).2 = total := by
  by_cases hn : n = 0
  · simp [split, hn]
  · simp only [split, if_neg hn]
    ring

theorem share_bounds {total bps : ℤ} (ht : 0 ≤ total) (hb : 0 ≤ bps) (hb' : bps ≤ 10000) :
    0 ≤ (total * bps).tdiv 10000 ∧ (total * bps).tdiv 10000 ≤ total := by
  have hmul : 0 ≤ total * bps := mul_nonneg ht hb
  rw [Int.tdiv_eq_ediv_of_nonneg hmul]
  refine ⟨Int.ediv_nonneg hmul (by norm_num), ?_⟩
  have hle : total * bps ≤ total * 10000 := mul_le_mul_of_nonneg_left hb' ht
  omega

theorem split_nonneg {total bps : ℤ} (n : ℕ) (ht : 0 ≤ total) (hb : 0 ≤ bps)
    (hb' : bps ≤ 10000) : 0 ≤ (split total bps n).1 ∧ 0 ≤ (split total bps n).2 := by
  by_cases hn : n = 0
  · simpa [split, hn] using ht
  · simp only [split, if_neg hn]
    obtain ⟨hshare, hle⟩ := share_bounds ht hb hb'
    have hrest : 0 ≤ total - (total * bps).tdiv 10000 := sub_nonneg.mpr hle
    have hresidue := Int.tmod_add_tdiv_mul (total - (total * bps).tdiv 10000) n
    have hmod := Int.tmod_nonneg (n : ℤ) hrest
    exact ⟨Int.tdiv_nonneg hrest (Int.natCast_nonneg n), by linarith⟩

theorem split_neg (total bps : ℤ) (n : ℕ) :
    split (-total) bps n = (-(split total bps n).1, -(split total bps n).2) := by
  by_cases hn : n = 0
  · simp [split, hn]
  · have hrest : -total - (-(total * bps)).tdiv 10000 = -(total - (total * bps).tdiv 10000) := by
      rw [Int.neg_tdiv]
      ring
    simp only [split, if_neg hn, neg_mul, hrest]
    simp only [Int.neg_tdiv, Prod.mk.injEq, true_and]
    ring

theorem split_nonpos {total bps : ℤ} (n : ℕ) (ht : total ≤ 0) (hb : 0 ≤ bps)
    (hb' : bps ≤ 10000) : (split total bps n).1 ≤ 0 ∧ (split total bps n).2 ≤ 0 := by
  have h := split_nonneg n (neg_nonneg.mpr ht) hb hb'
  rw [split_neg] at h
  exact ⟨neg_nonneg.mp h.1, neg_nonneg.mp h.2⟩

theorem splitReward_spec {s s' : State} {total bps : I128} {households : Vec Address}
    {shares : I128 × I128} (h : Returns (splitReward total bps households) s shares s') :
    s = s' ∧ (shares.1.val, shares.2.val) = split total.val bps.val households.toList.length := by
  simp only [splitReward, returns_bind, returns_checked, SWord.checkedMul_eq_some,
    SWord.checkedDiv_eq_some] at h
  obtain ⟨product, _, ⟨hproduct, rfl⟩, share, _, ⟨⟨-, hshare⟩, rfl⟩, h⟩ := h
  have hshare' : share.val = (total.val * bps.val).tdiv 10000 := by rw [hshare, hproduct]; rfl
  rcases returns_ite.mp h with ⟨hsome, h⟩ | ⟨hnone, h⟩
  · simp only [returns_bind, returns_checked, SWord.checkedSub_eq_some, SWord.checkedDiv_eq_some,
      SWord.checkedMul_eq_some, SWord.checkedAdd_eq_some, returns_pure] at h
    obtain ⟨rest, _, ⟨hrest, rfl⟩, per, _, ⟨⟨-, hper⟩, rfl⟩, distributed, _, ⟨hdist, rfl⟩,
      residue, _, ⟨hresidue, rfl⟩, collector, _, ⟨hcollector, rfl⟩, rfl, rfl⟩ := h
    have hn : households.toList.length ≠ 0 := by
      have : 0 < households.len.toNat := hsome
      rw [Vec.toNat_len] at this
      omega
    rw [hshare'] at hrest hcollector
    rw [hrest] at hper
    refine ⟨rfl, ?_⟩
    simp only [split, if_neg hn, hcollector, hresidue, hdist, hrest, hper]
    rfl
  · obtain ⟨rfl, rfl⟩ := returns_pure.mp h
    have hempty : households.toList.length = 0 := by
      have : ¬ 0 < households.len.toNat := hnone
      simpa using this
    exact ⟨rfl, by simp [split, hempty]⟩

end Livora.RegistryRewards
