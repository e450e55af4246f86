import Livora.CollectionRaces
import Livora.ExactDecimals
import Livora.RoundingOrder
import Livora.VerificationAtomicity

/-! What a completion debits against what the acceptance asked in escrow. Nothing
holds the measured weights to the estimated ones, so the escrow covers the debit
only as far as they are worth about as much. -/

namespace Livora.DebitBounds

open DoubleRounding RewardStrategies EffectPrograms EffectPrograms.Action
open TransitionRuns ProgramPools ProgramPools.System CollectionRaces
open CollectionServices (Service)
open CollectionServices.CollectionLifecycleService (requiredEscrow)
open ExactDecimals (round_mono)
open PinVerification (VerifyPinDto weightsOf rewardOf weightFailure openRequest)

variable {x y v w r s : ℚ}

/-! ### Rounding to cents -/

theorem toFixed_of_small (h0 : 0 ≤ x) (h : x < 10 ^ 21) :
    toFixed x 2 = fl (round (x * 10 ^ 2) / 10 ^ 2) := by
  rw [toFixed, if_neg (by rw [abs_of_nonneg h0]; exact not_le.mpr h), if_neg (not_lt.mpr h0)]

theorem toFixed_of_large (h : 10 ^ 21 ≤ x) : toFixed x 2 = x := by
  rw [toFixed, if_pos (h.trans (le_abs_self x))]

theorem round_cents_nonneg (h0 : 0 ≤ x) : (0 : ℚ) ≤ round (x * 10 ^ 2) := by
  have := round_mono (mul_nonneg h0 (by norm_num : (0 : ℚ) ≤ 10 ^ 2))
  rw [round_zero] at this
  exact_mod_cast this

theorem toFixed_nonneg (h0 : 0 ≤ x) : 0 ≤ toFixed x 2 := by
  rcases lt_or_ge x (10 ^ 21) with hsmall | hlarge
  · rw [toFixed_of_small h0 hsmall]
    exact fl_nonneg (div_nonneg (round_cents_nonneg h0) (by norm_num))
  · rw [toFixed_of_large hlarge]
    exact h0

theorem toFixed_nonpos (h0 : x ≤ 0) : toFixed x 2 ≤ 0 := by
  rcases h0.lt_or_eq with hneg | rfl
  · unfold toFixed
    rw [if_pos hneg]
    split
    · exact h0
    · have hround := round_cents_nonneg (neg_nonneg.mpr h0)
      have := fl_nonneg (div_nonneg hround (by norm_num : (0 : ℚ) ≤ 10 ^ 2))
      linarith
  · rw [toFixed_of_small le_rfl (by norm_num), zero_mul, round_zero]
    simp

theorem toFixed_mono (h0 : 0 ≤ x) (h : x ≤ y) : toFixed x 2 ≤ toFixed y 2 := by
  rcases lt_or_ge y (10 ^ 21) with hy | hy
  · rw [toFixed_of_small h0 (h.trans_lt hy), toFixed_of_small (h0.trans h) hy]
    have hround : round (x * 10 ^ 2) ≤ round (y * 10 ^ 2) := round_mono (by linarith)
    have hcast : (round (x * 10 ^ 2) : ℚ) ≤ round (y * 10 ^ 2) := by exact_mod_cast hround
    exact fl_mono (div_le_div_of_nonneg_right hcast (by norm_num))
  · rw [toFixed_of_large hy]
    rcases lt_or_ge x (10 ^ 21) with hx | hx
    · -- the bound itself is a number of cents and representable
      rw [toFixed_of_small h0 hx]
      have hround : round (x * 10 ^ 2) ≤ round (((10 ^ 23 : ℤ) : ℚ)) :=
        round_mono (by push_cast; linarith)
      rw [round_intCast] at hround
      have hcast : (round (x * 10 ^ 2) : ℚ) ≤ 10 ^ 23 := by exact_mod_cast hround
      have hbound : fl (10 ^ 21) = 10 ^ 21 :=
        fl_of_representable ⟨5 ^ 21, 21, by norm_num, by norm_num, by norm_num⟩
      have hle : (round (x * 10 ^ 2) : ℚ) / 10 ^ 2 ≤ 10 ^ 21 := by
        rw [div_le_iff₀ (by norm_num)]
        exact hcast.trans (by norm_num)
      exact ((fl_mono hle).trans hbound.le).trans hy
    · rw [toFixed_of_large hx]
      exact h

theorem abs_toFixed_sub_le (h0 : 0 ≤ x) : |toFixed x 2 - x| ≤ 1 / 200 + (x + 1 / 200) / 2 ^ 53 := by
  rcases lt_or_ge x (10 ^ 21) with hsmall | hlarge
  · rw [toFixed_of_small h0 hsmall]
    have hround := abs_sub_round (x * 10 ^ 2)
    have hclose : |(round (x * 10 ^ 2) : ℚ) / 10 ^ 2 - x| ≤ 1 / 200 := by
      rw [abs_le] at hround ⊢
      constructor <;> linarith [hround.1, hround.2]
    have hrounding : |fl (round (x * 10 ^ 2) / 10 ^ 2) - round (x * 10 ^ 2) / 10 ^ 2| ≤
        (x + 1 / 200) / 2 ^ 53 := by
      have hnonneg := round_cents_nonneg h0
      rcases eq_or_lt_of_le hnonneg with hzero | hpos
      · rw [← hzero, zero_div, fl_zero, sub_zero, abs_zero]
        positivity
      · have hone : (1 : ℚ) ≤ round (x * 10 ^ 2) := by exact_mod_cast Int.cast_pos.mp hpos
        have hnormal : (2 : ℚ) ^ (-1022 : ℤ) ≤ |(round (x * 10 ^ 2) : ℚ) / 10 ^ 2| := by
          rw [abs_of_nonneg (by positivity)]
          refine (zpow_le_zpow_right₀ (by norm_num) (by norm_num : (-1022 : ℤ) ≤ -7)).trans ?_
          exact (by norm_num : (2 : ℚ) ^ (-7 : ℤ) ≤ 1 / 10 ^ 2).trans
            (div_le_div_of_nonneg_right hone (by norm_num))
        refine (abs_fl_sub_le_rel hnormal).trans ?_
        rw [abs_of_nonneg (by positivity)]
        have := (abs_le.mp hclose).2
        gcongr
        linarith
    have htri := abs_sub_le (fl (round (x * 10 ^ 2) / 10 ^ 2)) (round (x * 10 ^ 2) / 10 ^ 2) x
    linarith
  · rw [toFixed_of_large hlarge, sub_self, abs_zero]
    positivity

theorem toFixed_eq_zero (h0 : 0 ≤ x) (h : x < 1 / 200) : toFixed x 2 = 0 := by
  have hround : round (x * 10 ^ 2) = 0 := by
    rw [round_eq_iff]
    constructor <;> push_cast <;> linarith
  rw [toFixed_of_small h0 (by linarith), hround]
  simp

/-! ### The shares of a value -/

/-- `parseFloat((value * rate).toFixed(2))` -/
def share (value rate : ℚ) : ℚ := toFixed (fl (value * fl rate)) 2

theorem share_nonneg (hv : 0 ≤ v) (hr : 0 ≤ r) : 0 ≤ share v r :=
  toFixed_nonneg (fl_nonneg (mul_nonneg hv (fl_nonneg hr)))

theorem share_nonpos (hv : v ≤ 0) (hr : 0 ≤ r) : share v r ≤ 0 :=
  toFixed_nonpos (fl_nonpos (mul_nonpos_of_nonpos_of_nonneg hv (fl_nonneg hr)))

theorem share_mono (hv : 0 ≤ v) (hr : 0 ≤ r) (hvw : v ≤ w) (hrs : r ≤ s) :
    share v r ≤ share w s := by
  have hrate := fl_nonneg hr
  exact toFixed_mono (fl_nonneg (mul_nonneg hv hrate))
    (fl_mono (mul_le_mul hvw (fl_mono hrs) hrate (hv.trans hvw)))

theorem abs_fl_sub_le_succ (x : ℚ) : |fl x - x| ≤ (|x| + 1) / 2 ^ 53 := by
  have hnonneg := abs_nonneg x
  rcases lt_or_ge |x| 1 with hsmall | hlarge
  · have herr := abs_fl_sub_le_of_lt (k := 0) (by rwa [zpow_zero]) (by norm_num)
    have hbound : (2 : ℚ) ^ (0 - 54 : ℤ) ≤ 1 / 2 ^ 53 := by norm_num
    exact (herr.trans hbound).trans (div_le_div_of_nonneg_right (by linarith) (by positivity))
  · have hnormal : (2 : ℚ) ^ (-1022 : ℤ) ≤ |x| :=
      ((zpow_le_zpow_right₀ (by norm_num) (by norm_num : (-1022 : ℤ) ≤ 0)).trans
        (by norm_num)).trans hlarge
    exact (abs_fl_sub_le_rel hnormal).trans
      (div_le_div_of_nonneg_right (by linarith) (by positivity))

theorem abs_share_sub_le (hv : 0 ≤ v) (hr : 0 ≤ r) (hr' : r ≤ 1) :
    |share v r - v * r| ≤ 6 / 1000 + v / 2 ^ 50 := by
  have hrate := abs_fl_sub_le_succ r
  rw [abs_of_nonneg hr] at hrate
  have hrate : |fl r - r| ≤ 2 / 2 ^ 53 :=
    hrate.trans (div_le_div_of_nonneg_right (by linarith) (by positivity))
  have hproduct : |v * fl r - v * r| ≤ v * (2 / 2 ^ 53) := by
    rw [← mul_sub, abs_mul, abs_of_nonneg hv]
    exact mul_le_mul_of_nonneg_left hrate hv
  have hpos : 0 ≤ v * fl r := mul_nonneg hv (fl_nonneg hr)
  have hle : v * r ≤ v := mul_le_of_le_one_right hv hr'
  have hfl := abs_fl_sub_le_succ (v * fl r)
  rw [abs_of_nonneg hpos] at hfl
  have hfixed := abs_toFixed_sub_le (x := fl (v * fl r)) (fl_nonneg hpos)
  unfold share
  obtain ⟨hp₁, hp₂⟩ := abs_le.mp hproduct
  obtain ⟨hf₁, hf₂⟩ := abs_le.mp hfl
  obtain ⟨ht₁, ht₂⟩ := abs_le.mp hfixed
  rw [abs_le]
  norm_num at hp₁ hp₂ hf₁ hf₂ ht₁ ht₂ ⊢
  constructor <;> linarith

/-! ### What is debited -/

/-- The household's quarter and the treasury's twentieth of a value. -/
def debitOf (value : ℚ) : ℚ := share value (25 / 100) + share value (5 / 100)

theorem debitOf_le_same (hv : 0 ≤ v) : debitOf v ≤ share v (7 / 10) := by
  unfold debitOf
  rcases lt_or_ge v (1 / 16) with hsmall | hlarge
  · -- the treasury's share is below half a cent
    have hrate : fl (5 / 100) ≤ 3 / 50 := by
      have := abs_fl_sub_le_of_lt (x := 5 / 100) (k := 0) (by norm_num) (by norm_num)
      have := (abs_le.mp this).2
      norm_num at this
      linarith
    have hproduct : v * fl (5 / 100) ≤ 1 / 256 :=
      (mul_le_mul hsmall.le hrate (fl_nonneg (by norm_num)) (by norm_num)).trans (by norm_num)
    have hfl : fl (v * fl (5 / 100)) ≤ 1 / 256 := by
      have := fl_mono hproduct
      rwa [fl_of_representable (x := 1 / 256) ⟨1, -8, by norm_num, by norm_num, by norm_num⟩]
        at this
    have hzero : share v (5 / 100) = 0 :=
      toFixed_eq_zero (fl_nonneg (mul_nonneg hv (fl_nonneg (by norm_num)))) (by linarith)
    rw [hzero, add_zero]
    exact share_mono hv (by norm_num) le_rfl (by norm_num)
  · have hhousehold :=
      (abs_le.mp (abs_share_sub_le (r := 25 / 100) hv (by norm_num) (by norm_num))).2
    have htreasury := (abs_le.mp (abs_share_sub_le (r := 5 / 100) hv (by norm_num) (by norm_num))).2
    have hescrow := (abs_le.mp (abs_share_sub_le (r := 7 / 10) hv (by norm_num) (by norm_num))).1
    norm_num at hhousehold htreasury hescrow
    linarith

/-- The measured weights are worth no more than the estimated ones, or less than 7/3 as much by a
little for the roundings: three tenths of their value are debited, seven tenths of the other are in
escrow. -/
def Covered (estimated actual : ℚ) : Prop :=
  0 ≤ estimated ∧ (actual ≤ estimated ∨ actual + 1 / 10 ≤ 23333 / 10000 * estimated)

instance (estimated actual : ℚ) : Decidable (Covered estimated actual) :=
  inferInstanceAs (Decidable (_ ∧ _))

theorem debitOf_le (h : Covered v w) : debitOf w ≤ share v (7 / 10) := by
  obtain ⟨hv, hw⟩ := h
  rcases le_total w 0 with hnonpos | hnonneg
  · have hescrow := share_nonneg (r := 7 / 10) hv (by norm_num)
    have hhousehold := share_nonpos (r := 25 / 100) hnonpos (by norm_num)
    have htreasury := share_nonpos (r := 5 / 100) hnonpos (by norm_num)
    unfold debitOf
    linarith
  rcases hw with hle | hthirds
  · exact (debitOf_le_same hnonneg).trans (share_mono hnonneg (by norm_num) hle le_rfl)
  · rcases le_total w v with hle | hmore
    · exact (debitOf_le_same hnonneg).trans (share_mono hnonneg (by norm_num) hle le_rfl)
    · have hhousehold :=
        (abs_le.mp (abs_share_sub_le (r := 25 / 100) hnonneg (by norm_num) (by norm_num))).2
      have htreasury :=
        (abs_le.mp (abs_share_sub_le (r := 5 / 100) hnonneg (by norm_num) (by norm_num))).2
      have hescrow := (abs_le.mp
        (abs_share_sub_le (v := v) (r := 7 / 10) hv (by norm_num) (by norm_num))).1
      norm_num at hhousehold htreasury hescrow
      unfold debitOf
      linarith

/-! ### A request from its acceptance to its completion -/

section Requests

variable {svc : Service} {accepted : CollectionBooks.CollectionRequest}
  {row : PinVerification.CollectionRequest} {dto : VerifyPinDto}

/-- The completion reads the items, the rates and the kind that the acceptance read. -/
structure SameTerms (accepted : CollectionBooks.CollectionRequest)
    (row : PinVerification.CollectionRequest) :
    Prop where
  items : row.itemsEstimated = accepted.itemsEstimated
  rates : row.agreedRates = accepted.agreedRates.getD []
  donation : row.isDonation = accepted.isDonation

def debit (svc : Service) (row : PinVerification.CollectionRequest) (dto : VerifyPinDto) : ℚ :=
  (rewardOf svc.toService row dto).householdAmount + (rewardOf svc.toService row dto).treasuryAmount

/-- What the strategy takes the estimated weights to be worth at the agreed rates. -/
def estimatedValue (svc : Service) (row : PinVerification.CollectionRequest) : ℚ :=
  totalValue svc.toUpperCase row.itemsEstimated row.agreedRates

def actualValue (svc : Service) (row : PinVerification.CollectionRequest)
    (dto : VerifyPinDto) : ℚ :=
  totalValue svc.toUpperCase (weightsOf row dto) row.agreedRates

theorem debit_donation (h : row.isDonation = true) : debit svc row dto = 0 := by
  have hpays := donation_pays_nobody svc.toUpperCase (weightsOf row dto) row.agreedRates
  rw [debit, rewardOf, h, hpays.1, hpays.2, add_zero]

theorem debit_standard (h : row.isDonation = false) :
    debit svc row dto = debitOf (actualValue svc row dto) := by
  rw [debit, rewardOf, h]
  rfl

theorem requiredEscrow_donation (h : accepted.isDonation = true) :
    requiredEscrow svc accepted = 0 := by
  rw [requiredEscrow, CollectionServices.CollectionEscrowService.calculateRequiredEscrow, h]
  rfl

theorem requiredEscrow_standard (h : SameTerms accepted row) (hstandard : row.isDonation = false) :
    requiredEscrow svc accepted = share (estimatedValue svc row) (7 / 10) := by
  rw [requiredEscrow, CollectionServices.CollectionEscrowService.calculateRequiredEscrow, ← h.items,
    ← h.rates, ← h.donation, hstandard]
  rfl

/-- The escrow of a request covers what its completion debits, as far as the measured weights are
worth about what was estimated; a donation debits nothing. -/
theorem debit_le_escrow (h : SameTerms accepted row)
    (hcovered : row.isDonation = false →
      Covered (estimatedValue svc row) (actualValue svc row dto)) :
    debit svc row dto ≤ requiredEscrow svc accepted := by
  cases hdonation : row.isDonation with
  | true => rw [debit_donation hdonation, requiredEscrow_donation (h.donation ▸ hdonation)]
  | false =>
    rw [debit_standard hdonation, requiredEscrow_standard h hdonation]
    exact debitOf_le (hcovered hdonation)

end Requests

def measured (kilograms : ℕ) : VerifyPinDto where
  pin := "4829"
  actualWeights := (Double.ofRat? kilograms).toList.map fun weight => ("PET", weight)

/-- Twice what was estimated is covered. -/
theorem debit_le_escrow_twice : debit sampleService PinVerification.sampleRequest (measured 20) ≤
    requiredEscrow sampleService sampleRow :=
  debit_le_escrow ⟨rfl, rfl, rfl⟩ fun _ => by decide +kernel

def taken : List RaceEvent := acceptance 0 "first" :: answered 0 7

/-- Three times what was estimated passes every check of the verification, and the collector is to
pay more than he has in escrow. -/
theorem debit_above_escrow :
    (∃ c, run (system sampleService).step (quiescent (sampleWorld [sampleRow] [])) taken = some c ∧
      c.world.requests.map (fun r => (r.status, r.escrowLocked)) = [(.accepted, 7)]) ∧
    (exec (VerificationAtomicity.answering fun _ => PinVerification.answered)
        ⟨PinVerification.sampleStore none, false, []⟩
        (openRequest sampleService.toService "collector" (measured 30))).1.toOption =
      some PinVerification.sampleRequest ∧
    SameTerms sampleRow PinVerification.sampleRequest ∧ requiredEscrow sampleService sampleRow = 7 ∧
    debit sampleService PinVerification.sampleRequest (measured 30) = 9 := by
  refine ⟨?_, by decide +kernel, ⟨rfl, rfl, rfl⟩, by decide +kernel, by decide +kernel⟩
  have hrun : (run (system sampleService).step (quiescent (sampleWorld [sampleRow] [])) taken).any
      (fun c => c.world.requests.map (fun r => (r.status, r.escrowLocked)) == [(.accepted, 7)]) =
        true := by
    decide +kernel
  obtain ⟨c, hc, htest⟩ := (Option.any_eq_true _ _).mp hrun
  exact ⟨c, hc, eq_of_beq htest⟩

end Livora.DebitBounds
