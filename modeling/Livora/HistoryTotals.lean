import Livora.BalanceReports
import Livora.WalletHistory

/-! The history of a household against its balance. What the two say of the completed requests is
the same, up to the rounding of each item, where both go by the same formula and the same rates. -/

namespace Livora.HistoryTotals

open DoubleRounding EffectPrograms EffectPrograms.Action RewardStrategies StoreBooks WalletBalance
open BalanceReports WalletHistory
open BackOffice (Role User)
open PinVerification (truthy)

variable {svc : Service} {up : Bool} {rates : String → Double} {t : Tables} {w : World}
    {user : User}
  {r : HistoryRequest} {chain : String → ℕ}

/-! ### The balance -/

def paid (r : HistoryRequest) : Option ℚ := (r.householdRewardEarned.map fl).filter (0 < ·)

def earned (svc : Service) (rates : String → Double) (r : HistoryRequest) : ℚ :=
  (paid r).getD (fl (valueAt (rateOr svc.toUpperCase r.rates fun mat => (rates mat).val) r.weights *
    fl (25 / 100)))

theorem exec_agreedRate (agreed : NumberRecord) (mat : String) :
    exec (reading up rates) w (agreedRate svc agreed mat) =
      (.ok (rateOr svc.toUpperCase agreed (fun mat => (rates mat).val) mat), w) := by
  unfold agreedRate rateOr
  cases (rateUnder agreed mat).or (rateUnder agreed (svc.toUpperCase mat)) with
  | some rate => rfl
  | none => rfl

theorem exec_requestTotal (agreed weights : NumberRecord) (total : ℚ) :
    exec (reading up rates) w (requestTotal svc agreed weights total) =
      (.ok (weights.foldl (fun total entry =>
        fl (total +
          fl (entry.2.val * rateOr svc.toUpperCase agreed (fun mat => (rates mat).val) entry.1)))
          total), w) := by
  induction weights generalizing total with
  | nil => rfl
  | cons entry weights ih =>
    unfold requestTotal
    rw [exec_bind_of_ok (exec_agreedRate agreed entry.1), ih]
    rfl

theorem exec_requestEarned : exec (reading up rates) w (requestEarned svc r.toCollectionRequest) =
    (.ok (earned svc rates r), w) := by
  unfold requestEarned earned paid
  cases (r.householdRewardEarned.map fl).filter (0 < ·) with
  | some reward => rfl
  | none =>
    dsimp only
    rw [exec_bind_of_ok (exec_requestTotal _ _ _)]
    rfl

def total (amounts : List ℚ) (start : ℚ) : ℚ := amounts.foldl (fun sum a => fl (sum + a)) start

theorem exec_householdEarned (requests : List HistoryRequest) (start : ℚ) :
    exec (reading up rates) w
      (householdEarned svc (requests.map HistoryRequest.toCollectionRequest) start) =
      (.ok (total (requests.map (earned svc rates)) start), w) := by
  induction requests generalizing start with
  | nil => rfl
  | cons r requests ih =>
    rw [List.map_cons]
    unfold householdEarned
    rw [exec_bind_of_ok exec_requestEarned, ih]
    rfl

theorem total_rounded (amounts : List ℚ) {start : ℚ} (h : fl start = start) :
    fl (total amounts start) = total amounts start := by
  induction amounts generalizing start with
  | nil => exact h
  | cons a amounts ih => exact ih (fl_idempotent _)

/-- The household has redeemed, transferred and bought nothing. -/
structure Quiet (t : Tables) (userId : String) : Prop where
  redemptions : ∀ x ∈ t.redemptions, x.userId ≠ some userId
  transfers : ∀ x ∈ t.transfers, x.senderUserId ≠ userId ∧ x.receiverUserId ≠ some userId
  payments : ∀ x ∈ t.payments, x.userId ≠ userId

theorem quiet_world (hquiet : Quiet t user.id) :
    redeemed (t.world chain) user.id = [] ∧
    ((t.world chain).books.transfers.filter fun x =>
      x.receiverUserId == some user.id && x.status == "COMPLETED") = [] ∧
    ((t.world chain).books.transfers.filter fun x =>
      x.senderUserId == user.id && (x.receiverUserId.any fun id => id != user.id) &&
        x.status == "COMPLETED") = [] ∧
    ((t.world chain).books.payments.filter fun x => x.userId == user.id && x.status == .completed) =
      [] := by
  have htransfers (x : WalletTransfer) (hx : x ∈ (t.world chain).books.transfers) :
      x.senderUserId ≠ user.id ∧ x.receiverUserId ≠ some user.id := by
    obtain ⟨y, hy, rfl⟩ := List.mem_map.mp hx
    exact hquiet.transfers y hy
  refine ⟨?_, ?_, ?_, ?_⟩
  · unfold redeemed World.completedRedemptions
    rw [List.map_eq_nil_iff, List.filter_eq_nil_iff]
    intro x hx
    obtain ⟨y, hy, rfl⟩ := List.mem_map.mp hx
    simp [hquiet.redemptions y hy]
  · rw [List.filter_eq_nil_iff]
    intro x hx
    simp [(htransfers x hx).2]
  · rw [List.filter_eq_nil_iff]
    intro x hx
    simp [(htransfers x hx).1]
  · rw [List.filter_eq_nil_iff]
    intro x hx
    simp [hquiet.payments x hx]

theorem exec_roleEarned (hrole : user.role = .hogar) :
    exec (reading up rates) (t.world chain) (roleEarned svc user) =
      (.ok (total ((completed t user.id).map (earned svc rates)) 0), t.world chain) := by
  have hrequests : reading up rates (t.world chain) (.householdRequests user.id) =
      (.ok ((completed t user.id).map HistoryRequest.toCollectionRequest), t.world chain) := by
    have hfilter : ((t.world chain).books.requests.filter fun r =>
        r.householdId == user.id && r.status == .completed) =
          (completed t user.id).map HistoryRequest.toCollectionRequest := List.filter_map
    rw [← hfilter]
    rfl
  unfold roleEarned
  rw [hrole]
  dsimp only
  rw [exec_bind_of_ok (x := (completed t user.id).map HistoryRequest.toCollectionRequest)
    (t := t.world chain) (by rw [call, exec_perform, hrequests]), exec_householdEarned]

theorem exec_ledgerBalance (hrole : user.role = .hogar) (hquiet : Quiet t user.id) :
    (exec (reading up rates) (t.world chain) (ledgerBalance svc user 0)).1 =
      .ok (toFixed2 (max 0 (total ((completed t user.id).map (earned svc rates)) 0))) := by
  obtain ⟨-, hreceived, hsent, hpayments⟩ : redeemed (t.world chain) user.id = [] ∧ _ :=
    quiet_world hquiet
  have hread₁ : reading up rates (t.world chain) (.receivedTransfers user.id) =
      (.ok [], t.world chain) := by
    rw [← hreceived]
    rfl
  have hread₂ : reading up rates (t.world chain) (.sentTransfers user.id) =
      (.ok [], t.world chain) := by
    rw [← hsent]
    rfl
  have hread₃ : reading up rates (t.world chain) (.completedPayments user.id) =
      (.ok [], t.world chain) := by
    rw [← hpayments]
    rfl
  unfold ledgerBalance
  rw [exec_bind_of_ok (exec_roleEarned hrole)]
  simp only [call, exec_bind, exec_perform, hread₁, hread₂, hread₃, exec_pure]
  have hrounded := total_rounded ((completed t user.id).map (earned svc rates)) fl_zero
  simp [sumNumbers, roundedSum, hrounded]

/-- What the rows of a request hold is not negative. -/
structure Nonnegative (r : HistoryRequest) : Prop where
  reward : ∀ x, r.householdRewardEarned = some x → 0 ≤ x
  weights : ∀ entry ∈ r.weights, 0 ≤ entry.2.val
  rates : ∀ entry ∈ r.rates, 0 ≤ entry.2.val

/-- A rate was agreed on, or the registry has the one that the history takes. -/
def SameRate (svc : Service) (rates : String → Double) (r : HistoryRequest) (mat : String) : Prop :=
  ((rateUnder r.rates mat).or (rateUnder r.rates (svc.toUpperCase mat))).isSome = true ∨
    (rates mat).val = defaultRate svc.toUpperCase mat

theorem rateUnder_nonneg {agreed : NumberRecord} (h : ∀ entry ∈ agreed, 0 ≤ entry.2.val)
    {mat : String} {rate : ℚ} (hrate : rateUnder agreed mat = some rate) : 0 ≤ rate := by
  obtain ⟨hmap, -⟩ := Option.filter_eq_some_iff.mp hrate
  obtain ⟨d, hd, rfl⟩ := Option.map_eq_some_iff.mp hmap
  obtain ⟨before, after, hsplit, -⟩ := List.lookup_eq_some_iff.mp hd
  refine h (mat, d) ?_
  rw [hsplit]
  simp

/-- The balance is the sum of what was earned, and what came in over all the pages is the sum of
what was earned with each amount rounded to two places. -/
def Agrees (svc : Service) (up : Bool) (rates : String → Double) (t : Tables) (chain : String → ℕ)
    (userId : String) (limit : ℕ) (direction : Option String) : Prop :=
  ∃ items amounts, allPages svc.toUpperCase t userId limit direction = .ok items ∧
    amounts = (completed t userId).map (earned svc rates) ∧
    balance svc up rates (t.world chain) userId = .ok (toFixed2 (max 0 (total amounts 0))) ∧
    incoming items = (amounts.map fun x => toFixed x 2).sum

def household : User := ⟨"household", "ana@example.org", .hogar, some "wallet"⟩

def kilos : Double := .ofNat 10 (by decide)

def rate : Double := .ofNat 2 (by decide)

/-- A completed request of ten kilos at an agreed rate, whose batch is on its way. -/
def request : HistoryRequest where
  householdId := "household"
  batchId := some "b1"
  status := .completed
  householdRewardEarned := some 0
  actualWeights := some [("PET", kilos)]
  itemsEstimated := none
  agreedRates := some [("PET", rate)]
  id := "r1"
  isDonation := false
  collector := none
  txHash := none
  updatedAt := 1

def batch (status : PinVerification.BatchStatus) : HistoryBatch where
  id := "b1"
  collectorId := "collector"
  status := status
  materialsActual := some [("PET", kilos)]
  destinationCenter := none
  txHash := none
  ipfsCid := none
  updatedAt := 3

def tables (status : PinVerification.BatchStatus) (requests : List HistoryRequest) : Tables :=
  ⟨[household], [], [batch status], requests, [], []⟩

end Livora.HistoryTotals
