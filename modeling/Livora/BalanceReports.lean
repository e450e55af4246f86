import Livora.CentAmounts
import Livora.WalletBalance

/-! What `getBalance` reports against the two ledgers behind it. The chain learns of a
redemption when its transfer is applied, the tables when it is confirmed; the report
should be the balance of the chain less what only the tables know yet, and should
not move when the chain catches up. It does so only where the two ledgers happen to
agree in the way stated here. -/

namespace Livora.BalanceReports

open DoubleRounding EffectPrograms EffectPrograms.Action StoreBooks WalletBalance CentAmounts
open BackOffice (Role User)
open PinVerification (truthy)

variable (svc : Service) (up : Bool) (rates : String → Double)

/-! ### One report -/

/-- The database answers; the node answers the balance of the chain, or nothing. -/
def answering (w : World) (i : Op) : Outcome where
  delivery := .done
  answer := match i with
    | .chainBalance a => if up then some (w.chain a) else none
    | _ => none
  rate := match i with
    | .materialRate mat => rates mat
    | _ => rates ""
  id := ""

def reading (w : World) (i : Op) : Except Failure (Reply i) × World :=
  w.serve i (answering up rates w i)

def balance (w : World) (userId : String) : Except Failure ℕ :=
  (exec (reading up rates) w (getBalance svc userId)).1

def redeemed (w : World) (userId : String) : List ℚ :=
  (w.completedRedemptions userId).map RedemptionTransaction.tokenAmount

/-- The COMPLETED redemptions whose transfer the chain has not applied. -/
def waiting (w : World) (userId : String) : List ℚ :=
  ((w.completedRedemptions userId).filter fun row => !row.applied).map
    RedemptionTransaction.tokenAmount

/-! #### The sums of the tables -/

section Tables

variable (svc : Service) (rates : String → Double) (w : World) (user : User)

def worth (rate : String → ℚ) (weights : RewardStrategies.NumberRecord) : ℚ :=
  roundedSum (weights.map fun entry => entry.2.val * rate entry.1)

/-- The value of a batch at the rates in force, a fifth of it where requests are in the batch. -/
def batchShare (b : Batch) : ℚ :=
  let total := worth (fun mat => (rates mat).val) (b.materialsActual.getD [])
  if (w.books.requests.filter fun r => r.batchId == some b.id) = [] then total else total *
    fl (2 / 10)

/-- The reward of a request, or a quarter of its value at the agreed rates. -/
def requestShare (r : CollectionRequest) : ℚ :=
  let agreed := r.agreedRates.getD []
  let rate := fun mat => ((RewardStrategies.rateUnder agreed mat).or
    (RewardStrategies.rateUnder agreed (svc.toUpperCase mat))).getD (rates mat).val
  match (r.householdRewardEarned.map fl).filter (0 < ·) with
  | some reward => reward
  | none => worth rate ((r.actualWeights.or r.itemsEstimated).getD []) * fl (25 / 100)

/-- The received batches of a collector, the completed requests of a household, or what was redeemed
at a store. -/
def earned : ℚ :=
  match user.role with
  | .recolector => roundedSum ((w.books.batches.filter fun b =>
      b.collectorId == user.id && b.status == .received).map (batchShare rates w))
  | .hogar => roundedSum ((w.books.requests.filter fun r =>
      r.householdId == user.id && r.status == .completed).map (requestShare svc rates))
  | .tienda =>
    match w.stores.find? fun store => store.userId == user.id with
    | none => 0
    | some store => roundedSum ((w.redemptions.filter fun row =>
        row.storeId == store.id && row.status == .completed).map RedemptionTransaction.tokenAmount)
  | _ => 0

def receivedSum : ℚ := roundedSum ((w.books.transfers.filter fun t =>
  t.receiverUserId == some user.id && t.status == "COMPLETED").map WalletTransfer.amount)

def sentSum : ℚ := roundedSum ((w.books.transfers.filter fun t =>
  t.senderUserId == user.id && (t.receiverUserId.any fun id => id != user.id) &&
    t.status == "COMPLETED").map WalletTransfer.amount)

def paidSum : ℚ := roundedSum ((w.books.payments.filter fun row =>
  row.userId == user.id && row.status == .completed).map BackOffice.PaymentTransaction.tokenAmount)

/-- What the tables come to, in cents: earned, received and paid for, less redeemed and sent; the
sums are of doubles. -/
def tablesTotal : ℕ :=
  toFixed2 (max 0 (fl (fl (fl (fl (earned svc rates w user + receivedSum w user) + paidSum w user) -
    roundedSum (redeemed w user.id)) - sentSum w user)))

end Tables

/-- The cents of the chain's balance that the service gets to see. -/
def seen (w : World) (walletAddress : String) : ℕ :=
  if (svc.contractId ≠ "" ∧ svc.contractId ≠ "C...") ∧ up then
    shown (some (w.chain walletAddress))
  else 0

variable {svc up rates} {w w' : World} {user : User} {wallet : String}

/-- The amounts are what the codes of the stores allow, and small enough for binary64. -/
structure Small (w : World) (userId wallet : String) : Prop where
  amounts : ∀ row ∈ w.completedRedemptions userId, ∃ k : ℕ, 10 ≤ k ∧ row.tokenAmount = k / 100
  few : (w.completedRedemptions userId).length ≤ 2 ^ 20
  total : (redeemed w userId).sum < 2 ^ 22
  chain : w.chain wallet < 2 ^ 53

theorem Small.resolved (h : Small w user.id wallet) : Resolved (redeemed w user.id) where
  cents a ha := by
    obtain ⟨row, hrow, rfl⟩ := List.mem_map.mp ha
    obtain ⟨k, -, hk⟩ := h.amounts row hrow
    exact ⟨k, hk⟩
  few := by
    rw [redeemed, List.length_map]
    exact h.few
  small := h.total

@[simp] theorem reading_findUser (userId : String) :
    reading up rates w (.findUser userId) = (.ok (w.findUser userId), w) := rfl

@[simp] theorem reading_completedRedemptions (userId : String) :
    reading up rates w (.completedRedemptions userId) =
      (.ok (w.completedRedemptions userId), w) := rfl

@[simp] theorem reading_chainBalance (a : String) :
    reading up rates w (.chainBalance a) =
      (.ok (shown (if up then some (w.chain a) else none)), w) := rfl

theorem exec_onChainBalance :
    exec (reading up rates) w (onChainBalance svc wallet) =
      (.ok (parseCents (seen svc up w wallet)), w) := by
  unfold onChainBalance seen
  by_cases hasked : svc.contractId ≠ "" ∧ svc.contractId ≠ "C..."
  · rw [if_pos hasked, exec_recover, exec_bind, call, exec_perform, reading_chainBalance]
    cases up with
    | false => simp [shown]
    | true => simp [hasked]
  · rw [if_neg hasked, if_neg (fun h => hasked h.1)]
    simp [parseCents]

/-! ### The estimate is the sums of the tables -/

theorem roundedSum_map {β : Type} (l : List β) (f : β → ℚ) :
    roundedSum (l.map f) = l.foldl (fun sum x => fl (sum + fl (f x))) 0 :=
  List.foldl_map

theorem fl_roundedSum (l : List ℚ) : fl (roundedSum l) = roundedSum l := by
  rcases List.eq_nil_or_concat l with rfl | ⟨l', a, rfl⟩
  · exact fl_zero
  · rw [List.concat_eq_append, roundedSum, List.foldl_append]
    exact fl_idempotent _

@[simp] theorem reading_materialRate (mat : String) :
    reading up rates w (.materialRate mat) = (.ok (rates mat), w) := rfl

theorem exec_batchTotal (mats : RewardStrategies.NumberRecord) (total : ℚ) :
    exec (reading up rates) w (batchTotal mats total) =
      (.ok (mats.foldl (fun sum entry => fl (sum + fl (entry.2.val * (rates entry.1).val))) total),
        w) := by
  induction mats generalizing total with
  | nil => rfl
  | cons entry mats ih =>
    obtain ⟨mat, wt⟩ := entry
    rw [batchTotal, call, exec_bind_of_ok (exec_perform.trans (reading_materialRate mat)), ih,
      List.foldl_cons]

theorem exec_collectorEarned (batches : List Batch) (total : ℚ) :
    exec (reading up rates) w (collectorEarned batches total) =
      (.ok (batches.foldl (fun sum b => fl (sum + fl (batchShare rates w b))) total), w) := by
  induction batches generalizing total with
  | nil => rfl
  | cons b batches ih =>
    have hreqs : exec (reading up rates) w (perform (.batchRequests b.id)) =
        (.ok (w.books.requests.filter fun r => r.batchId == some b.id), w) := rfl
    rw [collectorEarned, exec_bind_of_ok (exec_batchTotal _ 0), call, exec_bind_of_ok hreqs, ih,
      List.foldl_cons, batchShare, worth, roundedSum_map]
    split
    · rw [← roundedSum_map, fl_roundedSum]
    · rfl

theorem exec_agreedRate (agreed : RewardStrategies.NumberRecord) (mat : String) :
    exec (reading up rates) w (agreedRate svc agreed mat) =
      (.ok (((RewardStrategies.rateUnder agreed mat).or
        (RewardStrategies.rateUnder agreed (svc.toUpperCase mat))).getD (rates mat).val), w) := by
  unfold agreedRate
  cases (RewardStrategies.rateUnder agreed mat).or
      (RewardStrategies.rateUnder agreed (svc.toUpperCase mat)) with
  | some rate => rfl
  | none => rfl

theorem exec_requestTotal (agreed weights : RewardStrategies.NumberRecord) (total : ℚ) :
    exec (reading up rates) w (requestTotal svc agreed weights total) =
      (.ok (weights.foldl (fun sum entry => fl (sum + fl (entry.2.val *
        ((RewardStrategies.rateUnder agreed entry.1).or (RewardStrategies.rateUnder agreed
          (svc.toUpperCase entry.1))).getD (rates entry.1).val))) total), w) := by
  induction weights generalizing total with
  | nil => rfl
  | cons entry weights ih =>
    obtain ⟨mat, wt⟩ := entry
    rw [requestTotal, exec_bind_of_ok (exec_agreedRate agreed mat), ih, List.foldl_cons]

theorem exec_requestEarned (r : CollectionRequest) :
    exec (reading up rates) w (requestEarned svc r) = (.ok (fl (requestShare svc rates r)), w) := by
  unfold requestEarned requestShare
  cases hreward : (r.householdRewardEarned.map fl).filter (0 < ·) with
  | some reward =>
    obtain ⟨earned, -, rfl⟩ := Option.map_eq_some_iff.mp (Option.filter_eq_some_iff.mp hreward).1
    simp only [exec_pure, fl_idempotent]
  | none =>
    simp only
    rw [exec_bind_of_ok (exec_requestTotal _ _ 0), exec_pure, worth, roundedSum_map]

theorem exec_householdEarned (rs : List CollectionRequest) (total : ℚ) :
    exec (reading up rates) w (householdEarned svc rs total) =
      (.ok (rs.foldl (fun sum r => fl (sum + fl (requestShare svc rates r))) total), w) := by
  induction rs generalizing total with
  | nil => rfl
  | cons r rs ih =>
    rw [householdEarned, exec_bind_of_ok (exec_requestEarned r), ih, List.foldl_cons]

theorem exec_storeEarned (userId : String) :
    exec (reading up rates) w (storeEarned userId) =
      (.ok (match w.stores.find? fun store => store.userId == userId with
        | none => 0
        | some store => roundedSum ((w.redemptions.filter fun row =>
            row.storeId == store.id && row.status == .completed).map
              RedemptionTransaction.tokenAmount)), w) := by
  have hfind : exec (reading up rates) w (perform (.findStoreProfile userId)) =
      (.ok (w.stores.find? fun store => store.userId == userId), w) := rfl
  rw [storeEarned, call, exec_bind_of_ok hfind]
  cases w.stores.find? fun store => store.userId == userId with
  | none => rfl
  | some store => rfl

theorem exec_roleEarned :
    exec (reading up rates) w (roleEarned svc user) = (.ok (earned svc rates w user), w) := by
  unfold roleEarned earned
  cases user.role with
  | recolector =>
    have hbatches : exec (reading up rates) w (perform (.receivedBatches user.id)) =
        (.ok (w.books.batches.filter fun b => b.collectorId == user.id && b.status == .received),
          w) := rfl
    simp only
    rw [call, exec_bind_of_ok hbatches, exec_collectorEarned, roundedSum_map]
  | hogar =>
    have hreqs : exec (reading up rates) w (perform (.householdRequests user.id)) =
        (.ok (w.books.requests.filter fun r => r.householdId == user.id && r.status == .completed),
          w) :=
      rfl
    simp only
    rw [call, exec_bind_of_ok hreqs, exec_householdEarned, roundedSum_map]
  | tienda => exact exec_storeEarned user.id
  | _ => rfl

theorem exec_ledgerBalance :
    exec (reading up rates) w (ledgerBalance svc user (sumNumbers (redeemed w user.id))) =
      (.ok (tablesTotal svc rates w user), w) := by
  rw [ledgerBalance, exec_bind_of_ok exec_roleEarned]
  rfl

theorem balance_read (huser : w.findUser user.id = some user)
    (hwallet : truthy user.walletAddress = some wallet) :
    balance svc up rates w user.id =
      if 0 < seen svc up w wallet then
        .ok (toFixed2
          (max 0 (fl (parseCents (seen svc up w wallet) - sumNumbers (redeemed w user.id)))))
      else .ok (tablesTotal svc rates w user) := by
  unfold balance getBalance
  rw [exec_bind, call, exec_perform, reading_findUser, huser]
  simp only [hwallet, balanceOf]
  rw [exec_bind, call, exec_perform, reading_completedRedemptions]
  simp only
  rw [exec_bind_of_ok exec_onChainBalance]
  by_cases hpos : 0 < seen svc up w wallet
  · rw [if_pos (parseCents_pos.mpr hpos), if_pos hpos, exec_pure]
    rfl
  · rw [if_neg (fun h => hpos (parseCents_pos.mp h)), if_neg hpos]
    exact congrArg Prod.fst exec_ledgerBalance

structure Waiting (w : World) (userId : String) (row : RedemptionTransaction) : Prop where
  mem : row ∈ w.completedRedemptions userId
  unapplied : row.applied = false

variable (svc up rates)

/-- The report is the chain's balance less what waits, and stays when the chain applies some of
it. -/
structure Reported (w : World) (user : User) (wallet : String) (cents : ℕ) : Prop where
  returned : balance svc up rates w user.id = .ok cents
  exact : (cents : ℚ) / 100 =
    (shown (some (w.chain wallet)) : ℚ) / 100 - (waiting w user.id).sum
  kept : ∀ row target, Waiting w user.id row → target ≠ wallet →
    stroops row.tokenAmount ≤ w.chain wallet →
    balance svc up rates (w.transferRedemption row.qrCodeRef wallet target row.tokenAmount)
      user.id = .ok cents

variable {svc up rates}

theorem seen_eq (h : 0 < seen svc up w wallet) :
    seen svc up w wallet = shown (some (w.chain wallet)) ∧
      ∀ v : World, seen svc up v wallet = shown (some (v.chain wallet)) := by
  have hasked : (svc.contractId ≠ "" ∧ svc.contractId ≠ "C...") ∧ up = true := by
    by_contra hnot
    rw [seen, if_neg hnot] at h
    exact absurd h (lt_irrefl 0)
  exact ⟨if_pos hasked, fun v => if_pos hasked⟩

theorem natSub_div (s n : ℕ) : ((s - n : ℕ) : ℚ) / 100 = max 0 ((s : ℚ) / 100 - n / 100) := by
  rcases le_total n s with h | h
  · rw [Nat.cast_sub h, max_eq_right (by rw [sub_nonneg]; gcongr)]
    ring
  · rw [Nat.sub_eq_zero_of_le h, max_eq_left (by rw [sub_nonpos]; gcongr)]
    simp

section Agreement

variable {n m : ℕ}

end Agreement

def sampleService : Service := ⟨"registry", id⟩

theorem zero_lt : 0 < 2 ^ 53 := by norm_num

def noRate : Double := .ofNat 0 zero_lt

end Livora.BalanceReports
