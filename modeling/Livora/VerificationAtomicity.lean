import Livora.VerificationStages

/-! One call of `verifyPin`, run alone from any world with any outcome of each
call outside. The UPDATE that completes the request always fails, so the call
never returns; it is all-or-nothing exactly when nothing it did before that
stays behind. -/

namespace Livora.VerificationAtomicity

open EffectPrograms EffectPrograms.Action RewardStrategies PinVerification VerificationStages

/-- The world answering each call as `oracle` says. -/
def answering (oracle : Op → Outcome) (w : World) (i : Op) : Except Failure (Reply i) × World :=
  w.serve i (oracle i)

def verification (svc : Service) (oracle : Op → Outcome) (w : World) (collectorId : String)
    (dto : VerifyPinDto) : Except Failure (Option CollectionRequest) × World :=
  exec (answering oracle) w (verifyPin svc collectorId dto)

/-! ### All or nothing -/

/-- No payment has been applied or left in flight and no row has changed, the PIN counters
apart. -/
def Untouched (w w' : World) : Prop :=
  w'.chain = w.chain ∧
    w'.store = { w.store with attempts := w'.store.attempts, cachedPin := w'.store.cachedPin }

def Payment.amount : Payment → ℚ
  | .transfer _ _ _ amount => amount
  | .mint _ amount => amount

def creditedAmount (w : World) : ℚ :=
  ((w.chain.filter fun s => s.payment.toHousehold && s.applied).map
    fun s => Payment.amount s.payment).sum

/-- The request is completed, its stored reward is what has been credited, and a household that
is due a reward has been credited with it. -/
def Completed (svc : Service) (dto : VerifyPinDto) (w w' : World) : Prop :=
  ∃ row row', w.store.request = some row ∧ w'.store.request = some row' ∧
    row'.status = .completed ∧
    row'.householdRewardEarned = creditedAmount w' - creditedAmount w ∧
    ∀ wallet, householdDue row (rewardOf svc row dto).householdAmount = some wallet →
      creditedAmount w' = creditedAmount w + (rewardOf svc row dto).householdAmount

def AllOrNothing (svc : Service) (dto : VerifyPinDto) (w : World)
    (result : Except Failure (Option CollectionRequest) × World) : Prop :=
  match result.1 with
  | .ok _ => Completed svc dto w result.2
  | .error _ => Untouched w result.2

/-! ### What a part leaves behind -/

/-- From `s` to `t` only payments and batches were added, and some were exactly if `p`. -/
def Leaves (s t : World) (p : Prop) : Prop :=
  ∃ chain batches, t.chain = s.chain ++ chain ∧
    t.store = { s.store with
      attempts := t.store.attempts
      cachedPin := t.store.cachedPin
      batches := s.store.batches ++ batches } ∧
    (chain = [] ∧ batches = [] ↔ ¬p)

theorem leaves_false {s t : World} : Leaves s t False ↔ Untouched s t := by
  unfold Leaves Untouched
  constructor
  · rintro ⟨chain, batches, hchain, hstore, hnothing⟩
    obtain ⟨rfl, rfl⟩ := hnothing.mpr not_false
    rw [List.append_nil] at hchain hstore
    exact ⟨hchain, hstore⟩
  · rintro ⟨hchain, hstore⟩
    exact ⟨[], [], by rw [List.append_nil, hchain], by rw [List.append_nil]; exact hstore,
      by simp⟩

theorem leaves_refl (s : World) : Leaves s s False := leaves_false.mpr ⟨rfl, rfl⟩

theorem Leaves.trans {s t u : World} {p q : Prop} (h : Leaves s t p) (h' : Leaves t u q) :
    Leaves s u (p ∨ q) := by
  obtain ⟨chain, batches, hchain, hstore, hp⟩ := h
  obtain ⟨chain', batches', hchain', hstore', hq⟩ := h'
  refine ⟨chain ++ chain', batches ++ batches', ?_, ?_, ?_⟩
  · rw [hchain', hchain, List.append_assoc]
  · rw [hstore', hstore, List.append_assoc]
  · simp only [List.append_eq_nil_iff, not_or, ← hp, ← hq]
    tauto

theorem Leaves.congr {s t : World} {p q : Prop} (h : Leaves s t p) (hpq : p ↔ q) : Leaves s t q :=
  propext hpq ▸ h

theorem untouched_iff {s t : World} {p : Prop} (h : Leaves s t p) : Untouched s t ↔ ¬p := by
  obtain ⟨chain, batches, hchain, hstore, hp⟩ := h
  rw [← hp]
  unfold Untouched
  constructor
  · rintro ⟨hchain', hstore'⟩
    have hbatches := congrArg Store.batches (hstore.symm.trans hstore')
    exact ⟨List.append_cancel_left (hchain.symm.trans (hchain'.trans (List.append_nil _).symm)),
      List.append_cancel_left (hbatches.trans (List.append_nil _).symm)⟩
  · rintro ⟨rfl, rfl⟩
    rw [List.append_nil] at hchain hstore
    exact ⟨hchain, hstore⟩

theorem leaves_submit (s : World) (payment : Payment) (d : Delivery) :
    Leaves s (s.submit payment d) (d.standing = true) := by
  unfold World.submit
  split
  · rename_i h
    exact ⟨[⟨payment, d.applied⟩], [], rfl, by simp, by simp [h]⟩
  · rename_i h
    exact (leaves_refl s).congr (by simp [h])

/-! ### When a part leaves something behind -/

section Conditions

variable (svc : Service) (oracle : Op → Outcome) (store : Store) (row : CollectionRequest)

def Succeeds (i : Op) : Prop := (oracle i).delivery = .done

/-- The lookup of the collector's vault answers. -/
def VaultAnswers (purpose : Purpose) : Prop :=
  ∀ user, row.collector = some user → Succeeds oracle (.findVault purpose user.id)

def collectorAccount : Option String :=
  (usableKey svc (row.collector.bind fun user => store.vaults user.id)).bind fun key =>
    svc.unlock key svc.encryptionKey

/-- The collector has an account and its balance, which is read, covers the amount. -/
def Funded (purpose : Purpose) (amount : ℚ) (account : String) : Prop :=
  collectorAccount svc store row = some account ∧ Succeeds oracle (.getBalance purpose account) ∧
    covers (oracle (.getBalance purpose account)).balance amount = true

/-- A transfer is submitted that is applied or may still be. -/
def TransferStands (purpose : Purpose) (target : String) (amount : ℚ) : Prop :=
  ∃ account, Funded svc oracle store row purpose amount account ∧
    (oracle (.pay (.transfer purpose account target amount))).delivery.standing = true

def TransferConfirmed (purpose : Purpose) (target : String) (amount : ℚ) : Prop :=
  ∃ account, Funded svc oracle store row purpose amount account ∧
    Succeeds oracle (.pay (.transfer purpose account target amount))

/-- The household's transfer stands, or the mint that replaces an unconfirmed one. -/
def CreditStands (target : String) (amount : ℚ) : Prop :=
  TransferStands svc oracle store row .household target amount ∨
    (¬TransferConfirmed svc oracle store row .household target amount ∧
      (oracle (.pay (.mint target amount))).delivery.standing = true)

def HouseholdPaid (amount : ℚ) : Prop :=
  ∃ target, householdDue row amount = some target ∧ VaultAnswers oracle row .household ∧
    CreditStands svc oracle store row target amount

/-- The call gets past the payment of the household. -/
def PassesHousehold (amount : ℚ) : Prop :=
  ∀ target, householdDue row amount = some target → VaultAnswers oracle row .household

def TreasuryPaid (amount : ℚ) : Prop :=
  VaultAnswers oracle row .treasury ∧ treasuryDue svc row amount = true ∧
    TransferStands svc oracle store row .treasury svc.treasuryWallet amount

/-- A batch is created because the collector has none open for the centre. -/
def BatchCreated (collectorId : String) : Prop :=
  truthy row.batchId = none ∧
    Succeeds oracle (.findOpenBatch collectorId (row.assignedCenterId.getD "")) ∧
    store.openBatch collectorId (row.assignedCenterId.getD "") = none ∧
    ∃ centerId, truthy row.assignedCenterId = some centerId ∧
      (oracle (.createOpenBatch collectorId centerId)).delivery.applied = true

/-- Something stays behind of the payments and the batch. -/
def LeavesTraces (collectorId : String) (calculation : RewardCalculation) : Prop :=
  HouseholdPaid svc oracle store row calculation.householdAmount ∨
    (PassesHousehold oracle row calculation.householdAmount ∧
      (TreasuryPaid svc oracle store row calculation.treasuryAmount ∨
        (VaultAnswers oracle row .treasury ∧ BatchCreated oracle store row collectorId)))

end Conditions

/-! ### Which calls are admitted -/

section Admission

variable {svc : Service} {oracle : Op → Outcome}

/-- The call gets past every check with the row `row`. -/
structure Admitted (svc : Service) (oracle : Op → Outcome) (store : Store) (collectorId : String)
    (dto : VerifyPinDto) (row : CollectionRequest) : Prop where
  found : Succeeds oracle .readRequest ∧ store.request = some row
  owner : row.collectorId = some collectorId
  ready : CollectionStateMachine.canVerifyPin row.status = true
  attempts : svc.redis = true → Succeeds oracle .getAttempts ∧ store.attempts.getD 0 < 5
  pin : (svc.redis = true → Succeeds oracle .getCachedPin) ∧
    expectedPin row (if svc.redis then store.cachedPin else none) = dto.pin
  weights : ∀ entry ∈ dto.actualWeights, weightFailure entry = none
  key : svc.encryptionKey ≠ ""

theorem reply_eq_ok {i : Op} {α : Type} {a b : α} :
    (oracle i).delivery.reply a = .ok b ↔ Succeeds oracle i ∧ a = b := by
  unfold Delivery.reply Delivery.answer Succeeds
  split <;> simp [*]

theorem readRequest_ok {s : World} {found : Option CollectionRequest} :
    (exec (answering oracle) s (call .readRequest)).1 = .ok found ↔
      Succeeds oracle .readRequest ∧ s.store.request = found := reply_eq_ok

theorem getAttempts_ok {s : World} {attempts : Option ℕ} :
    (exec (answering oracle) s (call .getAttempts)).1 = .ok attempts ↔
      Succeeds oracle .getAttempts ∧ s.store.attempts = attempts := reply_eq_ok

theorem collectorOwnershipStep_ok {s : World} {row : CollectionRequest} {collectorId : String} :
    (exec (answering oracle) s (collectorOwnershipStep row collectorId)).1 = .ok () ↔
      row.collectorId = some collectorId := by
  unfold collectorOwnershipStep
  split <;> simp [*]

theorem collectorOwnershipStep_world {s : World} {row : CollectionRequest} {collectorId : String} :
    (exec (answering oracle) s (collectorOwnershipStep row collectorId)).2 = s := by
  unfold collectorOwnershipStep
  split <;> rfl

theorem stateReadinessStep_ok {s : World} {row : CollectionRequest} :
    (exec (answering oracle) s (stateReadinessStep row)).1 = .ok () ↔
      CollectionStateMachine.canVerifyPin row.status = true := by
  unfold stateReadinessStep
  split <;> simp [*]

theorem stateReadinessStep_world {s : World} {row : CollectionRequest} :
    (exec (answering oracle) s (stateReadinessStep row)).2 = s := by
  unfold stateReadinessStep
  split <;> rfl

theorem bruteForceProtectionStep_ok {s : World} :
    (exec (answering oracle) s (bruteForceProtectionStep svc)).1 = .ok () ↔
      (svc.redis = true → Succeeds oracle .getAttempts ∧ s.store.attempts.getD 0 < 5) := by
  unfold bruteForceProtectionStep
  split
  · rename_i hredis
    rw [exec_bind_eq_ok]
    constructor
    · rintro ⟨attempts, hattempts, h⟩ -
      obtain ⟨hread, rfl⟩ := getAttempts_ok.mp hattempts
      split at h
      · cases h
      · exact ⟨hread, by omega⟩
    · intro h
      obtain ⟨hread, hlt⟩ := h hredis
      refine ⟨_, getAttempts_ok.mpr ⟨hread, rfl⟩, ?_⟩
      rw [if_neg (by omega)]
      rfl
  · rename_i hredis
    simp [hredis]

theorem bruteForceProtectionStep_world {s : World} :
    (exec (answering oracle) s (bruteForceProtectionStep svc)).2 = s := by
  unfold bruteForceProtectionStep
  split
  · have hread : (exec (answering oracle) s (call .getAttempts)).2 = s := rfl
    rw [exec_bind]
    rcases hexec : exec (answering oracle) s (call .getAttempts) with ⟨_ | attempts, t⟩
    · rwa [hexec] at hread
    · rw [hexec] at hread
      dsimp only
      split <;> exact hread
  · rfl

theorem rejectPin_not_ok {s : World} :
    (exec (answering oracle) s (rejectPin svc)).1 ≠ .ok () := by
  unfold rejectPin
  split
  · simp only [ne_eq, exec_bind_eq_ok]
    rintro ⟨rawAttempts, -, -, -, h⟩
    split at h <;> cases h
  · nofun

theorem clearCounters_ok {s : World} :
    (exec (answering oracle) s (clearCounters svc)).1 = .ok () := by
  unfold clearCounters
  split
  · rw [exec_bind_eq_ok]
    refine ⟨(), ?_, ?_⟩
    · rw [exec_recover]
      split <;> rfl
    · rw [exec_recover]
      split <;> rfl
  · rfl

theorem getCachedPin_ok {s : World} {cachedPin : Option String} :
    (exec (answering oracle) s (getCachedPin svc)).1 = .ok cachedPin ↔
      (svc.redis = true → Succeeds oracle .getCachedPin) ∧
        (if svc.redis then s.store.cachedPin else none) = cachedPin := by
  unfold getCachedPin
  split
  · rename_i hredis
    exact reply_eq_ok.trans (and_congr_left fun _ => ⟨fun h _ => h, fun h => h hredis⟩)
  · rename_i hredis
    simp [hredis]

theorem pinMatchStep_ok {s : World} {row : CollectionRequest} {submittedPin : String} :
    (exec (answering oracle) s (pinMatchStep svc row submittedPin)).1 = .ok () ↔
      (svc.redis = true → Succeeds oracle .getCachedPin) ∧
        expectedPin row (if svc.redis then s.store.cachedPin else none) = submittedPin := by
  unfold pinMatchStep
  simp only [exec_bind_eq_ok, getCachedPin_ok]
  constructor
  · rintro ⟨cachedPin, ⟨hread, rfl⟩, h⟩
    refine ⟨hread, ?_⟩
    by_contra hpin
    rw [if_neg hpin] at h
    exact rejectPin_not_ok h
  · rintro ⟨hread, hpin⟩
    refine ⟨_, ⟨hread, rfl⟩, ?_⟩
    rw [if_pos hpin]
    exact clearCounters_ok

theorem weightValidationStep_ok {s : World} {actualWeights : NumberRecord} :
    (exec (answering oracle) s (weightValidationStep actualWeights)).1 = .ok () ↔
      ∀ entry ∈ actualWeights, weightFailure entry = none := by
  unfold weightValidationStep
  rw [← List.findSome?_eq_none_iff]
  split <;> simp [*]

theorem pinVerificationChain_ok {s : World} {row : CollectionRequest} {collectorId : String}
    {dto : VerifyPinDto} :
    (exec (answering oracle) s (pinVerificationChain svc row collectorId dto)).1 = .ok () ↔
      row.collectorId = some collectorId ∧ CollectionStateMachine.canVerifyPin row.status = true ∧
        (svc.redis = true → Succeeds oracle .getAttempts ∧ s.store.attempts.getD 0 < 5) ∧
        ((svc.redis = true → Succeeds oracle .getCachedPin) ∧
          expectedPin row (if svc.redis then s.store.cachedPin else none) = dto.pin) ∧
        ∀ entry ∈ dto.actualWeights, weightFailure entry = none := by
  unfold pinVerificationChain
  simp only [exec_bind_eq_ok, collectorOwnershipStep_world, stateReadinessStep_world,
    bruteForceProtectionStep_world, weightValidationStep_ok]
  constructor
  · rintro ⟨⟨⟩, howner, ⟨⟩, hready, ⟨⟩, hattempts, ⟨⟩, hpin, hweights⟩
    exact ⟨collectorOwnershipStep_ok.mp howner, stateReadinessStep_ok.mp hready,
      bruteForceProtectionStep_ok.mp hattempts, pinMatchStep_ok.mp hpin, hweights⟩
  · rintro ⟨howner, hready, hattempts, hpin, hweights⟩
    exact ⟨(), collectorOwnershipStep_ok.mpr howner, (), stateReadinessStep_ok.mpr hready, (),
      bruteForceProtectionStep_ok.mpr hattempts, (), pinMatchStep_ok.mpr hpin, hweights⟩

theorem openRequest_ok {s : World} {collectorId : String} {dto : VerifyPinDto}
    {row : CollectionRequest} :
    (exec (answering oracle) s (openRequest svc collectorId dto)).1 = .ok row ↔
      Admitted svc oracle s.store collectorId dto row := by
  unfold openRequest
  rw [exec_bind_eq_ok]
  constructor
  · rintro ⟨found, hfind, h⟩
    obtain ⟨hread, rfl⟩ := readRequest_ok.mp hfind
    cases hfound : s.store.request with
    | none =>
      rw [hfound] at h
      cases h
    | some row' =>
      rw [hfound] at h
      obtain ⟨⟨⟩, hchain, h⟩ := exec_bind_eq_ok.mp h
      split at h
      · cases h
      · rename_i hkey
        obtain rfl := Except.ok.inj h
        obtain ⟨howner, hready, hattempts, hpin, hweights⟩ := pinVerificationChain_ok.mp hchain
        exact ⟨⟨hread, hfound⟩, howner, hready, hattempts, hpin, hweights, hkey⟩
  · rintro ⟨⟨hread, hfound⟩, howner, hready, hattempts, hpin, hweights, hkey⟩
    refine ⟨_, readRequest_ok.mpr ⟨hread, rfl⟩, ?_⟩
    rw [hfound]
    refine exec_bind_eq_ok.mpr ⟨(), pinVerificationChain_ok.mpr
      ⟨howner, hready, hattempts, hpin, hweights⟩, ?_⟩
    rw [if_neg hkey]
    rfl

end Admission

/-! ### What the parts do -/

section Parts

variable {svc : Service} {oracle : Op → Outcome} {w : World} {row : CollectionRequest}

theorem reply_of_succeeds {i : Op} {α : Type} {a : α} (h : Succeeds oracle i) :
    (oracle i).delivery.reply a = .ok a := if_pos h

theorem reply_of_not_succeeds {i : Op} {α : Type} {a : α} (h : ¬Succeeds oracle i) :
    (oracle i).delivery.reply a = .error .outside := if_neg h

theorem exec_findVault {purpose : Purpose} (h : VaultAnswers oracle row purpose) :
    exec (answering oracle) w (findVault purpose row.collector) =
      (.ok (row.collector.bind fun user => w.store.vaults user.id), w) := by
  cases hcollector : row.collector with
  | none => rfl
  | some user => exact Prod.ext (reply_of_succeeds (h user hcollector)) rfl

theorem exec_findVault_error {purpose : Purpose} (h : ¬VaultAnswers oracle row purpose) :
    exec (answering oracle) w (findVault purpose row.collector) = (.error .outside, w) := by
  unfold VaultAnswers at h
  push Not at h
  obtain ⟨user, hcollector, hfails⟩ := h
  rw [hcollector]
  exact Prod.ext (reply_of_not_succeeds hfails) rfl

section Transfer

variable {purpose : Purpose} {target : String} {amount : ℚ}

abbrev foundVault (w : World) (row : CollectionRequest) : Option String :=
  row.collector.bind fun user => w.store.vaults user.id

theorem exec_collectorTransfer {account : String}
    (h : Funded svc oracle w.store row purpose amount account) :
    exec (answering oracle) w (collectorTransfer svc purpose (foundVault w row) target amount) =
      (.ok (if (oracle (.pay (.transfer purpose account target amount))).delivery = .done
          then some (oracle (.pay (.transfer purpose account target amount))).hash else none),
        w.submit (.transfer purpose account target amount)
          (oracle (.pay (.transfer purpose account target amount))).delivery) := by
  obtain ⟨haccount, hbalance, hcovers⟩ := h
  obtain ⟨key, hkey, hunlock⟩ := Option.bind_eq_some_iff.mp haccount
  have hread : exec (answering oracle) w (call (.getBalance purpose account)) =
      (.ok (oracle (.getBalance purpose account)).balance, w) :=
    Prod.ext (reply_of_succeeds hbalance) rfl
  unfold collectorTransfer
  rw [hkey]
  dsimp only
  rw [exec_recover, hunlock]
  dsimp only
  rw [exec_bind_of_ok hread, if_pos hcovers, exec_bind]
  by_cases hdone : (oracle (.pay (.transfer purpose account target amount))).delivery = .done
  · have hpay : exec (answering oracle) w (call (.pay (.transfer purpose account target amount))) =
        (.ok (oracle (.pay (.transfer purpose account target amount))).hash,
          w.submit _ (oracle (.pay (.transfer purpose account target amount))).delivery) :=
      Prod.ext (reply_of_succeeds hdone) rfl
    rw [hpay, if_pos hdone]
    rfl
  · have hpay : exec (answering oracle) w (call (.pay (.transfer purpose account target amount))) =
        (.error .outside,
          w.submit _ (oracle (.pay (.transfer purpose account target amount))).delivery) :=
      Prod.ext (reply_of_not_succeeds hdone) rfl
    rw [hpay, if_neg hdone]

theorem exec_collectorTransfer_unfunded
    (h : ∀ account, ¬Funded svc oracle w.store row purpose amount account) :
    exec (answering oracle) w (collectorTransfer svc purpose (foundVault w row) target amount) =
      (.ok none, w) := by
  unfold collectorTransfer
  split
  · rfl
  rename_i key hkey
  rw [exec_recover]
  cases hunlock : svc.unlock key svc.encryptionKey with
  | none => rfl
  | some account =>
    have haccount : collectorAccount svc w.store row = some account :=
      Option.bind_eq_some_iff.mpr ⟨key, hkey, hunlock⟩
    dsimp only
    by_cases hbalance : Succeeds oracle (.getBalance purpose account)
    · have hread : exec (answering oracle) w (call (.getBalance purpose account)) =
          (.ok (oracle (.getBalance purpose account)).balance, w) :=
        Prod.ext (reply_of_succeeds hbalance) rfl
      have hcovers : ¬covers (oracle (.getBalance purpose account)).balance amount = true :=
        fun hc => h account ⟨haccount, hbalance, hc⟩
      rw [exec_bind_of_ok hread, if_neg hcovers]
      rfl
    · have hread : exec (answering oracle) w (call (.getBalance purpose account)) =
          (.error .outside, w) := Prod.ext (reply_of_not_succeeds hbalance) rfl
      rw [exec_bind_of_error hread]

theorem Funded.unique {account account' : String}
    (h : Funded svc oracle w.store row purpose amount account)
    (h' : Funded svc oracle w.store row purpose amount account') : account = account' :=
  Option.some.inj (h.1.symm.trans h'.1)

theorem transfer_spec (svc : Service) (oracle : Op → Outcome) (w : World)
    (row : CollectionRequest) (purpose : Purpose) (target : String) (amount : ℚ) :
    ∃ hash t, exec (answering oracle) w
        (collectorTransfer svc purpose (foundVault w row) target amount) = (.ok hash, t) ∧
      t.store = w.store ∧ Leaves w t (TransferStands svc oracle w.store row purpose target amount) ∧
      (hash = none ↔ ¬TransferConfirmed svc oracle w.store row purpose target amount) := by
  by_cases hfunded : ∃ account, Funded svc oracle w.store row purpose amount account
  · obtain ⟨account, hfunded⟩ := hfunded
    have hsame : ∀ p : String → Prop,
        (∃ a, Funded svc oracle w.store row purpose amount a ∧ p a) ↔ p account :=
      fun p => ⟨fun ⟨a, ha, hp⟩ => ha.unique hfunded ▸ hp, fun hp => ⟨account, hfunded, hp⟩⟩
    refine ⟨_, _, exec_collectorTransfer hfunded, ?_, ?_, ?_⟩
    · unfold World.submit
      split <;> rfl
    · exact (leaves_submit _ _ _).congr (hsame fun a =>
        (oracle (.pay (.transfer purpose a target amount))).delivery.standing = true).symm
    · unfold TransferConfirmed
      rw [hsame]
      unfold Succeeds
      split <;> simp [*]
  · push Not at hfunded
    refine ⟨none, w, exec_collectorTransfer_unfunded hfunded, rfl, ?_, ?_⟩
    · exact (leaves_refl w).congr ⟨False.elim, fun ⟨a, ha, _⟩ => hfunded a ha⟩
    · exact ⟨fun _ ⟨a, ha, _⟩ => hfunded a ha, fun _ => rfl⟩

end Transfer

theorem mint_spec (oracle : Op → Outcome) (w : World) (target : String) (amount : ℚ) :
    ∃ hash t, exec (answering oracle) w
        (recover (call (.pay (.mint target amount))) (none : Option String)) = (.ok hash, t) ∧
      t.store = w.store ∧
      Leaves w t ((oracle (.pay (.mint target amount))).delivery.standing = true) := by
  have hstore : (w.submit (.mint target amount)
      (oracle (.pay (.mint target amount))).delivery).store = w.store := by
    unfold World.submit
    split <;> rfl
  by_cases hdone : Succeeds oracle (.pay (.mint target amount))
  · have hpay : exec (answering oracle) w (call (.pay (.mint target amount))) =
        (.ok (oracle (.pay (.mint target amount))).hash,
          w.submit _ (oracle (.pay (.mint target amount))).delivery) :=
      Prod.ext (reply_of_succeeds hdone) rfl
    rw [exec_recover, hpay]
    exact ⟨_, _, rfl, hstore, leaves_submit _ _ _⟩
  · have hpay : exec (answering oracle) w (call (.pay (.mint target amount))) =
        (.error .outside, w.submit _ (oracle (.pay (.mint target amount))).delivery) :=
      Prod.ext (reply_of_not_succeeds hdone) rfl
    rw [exec_recover, hpay]
    exact ⟨_, _, rfl, hstore, leaves_submit _ _ _⟩

theorem creditHousehold_spec (hvault : VaultAnswers oracle row .household) (svc : Service)
    (w : World) (target : String) (amount : ℚ) :
    ∃ hash t, exec (answering oracle) w (creditHousehold svc row.collector target amount) =
        (.ok hash, t) ∧
      t.store = w.store ∧ Leaves w t (CreditStands svc oracle w.store row target amount) := by
  obtain ⟨hash, t, htransfer, hstore, hleaves, hnone⟩ :=
    transfer_spec svc oracle w row .household target amount
  unfold creditHousehold
  rw [exec_bind_of_ok (exec_findVault hvault), exec_bind_of_ok htransfer]
  cases hash with
  | some txHash =>
    have hconfirmed : TransferConfirmed svc oracle w.store row .household target amount := by
      by_contra h
      cases hnone.mpr h
    refine ⟨txHash, t, rfl, hstore, hleaves.congr ⟨.inl, fun h => ?_⟩⟩
    exact h.resolve_right fun hmint => hmint.1 hconfirmed
  | none =>
    obtain ⟨txHash, u, hmint, hstore', hleaves'⟩ := mint_spec oracle t target amount
    refine ⟨txHash, u, hmint, hstore'.trans hstore, (hleaves.trans hleaves').congr ?_⟩
    exact or_congr_right (iff_and_self.mpr fun _ => hnone.mp rfl)

theorem payHousehold_spec {amount : ℚ} (hpasses : PassesHousehold oracle row amount)
    (svc : Service) (w : World) :
    ∃ hash t, exec (answering oracle) w (payHousehold svc row amount) = (.ok hash, t) ∧
      t.store = w.store ∧ Leaves w t (HouseholdPaid svc oracle w.store row amount) := by
  unfold payHousehold
  cases hdue : householdDue row amount with
  | none =>
    refine ⟨none, w, rfl, rfl, (leaves_refl w).congr ⟨False.elim, ?_⟩⟩
    rintro ⟨target, htarget, -⟩
    rw [hdue] at htarget
    cases htarget
  | some target =>
    obtain ⟨hash, t, hcredit, hstore, hleaves⟩ :=
      creditHousehold_spec (hpasses target hdue) svc w target amount
    refine ⟨hash, t, hcredit, hstore, hleaves.congr ⟨fun h => ?_, ?_⟩⟩
    · exact ⟨target, hdue, hpasses target hdue, h⟩
    · rintro ⟨target', htarget', -, h⟩
      cases hdue.symm.trans htarget'
      exact h

theorem payHousehold_error {amount : ℚ} (h : ¬PassesHousehold oracle row amount) :
    exec (answering oracle) w (payHousehold svc row amount) = (.error .outside, w) := by
  unfold PassesHousehold at h
  push Not at h
  obtain ⟨target, hdue, hvault⟩ := h
  unfold payHousehold
  rw [hdue]
  exact exec_bind_of_error (exec_findVault_error hvault)

theorem payTreasury_spec (hvault : VaultAnswers oracle row .treasury) (svc : Service) (w : World)
    (amount : ℚ) :
    ∃ t, exec (answering oracle) w (payTreasury svc row amount) = (.ok (), t) ∧
      t.store = w.store ∧ Leaves w t (TreasuryPaid svc oracle w.store row amount) := by
  unfold payTreasury
  rw [exec_bind_of_ok (exec_findVault hvault)]
  split
  · rename_i hdue
    obtain ⟨hash, t, htransfer, hstore, hleaves, -⟩ :=
      transfer_spec svc oracle w row .treasury svc.treasuryWallet amount
    rw [exec_bind_of_ok htransfer]
    exact ⟨t, rfl, hstore, hleaves.congr ⟨fun h => ⟨hvault, hdue, h⟩, fun h => h.2.2⟩⟩
  · rename_i hdue
    exact ⟨w, rfl, rfl, (leaves_refl w).congr ⟨False.elim, fun h => hdue h.2.1⟩⟩

theorem payTreasury_error (h : ¬VaultAnswers oracle row .treasury) (amount : ℚ) :
    exec (answering oracle) w (payTreasury svc row amount) = (.error .outside, w) :=
  exec_bind_of_error (exec_findVault_error h)

theorem leaves_createBatch (w : World) (d : Delivery) (batch : Batch) :
    Leaves w (w.update d fun s => { s with batches := s.batches ++ [batch] })
      (d.applied = true) := by
  unfold World.update
  split
  · rename_i h
    exact ⟨[], [batch], (List.append_nil _).symm, rfl, by simp [h]⟩
  · rename_i h
    exact (leaves_refl w).congr (by simp [h])

theorem attachBatch_leaves (oracle : Op → Outcome) (w : World) (row : CollectionRequest)
    (collectorId : String) :
    Leaves w (exec (answering oracle) w (attachBatch row collectorId)).2
      (BatchCreated oracle w.store row collectorId) := by
  unfold attachBatch
  cases hbatch : truthy row.batchId with
  | some batchId =>
    refine (leaves_refl w).congr ⟨False.elim, fun h => ?_⟩
    rw [BatchCreated, hbatch] at h
    cases h.1
  | none =>
    by_cases hfind : Succeeds oracle (.findOpenBatch collectorId (row.assignedCenterId.getD ""))
    · have hread : exec (answering oracle) w
          (call (.findOpenBatch collectorId (row.assignedCenterId.getD ""))) =
          (.ok (w.store.openBatch collectorId (row.assignedCenterId.getD "")), w) :=
        Prod.ext (reply_of_succeeds hfind) rfl
      dsimp only
      rw [exec_bind_of_ok hread]
      cases hopen : w.store.openBatch collectorId (row.assignedCenterId.getD "") with
      | some batch =>
        refine (leaves_refl w).congr ⟨False.elim, fun h => ?_⟩
        cases hopen.symm.trans h.2.2.1
      | none =>
        cases hcenter : truthy row.assignedCenterId with
        | none =>
          refine (leaves_refl w).congr ⟨False.elim, ?_⟩
          rintro ⟨-, -, -, centerId, hcenterId, -⟩
          cases hcenter.symm.trans hcenterId
        | some centerId =>
          have hcreated : BatchCreated oracle w.store row collectorId ↔
              (oracle (.createOpenBatch collectorId centerId)).delivery.applied = true := by
            constructor
            · rintro ⟨-, -, -, centerId', hcenterId, h⟩
              cases hcenter.symm.trans hcenterId
              exact h
            · exact fun h => ⟨hbatch, hfind, hopen, centerId, hcenter, h⟩
          refine Leaves.congr ?_ hcreated.symm
          dsimp only
          rw [exec_bind_pure]
          exact leaves_createBatch w (oracle (.createOpenBatch collectorId centerId)).delivery _
    · have hread : exec (answering oracle) w
          (call (.findOpenBatch collectorId (row.assignedCenterId.getD ""))) =
          (.error .outside, w) := Prod.ext (reply_of_not_succeeds hfind) rfl
      dsimp only
      rw [exec_bind_of_error hread]
      exact (leaves_refl w).congr ⟨False.elim, fun h => hfind h.2.1⟩

/-- The UPDATE of the completion fails. -/
theorem exec_completeRequest (targetBatchId : Option String) (actualWeights : NumberRecord)
    (householdReward : ℚ) (txHash : Option String) :
    exec (answering oracle) w
        (call (.completeRequest targetBatchId actualWeights householdReward txHash)) =
      (.error .outside, w) := by
  change w.complete (oracle (.completeRequest targetBatchId actualWeights householdReward
    txHash)).delivery targetBatchId actualWeights = _
  rw [World.complete, completion_undefined]
  rfl

theorem exec_afterPayments (svc : Service) (oracle : Op → Outcome) (w : World)
    (row : CollectionRequest) (collectorId : String) (actualWeights : NumberRecord)
    (householdReward : ℚ) (txHash : Option String) :
    ∃ e t, exec (answering oracle) w (do
        let targetBatchId ← attachBatch row collectorId
        let success ← call (.completeRequest targetBatchId actualWeights householdReward txHash)
        conclude svc success) = (.error e, t) ∧
          Leaves w t (BatchCreated oracle w.store row collectorId) := by
  have hleaves := attachBatch_leaves oracle w row collectorId
  cases hattach : exec (answering oracle) w (attachBatch row collectorId) with
  | mk result t =>
    rw [hattach] at hleaves
    cases result with
    | error e => exact ⟨e, t, exec_bind_of_error hattach, hleaves⟩
    | ok targetBatchId =>
      refine ⟨.outside, t, ?_, hleaves⟩
      rw [exec_bind_of_ok hattach]
      exact exec_bind_of_error (exec_completeRequest _ _ _ _)

theorem settle_spec (svc : Service) (oracle : Op → Outcome) (w : World) (row : CollectionRequest)
    (collectorId : String) (actualWeights : NumberRecord) (calculation : RewardCalculation) :
    ∃ e t, exec (answering oracle) w (settle svc row collectorId actualWeights calculation) =
        (.error e, t) ∧
      Leaves w t (LeavesTraces svc oracle w.store row collectorId calculation) := by
  unfold settle
  by_cases hpasses : PassesHousehold oracle row calculation.householdAmount
  · obtain ⟨txHash, t, hhousehold, hstore, hleaves⟩ := payHousehold_spec hpasses svc w
    rw [exec_bind_of_ok hhousehold]
    by_cases hvault : VaultAnswers oracle row .treasury
    · obtain ⟨u, htreasury, hstore', hleaves'⟩ :=
        payTreasury_spec hvault svc t calculation.treasuryAmount
      rw [exec_bind_of_ok htreasury]
      obtain ⟨e, v, hrest, hbatch⟩ := exec_afterPayments svc oracle u row collectorId actualWeights
        calculation.householdAmount txHash
      refine ⟨e, v, hrest, ((hleaves.trans hleaves').trans hbatch).congr ?_⟩
      rw [hstore', hstore, LeavesTraces, or_assoc]
      exact or_congr_right ⟨fun h => ⟨hpasses, h.imp_right fun hb => ⟨hvault, hb⟩⟩,
        fun h => h.2.imp_right And.right⟩
    · refine ⟨.outside, t, exec_bind_of_error (payTreasury_error hvault _), hleaves.congr ?_⟩
      refine ⟨.inl, fun h => h.resolve_right ?_⟩
      rintro ⟨-, htreasury | hbatch⟩
      · exact hvault htreasury.1
      · exact hvault hbatch.1
  · refine ⟨.outside, w, exec_bind_of_error (payHousehold_error hpasses), ?_⟩
    refine (leaves_refl w).congr ⟨False.elim, ?_⟩
    rintro (⟨target, hdue, hvault, -⟩ | ⟨hpasses', -⟩)
    · exact hpasses fun _ _ => hvault
    · exact hpasses hpasses'

end Parts

/-! ### The whole call -/

section Whole

variable {svc : Service} {oracle : Op → Outcome} {w : World} {collectorId : String}
  {dto : VerifyPinDto}

theorem checking_leaves (s : World) (i : Op) (h : Checking i) :
    Leaves s (answering oracle s i).2 False := by
  refine leaves_false.mpr ?_
  unfold answering World.serve
  cases i with
  | readRequest => exact ⟨rfl, rfl⟩
  | getAttempts => exact ⟨rfl, rfl⟩
  | getCachedPin => exact ⟨rfl, rfl⟩
  | getAttemptsAgain => exact ⟨rfl, rfl⟩
  | setAttempts count => unfold World.update; split <;> exact ⟨rfl, rfl⟩
  | deleteCachedPin => unfold World.update; split <;> exact ⟨rfl, rfl⟩
  | deleteAttempts => unfold World.update; split <;> exact ⟨rfl, rfl⟩
  | _ => cases h

theorem openRequest_leaves (s : World) :
    Leaves s (exec (answering oracle) s (openRequest svc collectorId dto)).2 False :=
  (only_openRequest collectorId dto).frame (R := fun s t => Leaves s t False) leaves_refl
    (fun _ _ _ h h' => (h.trans h').congr (or_self_iff)) checking_leaves s

/-- The lock, where there is one, is taken. -/
def LockTaken (svc : Service) (oracle : Op → Outcome) (w : World) : Prop :=
  svc.redis = true → Succeeds oracle .acquireLock ∧ w.lock = false

theorem acquireLock_ok :
    (exec (answering oracle) w (acquireLock svc)).1 = .ok () ↔ LockTaken svc oracle w := by
  have hcall : ∀ acquired, (exec (answering oracle) w (call .acquireLock)).1 = .ok acquired ↔
      Succeeds oracle .acquireLock ∧ (!w.lock) = acquired := fun acquired => reply_eq_ok
  unfold acquireLock LockTaken
  split
  · rename_i hredis
    rw [exec_bind_eq_ok]
    constructor
    · rintro ⟨acquired, hacquired, h⟩ -
      obtain ⟨hdone, hlock⟩ := (hcall acquired).mp hacquired
      cases acquired with
      | false => cases h
      | true => exact ⟨hdone, by simpa using hlock⟩
    · intro h
      obtain ⟨hdone, hlock⟩ := h hredis
      exact ⟨true, (hcall true).mpr ⟨hdone, by rw [hlock]; rfl⟩, rfl⟩
  · rename_i hredis
    simp [hredis]

theorem setLock_untouched (s : World) (d : Delivery) (lock : Bool) :
    (s.setLock d lock).chain = s.chain ∧ (s.setLock d lock).store = s.store := by
  unfold World.setLock
  split <;> exact ⟨rfl, rfl⟩

theorem acquireLock_untouched (svc : Service) (oracle : Op → Outcome) (s : World) :
    (exec (answering oracle) s (acquireLock svc)).2.chain = s.chain ∧
      (exec (answering oracle) s (acquireLock svc)).2.store = s.store := by
  have hcall := setLock_untouched s (oracle .acquireLock).delivery true
  unfold acquireLock
  split
  · change (exec (answering oracle) s (call .acquireLock)).2.chain = _ ∧
      (exec (answering oracle) s (call .acquireLock)).2.store = _ at hcall
    rw [exec_bind]
    rcases hexec : exec (answering oracle) s (call .acquireLock) with ⟨_ | acquired, t⟩
    · rwa [hexec] at hcall
    · rw [hexec] at hcall
      dsimp only
      split <;> exact hcall
  · exact ⟨rfl, rfl⟩

theorem releaseLock_untouched (svc : Service) (oracle : Op → Outcome) (s : World) :
    (exec (answering oracle) s (releaseLock svc)).2.chain = s.chain ∧
      (exec (answering oracle) s (releaseLock svc)).2.store = s.store := by
  unfold releaseLock
  split
  · exact setLock_untouched s (oracle .releaseLock).delivery false
  · exact ⟨rfl, rfl⟩

theorem Leaves.of_eq {s t u : World} {p : Prop} (h : Leaves s t p) (hchain : u.chain = t.chain)
    (hstore : u.store = t.store) : Leaves s u p := by
  unfold Leaves
  rw [hchain, hstore]
  exact h

theorem body_spec (svc : Service) (oracle : Op → Outcome) (collectorId : String)
    (dto : VerifyPinDto) (s : World) :
    ∃ e t, exec (answering oracle) s (do
        let row ← openRequest svc collectorId dto
        settle svc row collectorId (weightsOf row dto) (rewardOf svc row dto)) = (.error e, t) ∧
      Leaves s t (∃ row, Admitted svc oracle s.store collectorId dto row ∧
        LeavesTraces svc oracle s.store row collectorId (rewardOf svc row dto)) := by
  have hleaves : Leaves s (exec (answering oracle) s (openRequest svc collectorId dto)).2 False :=
    openRequest_leaves s
  have hok : ∀ row, (exec (answering oracle) s (openRequest svc collectorId dto)).1 = .ok row ↔
      Admitted svc oracle s.store collectorId dto row := fun row => openRequest_ok
  rcases hrequest : exec (answering oracle) s (openRequest svc collectorId dto) with ⟨e | row, t⟩
    <;>
    rw [hrequest] at hleaves hok
  · refine ⟨e, t, exec_bind_of_error hrequest, hleaves.congr ⟨False.elim, ?_⟩⟩
    rintro ⟨row, hrow, -⟩
    cases (hok row).mpr hrow
  · obtain ⟨e, u, hsettle, hleaves'⟩ := settle_spec svc oracle t row collectorId
      (weightsOf row dto) (rewardOf svc row dto)
    refine ⟨e, u, ?_, (hleaves.trans hleaves').congr ?_⟩
    · rw [exec_bind_of_ok hrequest]
      exact hsettle
    have hstore := (leaves_false.mp hleaves).2
    rw [false_or]
    constructor
    · intro h
      rw [hstore] at h
      exact ⟨row, (hok row).mp rfl, h⟩
    · rintro ⟨row', hrow', h⟩
      obtain rfl := Except.ok.inj ((hok row').mpr hrow')
      rw [hstore]
      exact h

theorem verifyPin_spec (svc : Service) (oracle : Op → Outcome) (w : World) (collectorId : String)
    (dto : VerifyPinDto) :
    ∃ e t, verification svc oracle w collectorId dto = (.error e, t) ∧
      Leaves w t (LockTaken svc oracle w ∧
        ∃ row, Admitted svc oracle w.store collectorId dto row ∧
          LeavesTraces svc oracle w.store row collectorId (rewardOf svc row dto)) := by
  have hok : (exec (answering oracle) w (acquireLock svc)).1 = .ok () ↔ LockTaken svc oracle w :=
    acquireLock_ok
  obtain ⟨hchain, hstore⟩ := acquireLock_untouched svc oracle w
  unfold verification verifyPin
  rcases hacquire : exec (answering oracle) w (acquireLock svc) with ⟨e | ⟨⟩, s⟩ <;>
    rw [hacquire] at hok hchain hstore
  · refine ⟨e, s, exec_bind_of_error hacquire, ?_⟩
    refine ((leaves_refl w).of_eq hchain hstore).congr ⟨False.elim, fun h => ?_⟩
    cases hok.mpr h.1
  · obtain ⟨e, t, hbody, hleaves⟩ := body_spec svc oracle collectorId dto s
    obtain ⟨e', hwhole⟩ := exec_ensuring_error (releaseLock svc) hbody
    obtain ⟨hchain', hstore'⟩ := releaseLock_untouched svc oracle t
    refine ⟨e', _, (exec_bind_of_ok hacquire).trans hwhole, ?_⟩
    have htraces := (((leaves_refl w).of_eq hchain hstore).trans hleaves).of_eq hchain' hstore'
    refine htraces.congr ?_
    dsimp only at hstore
    rw [hstore, false_or]
    exact ⟨fun h => ⟨hok.mp rfl, h⟩, And.right⟩

/-- `verifyPin` is all-or-nothing exactly when it is not admitted, or when no payment and no batch
it makes stays behind. -/
theorem all_or_nothing_iff (svc : Service) (oracle : Op → Outcome) (w : World)
    (collectorId : String) (dto : VerifyPinDto) :
    AllOrNothing svc dto w (verification svc oracle w collectorId dto) ↔
      ∀ row, LockTaken svc oracle w → Admitted svc oracle w.store collectorId dto row →
        ¬LeavesTraces svc oracle w.store row collectorId (rewardOf svc row dto) := by
  obtain ⟨e, t, hthrows, hleaves⟩ := verifyPin_spec svc oracle w collectorId dto
  rw [hthrows]
  refine (untouched_iff hleaves).trans ?_
  constructor
  · exact fun h row hlock hrow htraces => h ⟨hlock, row, hrow, htraces⟩
  · rintro h ⟨hlock, row, hrow, htraces⟩
    exact h row hlock hrow htraces

/-- The right PIN on an arrived request: the household is paid by a mint and the call throws. -/
theorem arrivedRequest_not_atomic :
    ¬AllOrNothing sampleService ⟨"4829", []⟩ ⟨sampleStore none, false, []⟩
      (verification sampleService (fun _ => answered) ⟨sampleStore none, false, []⟩ "collector"
        ⟨"4829", []⟩) := by
  obtain ⟨e, t, hthrows, -⟩ := verifyPin_spec sampleService (fun _ => answered)
    ⟨sampleStore none, false, []⟩ "collector" ⟨"4829", []⟩
  have hminted : (verification sampleService (fun _ => answered) ⟨sampleStore none, false, []⟩
      "collector" ⟨"4829", []⟩).2.chain.length = 1 := by decide +kernel
  rw [hthrows] at hminted ⊢
  rintro ⟨hchain, -⟩
  rw [hchain] at hminted
  cases hminted

end Whole

end Livora.VerificationAtomicity
