import Livora.PinVerification

/-! What one call of `verifyPin` may do at each stage of it: with Redis it works
between acquiring and releasing the lock, it sets out to pay the household at most
once, and it then transfers until one transfer is confirmed or mints once. -/

namespace Livora.VerificationStages

open EffectPrograms EffectPrograms.Action RewardStrategies PinVerification

inductive HouseholdStage where
  /-- Nothing has been paid and nothing is being paid. -/
  | before
  /-- The call has looked up the collector's vault and is about to pay. -/
  | paying
  /-- The call pays the household no more. -/
  | settled
deriving DecidableEq

structure Stage where
  /-- The call has the lock. -/
  inside : Bool
  household : HouseholdStage
deriving DecidableEq

def Stage.first : Stage := ⟨false, .before⟩

/-- The calls that stages are about: the lock, the household's vault and its payments. -/
def Allowed (svc : Service) (s : Stage) : Op → Prop
  | .acquireLock => s = ⟨false, .before⟩
  | .findVault .household _ => s = ⟨svc.redis, .before⟩
  | .pay payment => payment.toHousehold = true → s = ⟨svc.redis, .paying⟩
  | .releaseLock => s.inside = true ∧ s.household ≠ .paying
  | _ => True

def next (s : Stage) (i : Op) (r : Except Failure (Reply i)) : Stage :=
  match i, r with
  | .acquireLock, .ok true => { s with inside := true }
  | .findVault .household _, .ok _ => { s with household := .paying }
  | .findVault .household _, .error _ => { s with household := .settled }
  | .pay (.transfer .household _ _ _), .ok _ => { s with household := .settled }
  | .pay (.mint _ _), _ => { s with household := .settled }
  | .releaseLock, _ => { s with inside := false }
  | _, _ => s

def protocol (svc : Service) : Protocol Stage Op fun i => Except Failure (Reply i) where
  Allowed := Allowed svc
  next := next

/-- The calls the stages are not about. -/
def Unrestricted : Op → Prop
  | .acquireLock => False
  | .findVault purpose _ => purpose = .treasury
  | .pay payment => payment.toHousehold = false
  | .releaseLock => False
  | _ => True

theorem allowed_of_unrestricted {svc : Service} (s : Stage) (i : Op) (h : Unrestricted i) :
    (protocol svc).Allowed s i ∧ ∀ r, (protocol svc).next s i r = s := by
  cases i with
  | acquireLock => cases h
  | releaseLock => cases h
  | findVault purpose userId =>
    obtain rfl : purpose = .treasury := h
    exact ⟨trivial, fun r => rfl⟩
  | pay payment =>
    cases payment with
    | mint target amount => cases h
    | transfer purpose account target amount =>
      cases purpose with
      | household => cases h
      | treasury => exact ⟨nofun, fun r => rfl⟩
  | _ => exact ⟨trivial, fun r => rfl⟩

/-! ### Which calls the parts make -/

/-- The calls of the checks: they read, and write the PIN counters. -/
def Checking : Op → Prop
  | .readRequest => True
  | .getAttempts => True
  | .getCachedPin => True
  | .getAttemptsAgain => True
  | .setAttempts _ => True
  | .deleteCachedPin => True
  | .deleteAttempts => True
  | _ => False

theorem unrestricted_of_checking (i : Op) (h : Checking i) : Unrestricted i := by
  cases i <;> trivial

section Calls

variable {svc : Service}

theorem only_collectorOwnershipStep (row : CollectionRequest) (collectorId : String) :
    Only Checking (collectorOwnershipStep row collectorId) := by
  unfold collectorOwnershipStep
  split
  · exact only_pure _
  · exact only_throw _

theorem only_stateReadinessStep (row : CollectionRequest) :
    Only Checking (stateReadinessStep row) := by
  unfold stateReadinessStep
  split
  · exact only_pure _
  · exact only_throw _

theorem only_bruteForceProtectionStep : Only Checking (bruteForceProtectionStep svc) := by
  unfold bruteForceProtectionStep
  split
  · refine only_bind (only_perform trivial) fun attempts => ?_
    split
    · exact only_throw _
    · exact only_pure _
  · exact only_pure _

theorem only_rejectPin : Only Checking (rejectPin svc) := by
  unfold rejectPin
  split
  · refine only_bind (only_perform trivial) fun rawAttempts => ?_
    refine only_bind (only_perform trivial) fun _ => ?_
    split
    · exact only_throw _
    · exact only_throw _
  · exact only_throw _

theorem only_clearCounters : Only Checking (clearCounters svc) := by
  unfold clearCounters
  split
  · exact only_bind (only_recover (only_perform trivial)) fun _ =>
      only_recover (only_perform trivial)
  · exact only_pure _

theorem only_getCachedPin : Only Checking (getCachedPin svc) := by
  unfold getCachedPin
  split
  · exact only_perform trivial
  · exact only_pure _

theorem only_pinMatchStep (row : CollectionRequest) (submittedPin : String) :
    Only Checking (pinMatchStep svc row submittedPin) := by
  refine only_bind only_getCachedPin fun cachedPin => ?_
  split
  · exact only_clearCounters
  · exact only_rejectPin

theorem only_weightValidationStep (actualWeights : NumberRecord) :
    Only Checking (weightValidationStep actualWeights) := by
  unfold weightValidationStep
  split
  · exact only_throw _
  · exact only_pure _

theorem only_pinVerificationChain (row : CollectionRequest) (collectorId : String)
    (dto : VerifyPinDto) : Only Checking (pinVerificationChain svc row collectorId dto) :=
  only_bind (only_collectorOwnershipStep row collectorId) fun _ =>
    only_bind (only_stateReadinessStep row) fun _ =>
      only_bind only_bruteForceProtectionStep fun _ =>
        only_bind (only_pinMatchStep row dto.pin) fun _ =>
          only_weightValidationStep dto.actualWeights

theorem only_openRequest (collectorId : String) (dto : VerifyPinDto) :
    Only Checking (openRequest svc collectorId dto) := by
  refine only_bind (only_perform trivial) fun found => ?_
  split
  · exact only_throw _
  · refine only_bind (only_pinVerificationChain _ collectorId dto) fun _ => ?_
    split
    · exact only_throw _
    · exact only_pure _

section Payments

variable {p : Op → Prop} {purpose : Purpose}

theorem only_findVault (hvault : ∀ userId, p (.findVault purpose userId)) (user : Option User) :
    Only p (findVault purpose user) := by
  cases user with
  | none => exact only_pure _
  | some user => exact only_perform (hvault user.id)

theorem only_collectorTransfer (hbalance : ∀ account, p (.getBalance purpose account))
    (hpay : ∀ account target amount, p (.pay (.transfer purpose account target amount)))
    (vault : Option String) (target : String) (amount : ℚ) :
    Only p (collectorTransfer svc purpose vault target amount) := by
  unfold collectorTransfer
  split
  · exact only_pure _
  refine only_recover ?_
  split
  · exact only_throw _
  refine only_bind (only_perform (hbalance _)) fun balance => ?_
  split
  · exact only_bind (only_perform (hpay _ _ _)) fun hash => only_pure _
  · exact only_pure _

theorem only_payTreasury (hvault : ∀ userId, p (.findVault .treasury userId))
    (hbalance : ∀ account, p (.getBalance .treasury account))
    (hpay : ∀ account target amount, p (.pay (.transfer .treasury account target amount)))
    (row : CollectionRequest) (treasuryAmount : ℚ) :
    Only p (payTreasury svc row treasuryAmount) := by
  refine only_bind (only_findVault hvault _) fun collectorVault => ?_
  split
  · exact only_bind (only_collectorTransfer hbalance hpay _ _ _) fun _ => only_pure _
  · exact only_pure _

end Payments

def Closing : Op → Prop
  | .findOpenBatch _ _ => True
  | .createOpenBatch _ _ => True
  | .completeRequest _ _ _ _ => True
  | .readCompleted => True
  | .purge _ => True
  | _ => False

theorem unrestricted_of_closing (i : Op) (h : Closing i) : Unrestricted i := by
  cases i with
  | findVault purpose userId => cases h
  | pay payment => cases h
  | acquireLock => cases h
  | releaseLock => cases h
  | _ => trivial

theorem only_attachBatch (row : CollectionRequest) (collectorId : String) :
    Only Closing (attachBatch row collectorId) := by
  unfold attachBatch
  split
  · exact only_pure _
  · refine only_bind (only_perform trivial) fun openBatch => ?_
    split
    · exact only_pure _
    · exact only_bind (only_perform trivial) fun batch => only_pure _
    · exact only_pure _

section Finishing

variable {p : Op → Prop}

theorem only_finish (hread : p .readCompleted) (hpurge : ∀ key, p (.purge key)) :
    Only p (finish svc) := by
  refine only_bind (only_perform hread) fun completed => ?_
  split
  · refine only_bind (only_recover (only_perform (hpurge _))) fun _ => ?_
    refine only_bind (only_recover (only_perform (hpurge _))) fun _ => ?_
    exact only_bind (only_recover (only_perform (hpurge _))) fun _ => only_pure _
  · exact only_pure _

theorem only_conclude (hread : p .readCompleted) (hpurge : ∀ key, p (.purge key)) (success : Bool) :
    Only p (conclude svc success) := by
  unfold conclude
  split
  · exact only_finish hread hpurge
  · exact only_throw _

end Finishing

theorem only_closing (row : CollectionRequest) (collectorId : String) (actualWeights : NumberRecord)
    (calculation : RewardCalculation) (txHash : Option String) :
    Only Closing (do
      let targetBatchId ← attachBatch row collectorId
      let success ← call
        (.completeRequest targetBatchId actualWeights calculation.householdAmount txHash)
      conclude svc success) :=
  only_bind (only_attachBatch row collectorId) fun _ =>
    only_bind (only_perform trivial) fun success => only_conclude trivial (fun _ => trivial) success

end Calls

/-! ### The stages of a call -/

/-- Where the payment of the household stands after the transfer from the collector. -/
def stageAfterTransfer : Except Failure (Option (Option String)) → HouseholdStage
  | .ok (some _) => .settled
  | .ok none => .paying
  | .error _ => .settled

section Stages

variable {svc : Service}

theorem obeys_collectorTransfer (vault : Option String) (target : String) (amount : ℚ) :
    Obeys (protocol svc) (fun t x => t = ⟨svc.redis, stageAfterTransfer x⟩) ⟨svc.redis, .paying⟩
      (collectorTransfer svc .household vault target amount) := by
  unfold collectorTransfer
  split
  · rfl
  rw [obeys_recover]
  split
  · rfl
  refine obeys_bind.mpr (obeys_perform.mpr ⟨trivial, fun balance => ?_, fun e => rfl⟩)
  dsimp only
  split
  · exact obeys_bind.mpr (obeys_perform.mpr ⟨fun _ => rfl, fun hash => rfl, fun e => rfl⟩)
  · rfl

theorem obeys_mint (wallet : String) (amount : ℚ) :
    Obeys (protocol svc) (fun t _ => t = ⟨svc.redis, .settled⟩) ⟨svc.redis, .paying⟩
      (recover (call (.pay (.mint wallet amount))) (none : Option String)) :=
  obeys_recover.mpr (obeys_perform.mpr ⟨fun _ => rfl, fun _ => rfl, fun _ => rfl⟩)

theorem obeys_creditHousehold (user : User) (wallet : String) (amount : ℚ) :
    Obeys (protocol svc) (fun t _ => t = ⟨svc.redis, .settled⟩) ⟨svc.redis, .before⟩
      (creditHousehold svc (some user) wallet amount) := by
  refine obeys_bind.mpr (obeys_perform.mpr ⟨rfl, fun vault => ?_, fun e => rfl⟩)
  refine obeys_bind.mpr ((obeys_collectorTransfer vault wallet amount).mono ?_ ?_)
  · rintro t transferred rfl
    cases transferred with
    | some hash => rfl
    | none => exact obeys_mint wallet amount
  · rintro t e rfl
    rfl

theorem obeys_payHousehold {row : CollectionRequest} {user : User}
    (hrow : row.collector = some user) (hogarAmount : ℚ) :
    Obeys (protocol svc) (fun t _ => t.inside = svc.redis ∧ t.household ≠ .paying)
      ⟨svc.redis, .before⟩ (payHousehold svc row hogarAmount) := by
  unfold payHousehold
  split
  · rw [hrow]
    refine (obeys_creditHousehold user _ hogarAmount).mono ?_ ?_
    all_goals
      rintro t _ rfl
      exact ⟨rfl, nofun⟩
  · exact ⟨rfl, nofun⟩

theorem obeys_then_unrestricted {α β : Type} {a : Verification α} {f : α → Verification β}
    {s : Stage} {Q : Stage → Prop} (ha : Obeys (protocol svc) (fun t _ => Q t) s a)
    (hf : ∀ x, Only Unrestricted (f x)) : Obeys (protocol svc) (fun t _ => Q t) s (a >>= f) := by
  refine obeys_bind.mpr (ha.mono (fun t x ht => ?_) fun t e ht => ht)
  exact ((hf x).obeys (allowed_of_unrestricted t)).mono (fun u _ hu => hu ▸ ht)
    fun u _ hu => hu ▸ ht

theorem obeys_settle {row : CollectionRequest} {user : User} (hrow : row.collector = some user)
    (collectorId : String) (actualWeights : NumberRecord) (calculation : RewardCalculation) :
    Obeys (protocol svc) (fun t _ => t.inside = svc.redis ∧ t.household ≠ .paying)
      ⟨svc.redis, .before⟩ (settle svc row collectorId actualWeights calculation) := by
  refine obeys_then_unrestricted (obeys_payHousehold hrow _) fun txHash => ?_
  refine only_bind (only_payTreasury (fun _ => rfl) (fun _ => trivial) (fun _ _ _ => rfl) row _)
    fun _ => ?_
  exact (only_closing row collectorId actualWeights calculation txHash).mono unrestricted_of_closing

theorem obeys_pinVerificationChain (row : CollectionRequest) (collectorId : String)
    (dto : VerifyPinDto) (s : Stage) :
    Obeys (protocol svc)
      (fun t x => t = s ∧ (x = .ok () → row.collectorId = some collectorId)) s
      (pinVerificationChain svc row collectorId dto) := by
  by_cases howner : row.collectorId = some collectorId
  · have hchecks : Only Unrestricted (pinVerificationChain svc row collectorId dto) :=
      (only_pinVerificationChain row collectorId dto).mono unrestricted_of_checking
    refine (hchecks.obeys (allowed_of_unrestricted s)).mono ?_ ?_
    · exact fun t x ht => ⟨ht, fun _ => howner⟩
    · exact fun t e ht => ⟨ht, fun _ => howner⟩
  · refine obeys_bind.mpr ?_
    rw [collectorOwnershipStep, if_neg howner]
    exact ⟨rfl, nofun⟩

/-- The row a call is admitted to has a collector. -/
def HasCollector : Except Failure CollectionRequest → Prop
  | .ok row => ∃ user, row.collector = some user
  | .error _ => True

theorem obeys_openRequest (collectorId : String) (dto : VerifyPinDto) (s : Stage) :
    Obeys (protocol svc)
    (fun t x => t = s ∧ HasCollector x) s (openRequest svc collectorId dto) := by
  refine obeys_bind.mpr (obeys_perform.mpr ⟨trivial, fun found => ?_, fun e => ⟨rfl, trivial⟩⟩)
  cases found with
  | none => exact ⟨rfl, trivial⟩
  | some row =>
    refine obeys_bind.mpr ((obeys_pinVerificationChain row collectorId dto s).mono ?_ ?_)
    · rintro t x ⟨rfl, howner⟩
      dsimp only
      split
      · exact ⟨rfl, trivial⟩
      · obtain ⟨user, huser, -⟩ := Option.map_eq_some_iff.mp (howner rfl)
        exact ⟨rfl, user, huser⟩
    · rintro t e ⟨rfl, -⟩
      exact ⟨rfl, trivial⟩

/-- Every call of `verifyPin` keeps to the stages. -/
theorem obeys_verifyPin (collectorId : String) (dto : VerifyPinDto) :
    Obeys (protocol svc) (fun _ _ => True) .first (verifyPin svc collectorId dto) := by
  have hbody : Obeys (protocol svc) (fun t _ => t.inside = svc.redis ∧ t.household ≠ .paying)
      ⟨svc.redis, .before⟩ (do
        let row ← openRequest svc collectorId dto
        settle svc row collectorId (weightsOf row dto) (rewardOf svc row dto)) := by
    refine obeys_bind.mpr ((obeys_openRequest collectorId dto _).mono ?_ ?_)
    · rintro t row ⟨rfl, user, huser⟩
      exact obeys_settle huser collectorId _ _
    · rintro t e ⟨rfl, -⟩
      exact ⟨rfl, nofun⟩
  have hrest : Obeys (protocol svc) (fun _ _ => True) ⟨svc.redis, .before⟩ (ensuring (do
      let row ← openRequest svc collectorId dto
      settle svc row collectorId (weightsOf row dto) (rewardOf svc row dto))
        (releaseLock svc)) := by
    refine obeys_ensuring.mpr (hbody.mono ?_ ?_)
    all_goals
      rintro t _ ⟨hinside, hhousehold⟩
      unfold releaseLock
      split
      · rename_i hredis
        exact obeys_perform.mpr ⟨⟨hinside.trans hredis, hhousehold⟩, fun _ => trivial,
          fun _ => trivial⟩
      · trivial
  refine obeys_bind.mpr ?_
  unfold acquireLock
  split
  · rename_i hredis
    rw [hredis] at hrest
    refine obeys_bind.mpr (obeys_perform.mpr ⟨rfl, fun acquired => ?_, fun _ => trivial⟩)
    cases acquired with
    | false => trivial
    | true => exact hrest
  · rename_i hredis
    rw [Bool.not_eq_true] at hredis
    rw [hredis] at hrest
    exact hrest

end Stages

end Livora.VerificationStages
