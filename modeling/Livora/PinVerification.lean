import Livora.EffectPrograms
import Livora.RewardStrategies

/-! Verification of the PIN of one collection request: the rows and services it
reads, every outside call it makes, and the source's sequence of them. A call of
an outside service is answered from the world, the caller choosing how the answer
arrives: a call may take effect and still be reported as failed, and a payment
may stay in flight after the caller has given up on it. -/

namespace Livora.PinVerification

open DoubleRounding RewardStrategies EffectPrograms EffectPrograms.Action

def truthy (text : Option String) : Option String := text.filter (· ≠ "")

/-- `first || second` -/
def firstText (first second : String) : String := if first = "" then second else first

/-! ### The rows and the services -/

inductive RequestStatus where
  | pending
  | auctionActive
  | auctionAssigned
  | accepted
  | enRoute
  | arrived
  | completed
  | cancelled
  | unattended
  | rejectedOnSite
deriving DecidableEq

namespace CollectionStateMachine

def canVerifyPin (status : RequestStatus) : Bool :=
  status == .accepted || status == .enRoute || status == .arrived

end CollectionStateMachine

structure User where
  id : String
  walletAddress : Option String
deriving DecidableEq

structure CollectionRequest where
  status : RequestStatus
  itemsEstimated : NumberRecord
  actualWeights : Option NumberRecord
  verificationPin : String
  household : User
  collector : Option User
  assignedCenterId : Option String
  agreedRates : NumberRecord
  batchId : Option String
  isDonation : Bool
  householdRewardEarned : ℚ
  txHash : Option String
deriving DecidableEq

def CollectionRequest.collectorId (row : CollectionRequest) : Option String :=
  row.collector.map User.id

inductive BatchStatus where
  | open
  | inTransit
  | processing
  | partiallyAccepted
  | received
  | consolidated
  | flaggedForReview
  | disputed
  | rerouted
deriving DecidableEq

structure Batch where
  id : String
  status : BatchStatus
  collectorId : String
  destinationCenterId : Option String
deriving DecidableEq

structure VerifyPinDto where
  pin : String
  actualWeights : NumberRecord

/-- The configuration; `unlock` decrypts a vault key and gives the account it signs for. -/
structure Service where
  redis : Bool
  treasuryWalletSetting : String
  workerAddress : String
  walletEncryptionKey : String
  encryptionKeySetting : String
  testEnvironment : Bool
  unlock : String → String → Option String
  toUpperCase : String → String

namespace Service

def treasuryWallet (svc : Service) : String := firstText svc.treasuryWalletSetting svc.workerAddress

def encryptionKey (svc : Service) : String :=
  firstText (firstText svc.walletEncryptionKey svc.encryptionKeySetting)
    (if svc.testEnvironment then "test_isolated_wallet_encryption_key_32c" else "")

end Service

inductive Failure where
  | notFound (message : String)
  | badRequest (message : String)
  | forbidden (message : String)
  | error (message : String)
  /-- Whatever a call outside threw. -/
  | outside
deriving DecidableEq

/-! ### The calls -/

inductive Purpose where
  | household
  | treasury
deriving DecidableEq

inductive Payment where
  | transfer (purpose : Purpose) (account target : String) (amount : ℚ)
  | mint (target : String) (amount : ℚ)
deriving DecidableEq

def Payment.toHousehold : Payment → Bool
  | .transfer purpose _ _ _ => purpose == .household
  | .mint _ _ => true

inductive Telemetry where
  | active
  | location
  | route
deriving DecidableEq

inductive Op where
  | acquireLock
  | readRequest
  | getAttempts
  | getCachedPin
  | getAttemptsAgain
  | setAttempts (count : ℕ)
  | deleteCachedPin
  | deleteAttempts
  | findVault (purpose : Purpose) (userId : String)
  | getBalance (purpose : Purpose) (account : String)
  | pay (payment : Payment)
  | findOpenBatch (collectorId centerId : String)
  | createOpenBatch (collectorId centerId : String)
  | completeRequest (targetBatchId : Option String) (actualWeights : NumberRecord)
      (householdReward : ℚ) (txHash : Option String)
  | readCompleted
  | purge (key : Telemetry)
  | releaseLock

abbrev Reply : Op → Type
  | .acquireLock => Bool
  | .readRequest => Option CollectionRequest
  | .getAttempts => Option ℕ
  | .getCachedPin => Option String
  | .getAttemptsAgain => Option ℕ
  | .setAttempts _ => Unit
  | .deleteCachedPin => Unit
  | .deleteAttempts => Unit
  | .findVault _ _ => Option String
  | .getBalance _ _ => Option ℚ
  | .pay _ => Option String
  | .findOpenBatch _ _ => Option Batch
  | .createOpenBatch _ _ => Batch
  | .completeRequest _ _ _ _ => Bool
  | .readCompleted => Option CollectionRequest
  | .purge _ => Unit
  | .releaseLock => Unit

abbrev Verification (α : Type) := Action Op Reply Failure α

def call (i : Op) : Verification (Reply i) := perform i

/-! ### The chain of checks -/

def collectorOwnershipStep (row : CollectionRequest) (collectorId : String) : Verification Unit :=
  if row.collectorId = some collectorId then pure ()
  else throw (.forbidden
    "Únicamente el recolector que aceptó la solicitud puede verificar el PIN")

def stateReadinessStep (row : CollectionRequest) : Verification Unit :=
  if CollectionStateMachine.canVerifyPin row.status then pure ()
  else throw (.badRequest
    "La solicitud debe estar en estado ACCEPTED, EN_ROUTE o ARRIVED para verificar el PIN")

def bruteForceProtectionStep (svc : Service) : Verification Unit :=
  if svc.redis then do
    let attempts ← call .getAttempts
    if 5 ≤ attempts.getD 0 then
      throw (.forbidden ("Demasiados intentos fallidos de PIN. Esta verificación ha sido " ++
        "bloqueada temporalmente por seguridad (15 minutos)."))
    else pure ()
  else pure ()

/-- The PIN in Redis, where there is one, replaces the one in the row. -/
def expectedPin (row : CollectionRequest) (cachedPin : Option String) : String :=
  (truthy cachedPin).getD row.verificationPin

def rejectPin (svc : Service) : Verification Unit :=
  if svc.redis then do
    let rawAttempts ← call .getAttemptsAgain
    let count : ℕ := rawAttempts.getD 0 + 1
    call (.setAttempts count)
    if 5 ≤ count then
      throw (.forbidden ("Límite de 5 intentos fallidos de PIN alcanzado. Verificación " ++
        "bloqueada temporalmente por 15 minutos."))
    else
      throw (.badRequest ("PIN de verificación incorrecto. Te quedan " ++ toString (5 - count) ++
        " intento(s) antes del bloqueo."))
  else throw (.badRequest "PIN de verificación incorrecto o expirado")

def clearCounters (svc : Service) : Verification Unit :=
  if svc.redis then do
    recover (call .deleteCachedPin) ()
    recover (call .deleteAttempts) ()
  else pure ()

def getCachedPin (svc : Service) : Verification (Option String) :=
  if svc.redis then call .getCachedPin else pure none

def pinMatchStep (svc : Service) (row : CollectionRequest) (submittedPin : String) :
    Verification Unit := do
  let cachedPin ← getCachedPin svc
  if expectedPin row cachedPin = submittedPin then clearCounters svc
  else rejectPin svc

/-- `w.toString()` has more than two characters after the point; from 10 ^ 21 on the text has an
exponent. -/
def moreThanTwoDecimals (w : Double) : Bool :=
  if 10 ^ 21 ≤ w.val then decide (10 ≤ w.toDecimal.significand)
  else decide (w.toDecimal.exponent < -2)

def weightFailure (entry : String × Double) : Option Failure :=
  if entry.2.val < 1 / 2 then
    some (.badRequest ("El peso real ajustado para " ++ entry.1 ++ " debe ser de al menos 0.5 kg"))
  else if moreThanTwoDecimals entry.2 then
    some (.badRequest ("El peso real de " ++ entry.1 ++ " no puede tener más de 2 decimales"))
  else none

def weightValidationStep (actualWeights : NumberRecord) : Verification Unit :=
  match actualWeights.findSome? weightFailure with
  | some failure => throw failure
  | none => pure ()

/-! ### The payments and the completion -/

def weightsOf (row : CollectionRequest) (dto : VerifyPinDto) : NumberRecord :=
  if dto.actualWeights.isEmpty then row.itemsEstimated else dto.actualWeights

def rewardOf (svc : Service) (row : CollectionRequest) (dto : VerifyPinDto) : RewardCalculation :=
  calculateReward svc.toUpperCase (weightsOf row dto) row.agreedRates row.isDonation

def householdDue (row : CollectionRequest) (hogarAmount : ℚ) : Option String :=
  if !row.isDonation && decide (0 < hogarAmount) then truthy row.household.walletAddress else none

def findVault (purpose : Purpose) : Option User → Verification (Option String)
  | some user => call (.findVault purpose user.id)
  | none => pure none

def usableKey (svc : Service) (vault : Option String) : Option String :=
  if svc.encryptionKey = "" then none else truthy vault

def covers (balance : Option ℚ) (amount : ℚ) : Bool := balance.any fun b => decide (amount ≤ b)

/-- A transfer signed by the collector, if its balance covers it; the hash once it is confirmed.
What it throws is only logged. -/
def collectorTransfer (svc : Service) (purpose : Purpose) (vault : Option String)
    (target : String) (amount : ℚ) : Verification (Option (Option String)) :=
  match usableKey svc vault with
  | none => pure none
  | some encryptedPrivateKey => recover (α := Option (Option String)) (do
      match svc.unlock encryptedPrivateKey svc.encryptionKey with
      | none => throw .outside
      | some account => do
        let balance ← call (.getBalance purpose account)
        if covers balance amount then do
          let hash ← call (.pay (.transfer purpose account target amount))
          pure (some hash)
        else pure none) none

/-- The transfer from the collector, or else the mint; the hash of the one that went through. -/
def creditHousehold (svc : Service) (collector : Option User) (wallet : String) (amount : ℚ) :
    Verification (Option String) := do
  let collectorVault ← findVault .household collector
  let transferred ← collectorTransfer svc .household collectorVault wallet amount
  match transferred with
  | some hash => pure hash
  | none => recover (call (.pay (.mint wallet amount))) none

def payHousehold (svc : Service) (row : CollectionRequest) (hogarAmount : ℚ) :
    Verification (Option String) :=
  match householdDue row hogarAmount with
  | some wallet => creditHousehold svc row.collector wallet hogarAmount
  | none => pure none

def treasuryDue (svc : Service) (row : CollectionRequest) (treasuryAmount : ℚ) : Bool :=
  svc.treasuryWallet ≠ "" && decide (0 < treasuryAmount) &&
    decide (some svc.treasuryWallet ≠ row.collector.bind User.walletAddress)

def payTreasury (svc : Service) (row : CollectionRequest) (treasuryAmount : ℚ) :
    Verification Unit := do
  let collectorVault ← findVault .treasury row.collector
  if treasuryDue svc row treasuryAmount then do
    let _ ← collectorTransfer svc .treasury collectorVault svc.treasuryWallet treasuryAmount
    pure ()
  else pure ()

def attachBatch (row : CollectionRequest) (collectorId : String) :
    Verification (Option String) :=
  match truthy row.batchId with
  | some batchId => pure (some batchId)
  | none => do
    let openBatch ← call (.findOpenBatch collectorId (row.assignedCenterId.getD ""))
    match openBatch, truthy row.assignedCenterId with
    | some batch, _ => pure (some batch.id)
    | none, some centerId => do
      let batch ← call (.createOpenBatch collectorId centerId)
      pure (some batch.id)
    | none, none => pure none

def finish (svc : Service) : Verification (Option CollectionRequest) := do
  let completed ← call .readCompleted
  if svc.redis then do
    recover (call (.purge .active)) ()
    recover (call (.purge .location)) ()
    recover (call (.purge .route)) ()
    pure completed
  else pure completed

/-- What follows the conditional UPDATE, which tells whether it found the row. -/
def conclude (svc : Service) (success : Bool) : Verification (Option CollectionRequest) :=
  if success then finish svc
  else throw (.badRequest
    "La solicitud ya fue procesada o no está en estado ACCEPTED, EN_ROUTE o ARRIVED")

def settle (svc : Service) (row : CollectionRequest) (collectorId : String)
    (actualWeights : NumberRecord) (calculation : RewardCalculation) :
    Verification (Option CollectionRequest) := do
  let txHash ← payHousehold svc row calculation.householdAmount
  payTreasury svc row calculation.treasuryAmount
  let targetBatchId ← attachBatch row collectorId
  let success ← call (.completeRequest targetBatchId actualWeights
    calculation.householdAmount txHash)
  conclude svc success

def pinVerificationChain (svc : Service) (row : CollectionRequest) (collectorId : String)
    (dto : VerifyPinDto) : Verification Unit := do
  collectorOwnershipStep row collectorId
  stateReadinessStep row
  bruteForceProtectionStep svc
  pinMatchStep svc row dto.pin
  weightValidationStep dto.actualWeights

/-- Everything before the first payment; the row the call works on. -/
def openRequest (svc : Service) (collectorId : String) (dto : VerifyPinDto) :
    Verification CollectionRequest := do
  match ← call .readRequest with
  | none => throw (.notFound "Solicitud de recolección no encontrada")
  | some row => do
    pinVerificationChain svc row collectorId dto
    if svc.encryptionKey = "" then
      throw (.error ("CRITICAL SECURITY ERROR: WALLET_ENCRYPTION_KEY es obligatoria para " ++
        "transferencias delegadas."))
    else pure row

def acquireLock (svc : Service) : Verification Unit :=
  if svc.redis then do
    let acquired ← call .acquireLock
    if acquired then pure ()
    else throw (.badRequest "Verificación en proceso, por favor espere")
  else pure ()

def releaseLock (svc : Service) : Verification Unit :=
  if svc.redis then call .releaseLock else pure ()

def verifyPin (svc : Service) (collectorId : String) (dto : VerifyPinDto) :
    Verification (Option CollectionRequest) := do
  acquireLock svc
  ensuring (do
    let row ← openRequest svc collectorId dto
    settle svc row collectorId (weightsOf row dto) (rewardOf svc row dto)) (releaseLock svc)

/-! ### The world -/

/-- How the answer of an outside call arrives: `lost` took effect and is reported as failed,
`pending` is reported as failed and may still take effect. -/
inductive Delivery where
  | done
  | lost
  | pending
  | refused
deriving DecidableEq

/-- The reply of a call, where it arrives. -/
def Delivery.answer {ε α : Type} (d : Delivery) (lost : ε) (a : α) : Except ε α :=
  if d = .done then .ok a else .error lost

theorem Delivery.answer_ok {ε α : Type} {d : Delivery} {lost : ε} {a b : α}
    (h : d.answer lost a = .ok b) :
    d = .done ∧ a = b := by
  unfold answer at h
  split at h
  · exact ⟨‹_›, Except.ok.inj h⟩
  · cases h

structure Outcome where
  delivery : Delivery
  balance : Option ℚ
  hash : Option String
  batchId : String

structure Submission where
  payment : Payment
  applied : Bool
deriving DecidableEq

/-- What the database and Redis hold about the request, apart from the lock. -/
structure Store where
  request : Option CollectionRequest
  attempts : Option ℕ
  cachedPin : Option String
  vaults : String → Option String
  batches : List Batch

/-- `findOpenBatch` -/
def Store.openBatch (s : Store) (collectorId centerId : String) : Option Batch :=
  s.batches.find? fun b =>
    b.collectorId == collectorId && b.destinationCenterId == some centerId && b.status == .open

structure World where
  store : Store
  lock : Bool
  chain : List Submission

/-- The columns of `collection_requests`. -/
def collectionRequestColumns : List String :=
  ["id", "status", "assignmentMode", "itemsEstimated", "actualWeights", "photoUrl", "description",
    "verificationPin", "address", "latitude", "longitude", "householdId", "collectorId",
    "assignedCenterId", "agreedRates", "escrowLocked", "batchId", "rating", "feedback",
    "enRouteAt", "arrivedAt", "cancellationFeePen", "noShowFeePen", "rejectionReason",
    "rejectionPhotos", "auctionExpiresAt", "isDonation", "householdRewardEarned", "txHash",
    "createdAt", "updatedAt"]

/-- The columns that the conditional UPDATE of `atomicCompleteRequest` sets. -/
def completionColumns : List String :=
  ["status", "actualWeights", "tokensRewarded", "blockchainTxHash", "batchId", "completedAt",
    "updatedAt"]

/-- The database knows every column the UPDATE sets. -/
def completionDefined : Bool := completionColumns.all fun column =>
  collectionRequestColumns.contains column

namespace Delivery

def applied : Delivery → Bool
  | .done => true
  | .lost => true
  | .pending => false
  | .refused => false

/-- The payment is applied or may still be. -/
def standing : Delivery → Bool
  | .done => true
  | .lost => true
  | .pending => true
  | .refused => false

def reply {α : Type} (d : Delivery) (a : α) : Except Failure α :=
  d.answer .outside a

end Delivery

namespace World

def submit (w : World) (payment : Payment) (d : Delivery) : World :=
  if d.standing then { w with chain := w.chain ++ [⟨payment, d.applied⟩] } else w

def update (w : World) (d : Delivery) (f : Store → Store) : World :=
  if d.applied then { w with store := f w.store } else w

def setLock (w : World) (d : Delivery) (lock : Bool) : World :=
  if d.applied then { w with lock := lock } else w

/-- `atomicCompleteRequest`: an UPDATE that names an unknown column fails whatever the row is. -/
def complete (w : World) (d : Delivery) (targetBatchId : Option String)
    (actualWeights : NumberRecord) : Except Failure Bool × World :=
  if completionDefined then
    match w.store.request with
    | some row =>
      if CollectionStateMachine.canVerifyPin row.status then
        (d.reply true, w.update d fun s =>
          { s with request := some { row with
              status := .completed
              actualWeights := some actualWeights
              batchId := targetBatchId } })
      else (d.reply false, w)
    | none => (d.reply false, w)
  else (.error .outside, w)

def serve (w : World) (i : Op) (o : Outcome) : Except Failure (Reply i) × World :=
  match i with
  | .acquireLock => (o.delivery.reply (!w.lock), w.setLock o.delivery true)
  | .readRequest => (o.delivery.reply w.store.request, w)
  | .getAttempts => (o.delivery.reply w.store.attempts, w)
  | .getCachedPin => (o.delivery.reply w.store.cachedPin, w)
  | .getAttemptsAgain => (o.delivery.reply w.store.attempts, w)
  | .setAttempts count =>
    (o.delivery.reply (), w.update o.delivery fun s => { s with attempts := some count })
  | .deleteCachedPin =>
    (o.delivery.reply (), w.update o.delivery fun s => { s with cachedPin := none })
  | .deleteAttempts =>
    (o.delivery.reply (), w.update o.delivery fun s => { s with attempts := none })
  | .findVault _ userId => (o.delivery.reply (w.store.vaults userId), w)
  | .getBalance _ _ => (o.delivery.reply o.balance, w)
  | .pay payment => (o.delivery.reply o.hash, w.submit payment o.delivery)
  | .findOpenBatch collectorId centerId =>
    (o.delivery.reply (w.store.openBatch collectorId centerId), w)
  | .createOpenBatch collectorId centerId =>
    let batch : Batch := ⟨o.batchId, .open, collectorId, some centerId⟩
    (o.delivery.reply batch, w.update o.delivery fun s =>
      { s with batches := s.batches ++ [batch] })
  | .completeRequest targetBatchId actualWeights _ _ =>
    w.complete o.delivery targetBatchId actualWeights
  | .readCompleted => (o.delivery.reply w.store.request, w)
  | .purge _ => (o.delivery.reply (), w)
  | .releaseLock => (o.delivery.reply (), w.setLock o.delivery false)

end World

theorem completion_undefined : completionDefined = false := by decide

/-! ### A request on which every call can be followed -/

def sampleService : Service where
  redis := true
  treasuryWalletSetting := ""
  workerAddress := "worker wallet"
  walletEncryptionKey := "key"
  encryptionKeySetting := ""
  testEnvironment := false
  unlock encryptedPrivateKey _ := if encryptedPrivateKey = "vault" then some "account" else none
  toUpperCase := String.toUpper

def sampleRequest : CollectionRequest where
  status := .arrived
  itemsEstimated := (Double.ofRat? 10).toList.map fun weight => ("PET", weight)
  actualWeights := none
  verificationPin := "4829"
  household := ⟨"household", some "household wallet"⟩
  collector := some ⟨"collector", some "account"⟩
  assignedCenterId := some "center"
  agreedRates := []
  batchId := none
  isDonation := false
  householdRewardEarned := 0
  txHash := none

def sampleStore (vault : Option String) : Store where
  request := some sampleRequest
  attempts := none
  cachedPin := none
  vaults userId := if userId = "collector" then vault else none
  batches := []

def answered : Outcome := ⟨.done, none, none, "batch"⟩

end Livora.PinVerification
