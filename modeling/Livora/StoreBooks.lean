import Livora.BackOffice

/-! The tables, the locks and the chain behind the wallets of households and stores,
and every outside call their services make. A transaction of the database keeps its
write to itself until it commits; a row it has locked is refused to the others, which
stands for their waiting until they give up. The balance of a wallet is asked from
a node that may answer anything, or nothing. -/

namespace Livora.StoreBooks

open DoubleRounding EffectPrograms EffectPrograms.Action RewardStrategies
open BackOffice (Role User PaymentTransaction JobData tokenColumn)
open PinVerification (Delivery truthy BatchStatus RequestStatus)

/-! ### The tables -/

inductive RedemptionStatus where
  | pending
  | completed
  | cancelled
  | expired
  | refunded
deriving DecidableEq

def RedemptionStatus.name : RedemptionStatus → String
  | .pending => "PENDING"
  | .completed => "COMPLETED"
  | .cancelled => "CANCELLED"
  | .expired => "EXPIRED"
  | .refunded => "REFUNDED"

inductive SettlementStatus where
  | pending
  | approvedPendingPayment
  | paid
  | rejected
deriving DecidableEq

def SettlementStatus.name : SettlementStatus → String
  | .pending => "PENDING"
  | .approvedPendingPayment => "APPROVED_PENDING_PAYMENT"
  | .paid => "PAID"
  | .rejected => "REJECTED"

structure StoreProfile where
  id : String
  userId : String
  bankAccount : String
deriving DecidableEq

structure RedemptionTransaction where
  storeId : String
  userId : Option String
  tokenAmount : ℚ
  qrCodeRef : String
  status : RedemptionStatus
  /-- The chain has moved the tokens; kept for statements only. -/
  applied : Bool
deriving DecidableEq

structure SettlementRequest where
  id : String
  storeId : String
  tokenAmount : ℚ
  fiatAmount : ℚ
  status : SettlementStatus
  receiptUrl : Option String
  /-- The chain has moved the tokens; kept for statements only. -/
  applied : Bool
deriving DecidableEq

structure Batch where
  id : String
  collectorId : String
  status : BatchStatus
  materialsActual : Option NumberRecord
deriving DecidableEq

structure CollectionRequest where
  householdId : String
  batchId : Option String
  status : RequestStatus
  householdRewardEarned : Option ℚ
  actualWeights : Option NumberRecord
  itemsEstimated : Option NumberRecord
  agreedRates : Option NumberRecord
deriving DecidableEq

structure WalletTransfer where
  senderUserId : String
  receiverUserId : Option String
  amount : ℚ
  status : String
deriving DecidableEq

structure Books where
  batches : List Batch
  requests : List CollectionRequest
  transfers : List WalletTransfer
  payments : List PaymentTransaction
deriving DecidableEq

structure FoundRedemption where
  row : RedemptionTransaction
  store : StoreProfile
  storeUser : User
deriving DecidableEq

structure FoundSettlement where
  row : SettlementRequest
  store : StoreProfile
  storeUser : User
deriving DecidableEq

inductive Failure where
  | notFound (message : String)
  | badRequest (message : String)
  | forbidden (message : String)
  | conflict (message : String)
  /-- Whatever a call outside threw. -/
  | outside
deriving DecidableEq

/-! ### Numbers -/

/-- `x.toFixed(2)` of a number that is not negative, as the cents its text shows. -/
def toFixed2 (x : ℚ) : ℕ := (round (x * 100)).toNat

/-- `parseFloat` of a text with two decimals. -/
def parseCents (cents : ℕ) : ℚ := fl (cents / 100)

/-- `rows.reduce((sum, r) => sum + Number(r), 0)` -/
def sumNumbers (amounts : List ℚ) : ℚ := roundedSum amounts

/-- What a `Decimal(14, 4)` column takes from a number; none where it does not fit. -/
def storedAmount (x : ℚ) : Option ℚ :=
  (Double.ofRat? x).bind fun d => if |tokenColumn d| < 10 ^ 10 then some (tokenColumn d) else none

/-- `Math.round(tokenAmount * 10000000)` -/
def stroops (tokenAmount : ℚ) : ℕ := (round (fl (fl tokenAmount * 10 ^ 7))).toNat

def centsText (cents : ℕ) : String :=
  toString (cents / 100) ++ "." ++ (if cents % 100 < 10 then "0" else "") ++ toString (cents % 100)

def decimalText (d : Decimal) : String :=
  let digits := (toString d.significand.toNat).toList
  let places := (-d.exponent).toNat
  let padded := List.replicate (places + 1 - digits.length) '0' ++ digits ++
    List.replicate d.exponent.toNat '0'
  let whole := padded.take (padded.length - places)
  if places = 0 then String.ofList whole
  else String.ofList whole ++ "." ++ String.ofList (padded.drop (padded.length - places))

def numberText (x : ℚ) : String :=
  ((Double.ofRat? x).map fun d => decimalText d.toDecimal).getD "Infinity"

/-- The text of a balance that a node answers in stroops; an error is shown as zero. -/
def shown (answer : Option ℕ) : ℕ :=
  match answer with
  | some balanceStroops => toFixed2 (fl (fl balanceStroops / 10 ^ 7))
  | none => 0

/-! ### The calls -/

inductive Op where
  | findUser (userId : String)
  | completedRedemptions (userId : String)
  | chainBalance (walletAddress : String)
  | receivedBatches (collectorId : String)
  | batchRequests (batchId : String)
  | materialRate (material : String)
  | householdRequests (householdId : String)
  | findStoreProfile (userId : String)
  | findOwnProfile (userId : String)
  | createStoreProfile (userId : String)
  | storeRedemptions (storeId : String)
  | receivedTransfers (userId : String)
  | sentTransfers (userId : String)
  | completedPayments (userId : String)
  | createRedemption (storeId : String) (tokenAmount : ℚ)
  | findRedemption (qrCodeRef : String)
  | begin
  | lockUser (tx : ℕ) (userId : String)
  | lockRedemption (tx : ℕ) (qrCodeRef : String)
  | completeRedemption (tx : ℕ) (qrCodeRef userId : String) (amount : ℚ)
  | debitAccount (tx : ℕ) (userId : String) (amount : ℚ)
  | readRedemption (tx : ℕ) (qrCodeRef : String)
  | commit (tx : ℕ)
  | rollback (tx : ℕ)
  | setBankAccount (storeId bankAccount : String)
  | pendingSettlements (storeId : String)
  | createSettlement (storeId : String) (tokenAmount : ℚ)
  | findSettlement (settlementId : String)
  | updateSettlement (settlementId : String) (status : SettlementStatus)
      (receiptUrl : Option String)
  | emit (userId event : String)
  | add (data : JobData) (attempts : ℕ)

abbrev Reply : Op → Type
  | .findUser _ => Option User
  | .completedRedemptions _ => List RedemptionTransaction
  | .chainBalance _ => ℕ
  | .receivedBatches _ => List Batch
  | .batchRequests _ => List CollectionRequest
  | .materialRate _ => Double
  | .householdRequests _ => List CollectionRequest
  | .findStoreProfile _ => Option StoreProfile
  | .findOwnProfile _ => Option StoreProfile
  | .createStoreProfile _ => StoreProfile
  | .storeRedemptions _ => List RedemptionTransaction
  | .receivedTransfers _ => List WalletTransfer
  | .sentTransfers _ => List WalletTransfer
  | .completedPayments _ => List PaymentTransaction
  | .createRedemption _ _ => RedemptionTransaction
  | .findRedemption _ => Option FoundRedemption
  | .begin => ℕ
  | .lockUser _ _ => Option User
  | .lockRedemption _ _ => Bool
  | .completeRedemption _ _ _ _ => Bool
  | .debitAccount _ _ _ => Unit
  | .readRedemption _ _ => Option RedemptionTransaction
  | .commit _ => Unit
  | .rollback _ => Unit
  | .setBankAccount _ _ => Unit
  | .pendingSettlements _ => List SettlementRequest
  | .createSettlement _ _ => SettlementRequest
  | .findSettlement _ => Option FoundSettlement
  | .updateSettlement _ _ _ => SettlementRequest
  | .emit _ _ => Unit
  | .add _ _ => Unit

abbrev Work (α : Type) := Action Op Reply Failure α

def call (i : Op) : Work (Reply i) := perform i

/-! ### The world -/

/-- The completion a transaction of the database has written and not committed. -/
structure Completion where
  qrCodeRef : String
  userId : String
  amount : ℚ
deriving DecidableEq

structure World where
  users : List User
  stores : List StoreProfile
  redemptions : List RedemptionTransaction
  settlements : List SettlementRequest
  books : Books
  queue : List JobData
  /-- The balance of a wallet on the chain, and all it was ever credited, in stroops. -/
  chain : String → ℕ
  received : String → ℕ
  /-- The open transactions of the database, with what they have written. -/
  transactions : ℕ → Option (Option Completion)
  nextTx : ℕ
  userLock : String → Option ℕ
  rowLock : String → Option ℕ

/-- How the answer of a call arrives, and what the outside puts into it. -/
structure Outcome where
  delivery : Delivery
  answer : Option ℕ
  rate : Double
  id : String

namespace World

def update (w : World) (d : Delivery) (f : World → World) : World := if d.applied then f w else w

theorem update_elim {p : World → Prop} {w : World} {d : Delivery} {f : World → World} (hw : p w)
    (hf : p (f w)) : p (w.update d f) := by
  unfold update
  split
  · exact hf
  · exact hw

/-! #### Reads -/

def findUser (w : World) (userId : String) : Option User :=
  w.users.find? fun user => user.id == userId

def findRedemption (w : World) (qrCodeRef : String) : Option RedemptionTransaction :=
  w.redemptions.find? fun row => row.qrCodeRef == qrCodeRef

def findSettlement (w : World) (settlementId : String) : Option SettlementRequest :=
  w.settlements.find? fun row => row.id == settlementId

def storeOf (w : World) (storeId : String) : Option (StoreProfile × User) := do
  let store ← w.stores.find? fun store => store.id == storeId
  let user ← w.findUser store.userId
  some (store, user)

def completedRedemptions (w : World) (userId : String) : List RedemptionTransaction :=
  w.redemptions.filter fun row => row.userId == some userId && row.status == .completed

def pendingSettlements (w : World) (storeId : String) : List SettlementRequest :=
  w.settlements.filter fun row => row.storeId == storeId && row.status == .pending

/-! #### Transactions of the database -/

def isOpen (w : World) (tx : ℕ) : Bool := (w.transactions tx).isSome

def free (lock : Option ℕ) (tx : ℕ) : Bool := lock == none || lock == some tx

/-- The row waits for its confirmation and the transaction may lock it. -/
def confirmable (w : World) (tx : ℕ) (qrCodeRef : String) : Bool :=
  w.redemptions.any fun row =>
    row.qrCodeRef == qrCodeRef && row.status == .pending && free (w.rowLock qrCodeRef) tx

def begin (w : World) : World :=
  { w with
    transactions := Function.update w.transactions w.nextTx (some none)
    nextTx := w.nextTx + 1 }

def close (w : World) (tx : ℕ) : World :=
  { w with
    transactions := Function.update w.transactions tx none
    userLock := fun id => if w.userLock id = some tx then none else w.userLock id
    rowLock := fun qr => if w.rowLock qr = some tx then none else w.rowLock qr }

def completedBy (c : Completion) (row : RedemptionTransaction) : RedemptionTransaction :=
  if row.qrCodeRef = c.qrCodeRef then
    { row with status := .completed, userId := some c.userId, tokenAmount := c.amount }
  else row

def publish (w : World) (tx : ℕ) : World :=
  match w.transactions tx with
  | some (some c) => { w with redemptions := w.redemptions.map (completedBy c) }
  | _ => w

def rowWithin (w : World) (tx : ℕ) (qrCodeRef : String) : Option RedemptionTransaction :=
  (w.publish tx).findRedemption qrCodeRef

/-! #### Writes -/

def setStatus (settlementId : String) (status : SettlementStatus) (receiptUrl : Option String)
    (row : SettlementRequest) : SettlementRequest :=
  if row.id = settlementId then
    { row with status := status, receiptUrl := receiptUrl.or row.receiptUrl }
  else row

def createRedemption (w : World) (qrCodeRef storeId : String) (tokenAmount : ℚ) : World :=
  match storedAmount tokenAmount with
  | some stored =>
    if (w.findRedemption qrCodeRef).isSome then w
    else { w with
      redemptions := w.redemptions ++ [⟨storeId, none, stored, qrCodeRef, .pending, false⟩] }
  | none => w

def lockUser (w : World) (tx : ℕ) (userId : String) : World :=
  if (w.findUser userId).isSome then
    { w with userLock := Function.update w.userLock userId (some tx) }
  else w

def lockRedemption (w : World) (tx : ℕ) (qrCodeRef : String) : World :=
  if w.confirmable tx qrCodeRef then
    { w with rowLock := Function.update w.rowLock qrCodeRef (some tx) }
  else w

def completeRedemption (w : World) (tx : ℕ) (qrCodeRef userId : String) (amount : ℚ) : World :=
  match storedAmount amount with
  | some stored =>
    if w.confirmable tx qrCodeRef then
      { w with
        rowLock := Function.update w.rowLock qrCodeRef (some tx)
        transactions :=
          Function.update w.transactions tx (some (some ⟨qrCodeRef, userId, stored⟩)) }
    else w
  | none => w

/-- A user or an id has one profile at most. -/
def hasProfile (w : World) (storeId userId : String) : Bool :=
  w.stores.any fun store => store.id == storeId || store.userId == userId

def createStoreProfile (w : World) (storeId userId : String) : World :=
  if w.hasProfile storeId userId then w
  else { w with stores := w.stores ++ [⟨storeId, userId, ""⟩] }

def setBankAccount (w : World) (storeId bankAccount : String) : World :=
  { w with
    stores := w.stores.map fun store =>
      if store.id = storeId then { store with bankAccount := bankAccount } else store }

def createSettlement (w : World) (settlementId storeId : String) (tokenAmount : ℚ) : World :=
  match storedAmount tokenAmount with
  | some stored =>
    if (w.findSettlement settlementId).isSome then w
    else { w with
      settlements :=
        w.settlements ++ [⟨settlementId, storeId, stored, stored, .pending, none, false⟩] }
  | none => w

def updateSettlement (w : World) (settlementId : String) (status : SettlementStatus)
    (receiptUrl : Option String) : World :=
  { w with settlements := w.settlements.map (setStatus settlementId status receiptUrl) }

def effect (w : World) (o : Outcome) : Op → World
  | .createRedemption storeId tokenAmount => w.createRedemption o.id storeId tokenAmount
  | .begin => w.begin
  | .createStoreProfile userId => w.createStoreProfile o.id userId
  | .setBankAccount storeId bankAccount => w.setBankAccount storeId bankAccount
  | .createSettlement storeId tokenAmount => w.createSettlement o.id storeId tokenAmount
  | .updateSettlement settlementId status receiptUrl =>
    w.updateSettlement settlementId status receiptUrl
  | .add data _ => { w with queue := w.queue ++ [data] }
  | _ => w

def after (w : World) (i : Op) (o : Outcome) : World :=
  match i with
  | .lockUser tx userId =>
    if w.isOpen tx && free (w.userLock userId) tx then
      w.update o.delivery fun w => w.lockUser tx userId
    else w
  | .lockRedemption tx qrCodeRef =>
    if w.isOpen tx then w.update o.delivery fun w => w.lockRedemption tx qrCodeRef
    else w
  | .completeRedemption tx qrCodeRef userId amount =>
    if w.isOpen tx then
      w.update o.delivery fun w => w.completeRedemption tx qrCodeRef userId amount
    else w
  | .debitAccount tx _ _ => if o.delivery = .done then w else w.close tx
  | .commit tx => (if o.delivery.applied then w.publish tx else w).close tx
  | .rollback tx => w.close tx
  | i => w.update o.delivery fun w => w.effect o i

/-- The answer to a statement of a transaction, which a closed one does not get. -/
def within {α : Type} (w : World) (tx : ℕ) (d : Delivery) (a : α) : Except Failure α :=
  if w.isOpen tx then d.answer .outside a else .error .outside

/-- The answer to a statement that locks the row of a redemption. -/
def locking (w : World) (tx : ℕ) (qrCodeRef : String) (d : Delivery) : Except Failure Bool :=
  if w.confirmable tx qrCodeRef then w.within tx d true
  else if w.redemptions.any fun row => row.qrCodeRef == qrCodeRef && row.status == .pending then
    .error .outside
  else w.within tx d false

def reply (w : World) (i : Op) (o : Outcome) : Except Failure (Reply i) :=
  match i with
  | .findUser userId => o.delivery.answer .outside (w.findUser userId)
  | .completedRedemptions userId => o.delivery.answer .outside (w.completedRedemptions userId)
  | .chainBalance _ => .ok (shown o.answer)
  | .receivedBatches collectorId => o.delivery.answer .outside (w.books.batches.filter fun b =>
      b.collectorId == collectorId && b.status == .received)
  | .batchRequests batchId =>
    o.delivery.answer .outside (w.books.requests.filter fun r => r.batchId == some batchId)
  | .materialRate _ => .ok o.rate
  | .householdRequests householdId => o.delivery.answer .outside (w.books.requests.filter fun r =>
      r.householdId == householdId && r.status == .completed)
  | .findStoreProfile userId =>
    o.delivery.answer .outside (w.stores.find? fun store => store.userId == userId)
  | .findOwnProfile userId =>
    o.delivery.answer .outside (w.stores.find? fun store => store.userId == userId)
  | .createStoreProfile userId =>
    if w.hasProfile o.id userId then .error .outside else o.delivery.answer .outside
      ⟨o.id, userId, ""⟩
  | .storeRedemptions storeId => o.delivery.answer .outside (w.redemptions.filter fun row =>
      row.storeId == storeId && row.status == .completed)
  | .receivedTransfers userId => o.delivery.answer .outside (w.books.transfers.filter fun t =>
      t.receiverUserId == some userId && t.status == "COMPLETED")
  | .sentTransfers userId => o.delivery.answer .outside (w.books.transfers.filter fun t =>
      t.senderUserId == userId && (t.receiverUserId.any fun id => id != userId) &&
        t.status == "COMPLETED")
  | .completedPayments userId => o.delivery.answer .outside (w.books.payments.filter fun row =>
      row.userId == userId && row.status == .completed)
  | .createRedemption storeId tokenAmount =>
    match storedAmount tokenAmount with
    | some stored =>
      if (w.findRedemption o.id).isSome then .error .outside
      else o.delivery.answer .outside ⟨storeId, none, stored, o.id, .pending, false⟩
    | none => .error .outside
  | .findRedemption qrCodeRef => o.delivery.answer .outside do
      let row ← w.findRedemption qrCodeRef
      let store ← w.storeOf row.storeId
      some ⟨row, store.1, store.2⟩
  | .begin => o.delivery.answer .outside w.nextTx
  | .lockUser tx userId =>
    if free (w.userLock userId) tx then w.within tx o.delivery (w.findUser userId)
    else .error .outside
  | .lockRedemption tx qrCodeRef => w.locking tx qrCodeRef o.delivery
  | .completeRedemption tx qrCodeRef _ amount =>
    if (storedAmount amount).isSome then w.locking tx qrCodeRef o.delivery else .error .outside
  | .debitAccount tx _ _ => w.within tx o.delivery ()
  | .readRedemption tx qrCodeRef => w.within tx o.delivery (w.rowWithin tx qrCodeRef)
  | .commit tx => w.within tx o.delivery ()
  | .rollback tx => w.within tx o.delivery ()
  | .setBankAccount storeId _ =>
    if w.stores.any fun store => store.id == storeId then o.delivery.answer .outside ()
    else .error .outside
  | .pendingSettlements storeId => o.delivery.answer .outside (w.pendingSettlements storeId)
  | .createSettlement storeId tokenAmount =>
    match storedAmount tokenAmount with
    | some stored =>
      if (w.findSettlement o.id).isSome then .error .outside
      else o.delivery.answer .outside ⟨o.id, storeId, stored, stored, .pending, none, false⟩
    | none => .error .outside
  | .findSettlement settlementId => o.delivery.answer .outside do
      let row ← w.findSettlement settlementId
      let store ← w.storeOf row.storeId
      some ⟨row, store.1, store.2⟩
  | .updateSettlement settlementId status receiptUrl =>
    match w.findSettlement settlementId with
    | some row => o.delivery.answer .outside (setStatus settlementId status receiptUrl row)
    | none => .error .outside
  | .emit _ _ => o.delivery.answer .outside ()
  | .add _ _ => o.delivery.answer .outside ()

theorem reply_lockUser {w : World} {o : Outcome} {tx : ℕ} {userId : String} {found : Option User}
    (h : w.reply (.lockUser tx userId) o = .ok found) : free (w.userLock userId) tx = true ∧
      w.isOpen tx = true ∧ o.delivery = .done ∧ w.findUser userId = found := by
  change (if free (w.userLock userId) tx then w.within tx o.delivery (w.findUser userId)
    else .error .outside) = .ok found at h
  split at h
  · unfold within at h
    split at h
    · exact ⟨‹_›, ‹_›, Delivery.answer_ok h⟩
    · cases h
  · cases h

theorem reply_updateSettlement {w : World} {o : Outcome} {settlementId : String}
    {status : SettlementStatus} {receiptUrl : Option String} {row : SettlementRequest}
    (h : w.reply (.updateSettlement settlementId status receiptUrl) o = .ok row) :
    o.delivery = .done ∧ ∃ old, w.findSettlement settlementId = some old ∧
      row = setStatus settlementId status receiptUrl old := by
  change (match w.findSettlement settlementId with
    | some row => o.delivery.answer Failure.outside (setStatus settlementId status receiptUrl row)
    | none => .error Failure.outside) = .ok row at h
  split at h
  · obtain ⟨hdone, rfl⟩ := Delivery.answer_ok h
    exact ⟨hdone, _, ‹_›, rfl⟩
  · cases h

theorem reply_of_found {w : World} {o : Outcome} {settlementId : String} {status : SettlementStatus}
    {receiptUrl : Option String} {old : SettlementRequest}
    (hfound : w.findSettlement settlementId = some old) (hdone : o.delivery = .done) :
    w.reply (.updateSettlement settlementId status receiptUrl) o =
      .ok (setStatus settlementId status receiptUrl old) := by
  change (match w.findSettlement settlementId with
    | some row => o.delivery.answer Failure.outside (setStatus settlementId status receiptUrl row)
    | none => .error Failure.outside) = _
  rw [hfound, hdone]
  rfl

def serve (w : World) (i : Op) (o : Outcome) : Except Failure (Reply i) × World :=
  (w.reply i o, w.after i o)

/-! #### The chain -/

def moveTokens (w : World) (source target : String) (amount : ℕ) : World :=
  { w with
    chain := fun a => w.chain a - (if a = source then amount else 0) +
      (if a = target then amount else 0)
    received := fun a => w.received a + (if a = target then amount else 0) }

def credit (w : World) (wallet : String) (amount : ℕ) : World :=
  { w with
    chain := fun a => w.chain a + (if a = wallet then amount else 0)
    received := fun a => w.received a + (if a = wallet then amount else 0) }

def debit (w : World) (wallet : String) (amount : ℕ) : World :=
  { w with chain := fun a => w.chain a - (if a = wallet then amount else 0) }

def markApplied (qrCodeRef : String) (row : RedemptionTransaction) : RedemptionTransaction :=
  if row.qrCodeRef = qrCodeRef then { row with applied := true } else row

def transferRedemption (w : World) (qrCodeRef source target : String) (tokenAmount : ℚ) : World :=
  { w.moveTokens source target (stroops tokenAmount) with
    redemptions := w.redemptions.map (markApplied qrCodeRef) }

def markSettled (settlementId : String) (row : SettlementRequest) : SettlementRequest :=
  if row.id = settlementId then { row with applied := true } else row

def transferSettlement (w : World) (settlementId source target : String) (tokenAmount : ℚ) :
    World :=
  { w.moveTokens source target (stroops tokenAmount) with
    settlements := w.settlements.map (markSettled settlementId) }

end World

/-! ### A household and a store -/

def household : User := ⟨"household", "", .hogar, some "wallet"⟩

def storeUser : User := ⟨"store-user", "", .tienda, some "store-wallet"⟩

/-- The household holds `stroops` on the chain, the store nothing. -/
def sampleWorld (redemptions : List RedemptionTransaction) (settlements : List SettlementRequest)
    (stroops : ℕ) : World where
  users := [household, storeUser]
  stores := [⟨"store", "store-user", ""⟩]
  redemptions := redemptions
  settlements := settlements
  books := ⟨[], [], [], []⟩
  queue := []
  chain a := if a = "wallet" then stroops else 0
  received _ := 0
  transactions _ := none
  nextTx := 0
  userLock _ := none
  rowLock _ := none

end Livora.StoreBooks
