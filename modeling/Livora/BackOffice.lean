import Livora.JobQueues
import Livora.PinVerification
import Livora.SequencedLedgers

/-! The tables, the queue and the chain that payments and blockchain jobs work on,
and every outside call they make. As in the verification of a PIN, the caller
chooses how the answer of a call arrives; a transaction may be applied although it
is reported as failed, or stay in flight. The chain applies a transaction only
while its number is the next one of its account, or of the signer's nonce. -/

namespace Livora.BackOffice

open DoubleRounding EffectPrograms EffectPrograms.Action JobQueues SequencedLedgers
open PinVerification (Failure Delivery truthy firstText)

/-! ### The tables -/

inductive Role where
  | hogar
  | recolector
  | centroAcopio
  | empresaB2b
  | admin
  | tienda
deriving DecidableEq

structure User where
  id : String
  email : String
  role : Role
  walletAddress : Option String
deriving DecidableEq

/-- An amount of a `Decimal(12, 2)` column. -/
structure Soles where
  cents : ℕ
deriving DecidableEq

namespace Soles

def value (a : Soles) : ℚ := a.cents / 100

/-- `Number(amount)` -/
def number (a : Soles) : ℚ := fl a.value

/-- What the column keeps of a number: its decimal text, rounded to two places. -/
def ofNumber (x : Double) : Soles := ⟨⌊100 * x.toDecimal.value + 1 / 2⌋.toNat⟩

end Soles

/-- What a `Decimal(14, 4)` column keeps of a number. -/
def tokenColumn (x : Double) : ℚ := ⌊10 ^ 4 * x.toDecimal.value + 1 / 2⌋ / 10 ^ 4

inductive PaymentStatus where
  | pending
  | completed
  | failed
  | refunded
  | chargebackDisputed
  | chargebackLost
deriving DecidableEq

inductive BlockchainStatus where
  | pending
  | minted
  | failedBlockchain
deriving DecidableEq

/-! ### Notifications of the gateway -/

structure CardDetails where
  effectiveBrand : Option String
  paymentMethodType : Option String
  pan : Option String
  authorizationNumber : Option String
deriving DecidableEq

structure KrTransaction where
  uuid : Option String
  parentTransactionUuid : Option String
  cardDetails : Option CardDetails
deriving DecidableEq

structure OrderDetails where
  orderId : Option String
  orderTotalAmount : Option Double
deriving DecidableEq

structure KrAnswer where
  orderDetails : Option OrderDetails
  orderId : Option String
  orderStatus : Option String
  transactions : List KrTransaction
deriving DecidableEq

inductive RawAnswer where
  | text (answer : String)
  | object (answer : KrAnswer)

structure IzipayIpnDto where
  krAnswer : Option RawAnswer
  krHash : Option String
  krHashKey : Option String

structure IPNVerificationResult where
  orderId : String
  isPaid : Bool
  orderStatus : String
  amountPen : Option ℚ
  cardBrand : String
  cardPanMasked : Option String
  authorizationCode : Option String
  rawPayload : KrAnswer
deriving DecidableEq

structure PaymentTransaction where
  userId : String
  amountPen : Soles
  tokenAmount : ℚ
  purchaseNumber : String
  transactionToken : Option String
  status : PaymentStatus
  blockchainStatus : BlockchainStatus
  cardBrand : Option String
  cardPanMasked : Option String
  authorizationCode : Option String
  gatewayResponse : Option KrAnswer
  txHash : Option String
  createdAt : ℕ
  /-- The orders that the daily limit of this one counted; kept for statements only. -/
  counted : List String
deriving DecidableEq

/-- The configuration. `hmacSha256` and `hexBytes` are those of the runtime; `parseJson` reads an
answer and `stringify` writes it; `unlock` decrypts a vault key and gives its account. -/
structure Service where
  privateKey : String
  sha256Key : String
  hmacSha256 : String → String → String
  hexBytes : String → List ℕ
  parseJson : String → Option KrAnswer
  stringify : KrAnswer → String
  queue : Bool
  walletEncryptionKey : String
  unlock : String → String → Option String
  validAddress : String → Bool
  contractId : String
  toUpperCase : String → String

namespace Service

def secretKey (svc : Service) : String :=
  firstText svc.walletEncryptionKey "livora_wallet_aes256_secret!"

def verifyHmac (svc : Service) (rawAnswer : RawAnswer) (receivedHash : String)
    (hashKeyType : Option String) : Bool :=
  let answerStr := match rawAnswer with
    | .text answer => answer
    | .object answer => svc.stringify answer
  let key := if hashKeyType = some "password" then svc.privateKey else svc.sha256Key
  receivedHash ≠ "" &&
    svc.hexBytes (svc.hmacSha256 key answerStr) == svc.hexBytes receivedHash

def parseAnswer (svc : Service) : RawAnswer → Option KrAnswer
  | .text answer => svc.parseJson answer
  | .object answer => some answer

end Service

def KrAnswer.order (answer : KrAnswer) : Option String :=
  (truthy (answer.orderDetails.bind OrderDetails.orderId)).or
    ((truthy answer.orderId).or
      (truthy (answer.transactions.head?.bind KrTransaction.parentTransactionUuid)))

def KrAnswer.result (answer : KrAnswer) (orderId : String) : IPNVerificationResult :=
  let orderStatus := (truthy answer.orderStatus).getD "UNKNOWN"
  let firstTx := answer.transactions.head?
  let cardDetails := firstTx.bind KrTransaction.cardDetails
  { orderId
    isPaid := orderStatus == "PAID"
    orderStatus
    amountPen := (answer.orderDetails.bind OrderDetails.orderTotalAmount).map fun rawAmount =>
      fl (rawAmount.val / 100)
    cardBrand := ((truthy (cardDetails.bind CardDetails.effectiveBrand)).or
      (truthy (cardDetails.bind CardDetails.paymentMethodType))).getD "CARD"
    cardPanMasked := truthy (cardDetails.bind CardDetails.pan)
    authorizationCode := (truthy (cardDetails.bind CardDetails.authorizationNumber)).or
      (truthy (firstTx.bind KrTransaction.uuid))
    rawPayload := answer }

def verifyAndParseIpn (svc : Service) (dto : IzipayIpnDto) :
    Except Failure IPNVerificationResult :=
  match dto.krAnswer, truthy dto.krHash with
  | some krAnswerRaw, some krHash =>
    if svc.verifyHmac krAnswerRaw krHash dto.krHashKey then
      match svc.parseAnswer krAnswerRaw with
      | none => .error .outside
      | some krAnswer =>
        match krAnswer.order with
        | some orderId => .ok (krAnswer.result orderId)
        | none =>
          .error (.badRequest "No se pudo identificar el orderId de la transacción")
    else .error (.badRequest "Firma HMAC-SHA256 inválida")
  | _, _ => .error (.badRequest
      "Faltan parámetros requeridos de firma Izipay (kr-answer, kr-hash)")

/-! ### Jobs and movements -/

inductive JobData where
  | izipayMintTokens (userId walletAddress : String) (amount : ℚ) (purchaseNumber : String)
  | redemptionTransfer (redemptionId fromUserId toStoreUserId fromWallet toWallet : String)
      (tokenAmount : ℚ)
  | settlementTransfer (settlementId fromStoreUserId fromWallet toWallet : String)
      (tokenAmount : ℚ)
  | redemptionRefundTransfer (redemptionId fromStoreUserId toHouseholdUserId fromWallet
      toWallet : String) (tokenAmount : ℚ)
  | unknown (name : String)
deriving DecidableEq

def JobData.mintsFor : JobData → Option String
  | .izipayMintTokens _ _ _ purchaseNumber => some purchaseNumber
  | _ => none

inductive Transfer where
  | mint (target : String) (amount : ℚ)
  | delegated (source target : String) (amount : ℚ)
  | subsidized (source target : String) (amount : ℚ)
deriving DecidableEq

/-- A movement of tokens, with the job and the order it is made for. -/
structure Movement where
  job : Option ℕ
  order : Option String
  transfer : Transfer
deriving DecidableEq

/-- What orders the transactions: the nonce the contract keeps for an owner, or the sequence of
an account. -/
inductive Guard where
  | nonce (owner : String)
  | sequence (account : String)
deriving DecidableEq

structure FoundPayment (purchaseNumber : String) where
  row : PaymentTransaction
  user : User
  key : row.purchaseNumber = purchaseNumber

/-! ### The calls -/

inductive Op where
  | take (n : ℕ)
  | finish (n token : ℕ) (ok : Bool)
  | add (data : JobData) (attempts : ℕ)
  | now
  | findUser (userId : String)
  | completedSince (userId : String) (since : ℕ)
  | createPayment (row : PaymentTransaction)
  | createPaymentToken (orderId : String)
  | setTransactionToken (purchaseNumber formToken : String)
  | verifyIpn (dto : IzipayIpnDto)
  | findPayment (purchaseNumber : String)
  | failPayment (purchaseNumber : String) (verification : IPNVerificationResult)
  | completePayment (purchaseNumber : String) (verification : IPNVerificationResult)
  | setBlockchain (purchaseNumber : String) (status : BlockchainStatus) (txHash : Option String)
  | findVault (userId : String)
  | updateRedemption (redemptionId txHash : String)
  | emit (userId event : String)
  | lease
  | readNumber (m : Movement) (account : Guard)
  | readSource (account : String)
  | simulate (m : Movement)
  | submit (m : Movement) (t : Ticket Guard)

abbrev Reply : Op → Type
  | .take _ => Option (Job JobData)
  | .finish _ _ _ => Unit
  | .add _ _ => Unit
  | .now => ℕ
  | .findUser _ => Option User
  | .completedSince _ _ => List PaymentTransaction
  | .createPayment _ => Unit
  | .createPaymentToken _ => String
  | .setTransactionToken _ _ => Unit
  | .verifyIpn _ => IPNVerificationResult
  | .findPayment purchaseNumber => Option (FoundPayment purchaseNumber)
  | .failPayment _ _ => Unit
  | .completePayment _ _ => Unit
  | .setBlockchain _ _ _ => Unit
  | .findVault _ => Option String
  | .updateRedemption _ _ => Unit
  | .emit _ _ => Unit
  | .lease => String
  | .readNumber _ _ => ℕ
  | .readSource _ => Unit
  | .simulate _ => Unit
  | .submit _ _ => Option String

abbrev Work (α : Type) := Action Op Reply Failure α

def call (i : Op) : Work (Reply i) := perform i

/-! ### The world -/

structure World where
  now : ℕ
  users : List User
  payments : List PaymentTransaction
  vaults : String → Option String
  redemptions : String → Option (Option String)
  queue : List (Job JobData)
  ledger : Ledger Guard Movement
  /-- The notifications whose signature was verified, in order. -/
  received : List IPNVerificationResult
  /-- When orders became COMPLETED. -/
  completions : List (String × ℕ)

/-- How the answer of a call arrives and what the outside puts into it. `behind` is how far the
number a node answers lies behind the chain. -/
structure Outcome where
  delivery : Delivery
  text : Option String
  behind : ℕ

namespace World

def update (w : World) (d : Delivery) (f : World → World) : World := if d.applied then f w else w

theorem key_of_find? {payments : List PaymentTransaction} {purchaseNumber : String}
    {row : PaymentTransaction}
    (h : payments.find? (fun row => row.purchaseNumber == purchaseNumber) = some row) :
    row.purchaseNumber = purchaseNumber := by
  simpa using List.find?_some h

def findPayment (w : World) (purchaseNumber : String) : Option (FoundPayment purchaseNumber) :=
  match h : w.payments.find? fun row => row.purchaseNumber == purchaseNumber with
  | none => none
  | some row =>
    (w.users.find? fun user => user.id == row.userId).map fun user => ⟨row, user, key_of_find? h⟩

def updatePayment (w : World) (purchaseNumber : String)
    (f : PaymentTransaction → PaymentTransaction) : World :=
  { w with payments := w.payments.map fun row =>
      if row.purchaseNumber = purchaseNumber then f row else row }

def hasPayment (w : World) (purchaseNumber : String) : Bool :=
  w.payments.any fun row => row.purchaseNumber == purchaseNumber

def openPayment (w : World) (purchaseNumber : String) : Bool :=
  w.payments.any fun row => row.purchaseNumber == purchaseNumber && row.status != .completed

def completedBy (v : IPNVerificationResult) (row : PaymentTransaction) : PaymentTransaction :=
  { row with
    status := .completed
    cardBrand := some v.cardBrand
    cardPanMasked := v.cardPanMasked
    authorizationCode := v.authorizationCode
    gatewayResponse := some v.rawPayload }

def complete (w : World) (purchaseNumber : String) (v : IPNVerificationResult) : World :=
  { w.updatePayment purchaseNumber (completedBy v) with
    completions := if w.openPayment purchaseNumber then w.completions ++ [(purchaseNumber, w.now)]
      else w.completions }

def effect (w : World) : Op → World
  | .take n => { w with queue := w.queue.modify n Job.take }
  | .finish n token ok => { w with queue := w.queue.modify n fun job => job.finish token ok }
  | .add data attempts => { w with queue := w.queue ++ [Job.new data attempts] }
  | .createPayment row => { w with
      payments := if w.hasPayment row.purchaseNumber then w.payments
        else w.payments ++ [{ row with createdAt := w.now }] }
  | .setTransactionToken purchaseNumber formToken => w.updatePayment purchaseNumber fun row =>
      { row with transactionToken := some formToken }
  | .failPayment purchaseNumber v => w.updatePayment purchaseNumber fun row =>
      { row with status := .failed, gatewayResponse := some v.rawPayload }
  | .completePayment purchaseNumber v => w.complete purchaseNumber v
  | .setBlockchain purchaseNumber status txHash => w.updatePayment purchaseNumber fun row =>
      { row with blockchainStatus := status, txHash := txHash.or row.txHash }
  | .updateRedemption redemptionId txHash => { w with
      redemptions := fun id => if id = redemptionId then (w.redemptions id).map fun _ => some txHash
        else w.redemptions id }
  | _ => w

def submit (w : World) (m : Movement) (t : Ticket Guard) : Delivery → World
  | .done => { w with ledger := w.ledger.apply m t }
  | .lost => { w with ledger := w.ledger.apply m t }
  | .pending => { w with ledger := w.ledger.post m t }
  | .refused => w

def after (svc : Service) (w : World) (i : Op) (o : Outcome) : World :=
  match i with
  | .verifyIpn dto =>
    match verifyAndParseIpn svc dto with
    | .ok v => { w with received := w.received ++ [v] }
    | .error _ => w
  | .submit m t => w.submit m t o.delivery
  | i => w.update o.delivery fun w => w.effect i

def reply (svc : Service) (w : World) (i : Op) (o : Outcome) : Except Failure (Reply i) :=
  match i with
  | .take n => o.delivery.reply ((waiting w.queue n).map Job.take)
  | .finish _ _ _ => o.delivery.reply ()
  | .add _ _ => o.delivery.reply ()
  | .now => o.delivery.reply w.now
  | .findUser userId => o.delivery.reply (w.users.find? fun user => user.id == userId)
  | .completedSince userId since => o.delivery.reply (w.payments.filter fun row =>
      row.userId == userId && row.status == .completed && decide (since ≤ row.createdAt))
  | .createPayment row =>
    if w.hasPayment row.purchaseNumber then .error .outside else o.delivery.reply ()
  | .createPaymentToken _ => o.delivery.reply (o.text.getD "")
  | .setTransactionToken _ _ => o.delivery.reply ()
  | .verifyIpn dto => verifyAndParseIpn svc dto
  | .findPayment purchaseNumber => o.delivery.reply (w.findPayment purchaseNumber)
  | .failPayment purchaseNumber _ =>
    if w.hasPayment purchaseNumber then o.delivery.reply () else .error .outside
  | .completePayment purchaseNumber _ =>
    if w.hasPayment purchaseNumber then o.delivery.reply () else .error .outside
  | .setBlockchain _ _ _ => o.delivery.reply ()
  | .findVault userId => o.delivery.reply (w.vaults userId)
  | .updateRedemption redemptionId _ =>
    if (w.redemptions redemptionId).isSome then o.delivery.reply () else .error .outside
  | .emit _ _ => o.delivery.reply ()
  | .lease => o.delivery.reply (o.text.getD "")
  | .readNumber _ account => o.delivery.reply (w.ledger.counter account - o.behind)
  | .readSource _ => o.delivery.reply ()
  | .simulate _ => o.delivery.reply ()
  | .submit _ t => if w.ledger.Live t then o.delivery.reply o.text else .error .outside

def serve (svc : Service) (w : World) (i : Op) (o : Outcome) : Except Failure (Reply i) × World :=
  (w.reply svc i o, w.after svc i o)

end World

end Livora.BackOffice
