import Livora.BlockchainJobs
import Livora.RewardStrategies

/-! Orders paid at the gateway: a session is opened after a check of the daily
limit, the gateway's notification completes or fails the order, and the tokens
bought are minted by a job, or at once where there is no queue. Administrators
may ask for the mint again. -/

namespace Livora.Payments

open DoubleRounding EffectPrograms EffectPrograms.Action JobQueues BackOffice BlockchainJobs
open RewardStrategies (toFixed)
open PinVerification (Failure truthy)

/-! ### Sessions -/

theorem ten_lt : 10 < 2 ^ 53 := by norm_num

def ten : Double := .ofNat 10 ten_lt

structure CreatePaymentSessionDto where
  amount : Option Double
  amountInSoles : Option Double

def CreatePaymentSessionDto.getEffectiveAmount (dto : CreatePaymentSessionDto) : Double :=
  (dto.amount.or dto.amountInSoles).getD ten

structure PaymentSession where
  orderId : String
  amount : Double
  formToken : String

def day : ℕ := 24 * 60 * 60 * 1000

/-- `Number(dailyAgg._sum.amountPen || 0)` -/
def dailyTotal (rows : List PaymentTransaction) : ℚ :=
  fl (rows.map fun row => row.amountPen.value).sum

def twoDecimals (x : ℚ) : String :=
  let cents := (round (toFixed x 2 * 100)).toNat
  toString (cents / 100) ++ "." ++ (if cents % 100 < 10 then "0" else "") ++ toString (cents % 100)

def orderIdOf (svc : Service) (stamp : ℕ) (user : User) : String :=
  "ECO-" ++ toString stamp ++ "-" ++ svc.toUpperCase (String.ofList (user.id.toList.take 4))

def newPayment (userId orderId : String) (effectiveAmount : Double) (counted : List String) :
    PaymentTransaction where
  userId := userId
  amountPen := .ofNumber effectiveAmount
  tokenAmount := tokenColumn effectiveAmount
  purchaseNumber := orderId
  transactionToken := none
  status := .pending
  blockchainStatus := .pending
  cardBrand := none
  cardPanMasked := none
  authorizationCode := none
  gatewayResponse := none
  txHash := none
  createdAt := 0
  counted := counted

def checkAmount (user : User) (effectiveAmount : Double) : Work Unit :=
  if user.role ≠ .recolector ∧ user.role ≠ .tienda then
    throw (.forbidden
      "El rol actual no opera con recargas fiduciarias de LIVOs vía pasarela Izipay")
  else if effectiveAmount.val < 10 then
    throw (.badRequest "El monto mínimo de recarga es de S/ 10.00 Soles")
  else if 500 < effectiveAmount.val then
    throw (.badRequest "El monto máximo de recarga por operación es de S/ 500.00 Soles")
  else pure ()

def limitExceeded (currentDailyTotal : ℚ) : Failure :=
  .badRequest ("Límite diario de recarga excedido. Tu acumulado en las últimas 24 horas es S/ " ++
    twoDecimals currentDailyTotal ++
    " PEN. El monto máximo permitido es S/ 500.00 PEN por día.")

def openSession (svc : Service) (user : User) (effectiveAmount : Double)
    (counted : List PaymentTransaction) : Work PaymentSession := do
  let stamp ← call .now
  let orderId := orderIdOf svc stamp user
  call (.createPayment (newPayment user.id orderId effectiveAmount
    (counted.map PaymentTransaction.purchaseNumber)))
  let formToken ← call (.createPaymentToken orderId)
  call (.setTransactionToken orderId formToken)
  pure ⟨orderId, effectiveAmount, formToken⟩

def createSession (svc : Service) (userId : String) (dto : CreatePaymentSessionDto) :
    Work PaymentSession := do
  match ← call (.findUser userId) with
  | none => throw (.notFound "Usuario no encontrado")
  | some user => do
    let effectiveAmount := dto.getEffectiveAmount
    checkAmount user effectiveAmount
    let now ← call .now
    let rows ← call (.completedSince userId (now - day))
    if 500 < fl (dailyTotal rows + effectiveAmount.val) then throw (limitExceeded (dailyTotal rows))
    else openSession svc user effectiveAmount rows

/-! ### Notifications -/

def mintJob (user : User) (walletAddress : String) (row : PaymentTransaction) : JobData :=
  .izipayMintTokens user.id walletAddress (fl row.tokenAmount) row.purchaseNumber

/-- The tokens are enqueued, or minted at once where there is no queue. -/
def mintOrEnqueue (svc : Service) (row : PaymentTransaction) (user : User)
    (walletAddress : String) : Work Unit :=
  if svc.queue then call (.add (mintJob user walletAddress row) 5)
  else do
    let receipt ← mintEcoTokens
      ⟨none, some row.purchaseNumber, .mint walletAddress (fl row.tokenAmount)⟩
    match truthy receipt with
    | none => pure ()
    | some txHash => call (.setBlockchain row.purchaseNumber .minted (some txHash))

def accredit (svc : Service) (row : PaymentTransaction) (user : User) : Work Unit :=
  match truthy user.walletAddress with
  | none => pure ()
  | some walletAddress =>
    rescue (mintOrEnqueue svc row user walletAddress) fun _ =>
      recover (call (.setBlockchain row.purchaseNumber .failedBlockchain none)) ()

def confirm (svc : Service) (row : PaymentTransaction) (user : User)
    (verification : IPNVerificationResult) : Work Unit := do
  call (.completePayment row.purchaseNumber verification)
  accredit svc row user
  call (.emit user.id "payment:updated")

def processIzipayIpn (svc : Service) (dto : IzipayIpnDto) : Work Unit := do
  let verification ← call (.verifyIpn dto)
  match ← call (.findPayment verification.orderId) with
  | none => throw (.notFound ("Transacción " ++ verification.orderId ++ " no encontrada"))
  | some transaction =>
    if transaction.row.status = .completed then pure ()
    else if verification.isPaid then confirm svc transaction.row transaction.user verification
    else call (.failPayment transaction.row.purchaseNumber verification)

/-! ### Asking for the mint again -/

inductive RetryResult where
  | minted (txHash : Option String)
  | queued (purchaseNumber : String) (tokenAmount : ℚ) (walletAddress : String)
  | unavailable

def retryMintOf (svc : Service) (payment : PaymentTransaction) (user : User) : Work RetryResult :=
  if payment.status ≠ .completed then
    throw (.badRequest
      "Solo se puede reintentar el minteo de pagos confirmados fiduciariamente (COMPLETED)")
  else if payment.blockchainStatus = .minted then pure (.minted payment.txHash)
  else match truthy user.walletAddress with
    | none => throw (.badRequest "El usuario no posee una billetera Stellar configurada")
    | some walletAddress =>
      if svc.queue then do
        call (.add (mintJob user walletAddress payment) 5)
        call (.setBlockchain payment.purchaseNumber .pending none)
        pure (.queued payment.purchaseNumber payment.tokenAmount walletAddress)
      else pure .unavailable

def retryPaymentMint (svc : Service) (paymentIdentifier : String) : Work RetryResult := do
  match ← call (.findPayment paymentIdentifier) with
  | none => throw (.notFound "Transacción de pago no encontrada")
  | some payment => retryMintOf svc payment.row payment.user

end Livora.Payments
