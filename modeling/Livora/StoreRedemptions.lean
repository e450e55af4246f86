import Livora.WalletBalance

/-! `StoreRedemptionsService`: a store shows a code with an amount, a household confirms
it. The confirmation checks the balance inside a transaction that holds the rows of
the household and of the code, but reads it outside of that transaction. -/

namespace Livora.StoreRedemptions

open DoubleRounding EffectPrograms EffectPrograms.Action StoreBooks WalletBalance
open PinVerification (truthy)

/-- A validated amount: at most two decimals, and at least a tenth. -/
structure CreateQrRedemptionDto where
  tokenAmount : Double
  twoDecimals : ∃ n : ℕ, tokenAmount.toDecimal.value = n / 100
  least : fl (1 / 10) ≤ tokenAmount.val

def generateQrRedemption (storeProfileId : String) (dto : CreateQrRedemptionDto) :
    Work RedemptionTransaction :=
  if dto.tokenAmount.val ≤ 0 then throw (.badRequest "El monto debe ser un número positivo")
  else call (.createRedemption storeProfileId dto.tokenAmount.val)

structure ConfirmRedemptionDto where
  termsAccepted : Bool
  donationOptIn : Option Bool
  insuranceOptIn : Option Bool

def ConfirmRedemptionDto.extraAmount (dto : ConfirmRedemptionDto) : ℚ :=
  (if dto.donationOptIn = some true then 1 else 0) +
    if dto.insuranceOptIn = some true then 1 / 2 else 0

theorem ConfirmRedemptionDto.extraAmount_eq (dto : ConfirmRedemptionDto) :
    ∃ e : ℕ, e ≤ 3 ∧ dto.extraAmount = e / 2 := by
  refine ⟨(if dto.donationOptIn = some true then 2 else 0) +
    if dto.insuranceOptIn = some true then 1 else 0, ?_, ?_⟩
  · split <;> split <;> decide
  · unfold ConfirmRedemptionDto.extraAmount
    split <;> split <;> norm_num

/-- `Number(redemption.tokenAmount) + extraAmount` -/
def finalAmount (row : RedemptionTransaction) (dto : ConfirmRedemptionDto) : ℚ :=
  fl (fl row.tokenAmount + dto.extraAmount)

def noWallet : Failure := .badRequest "El usuario hogar no tiene una billetera configurada"

def unavailable : Failure := .conflict "Canje procesado previamente o ya no está disponible"

def termsRefused : Failure :=
  .badRequest "Debe aceptar los Términos y Condiciones de Uso para completar el pago."

def insufficient (amount balance : ℚ) : Failure :=
  .badRequest ("Saldo de LIVOs insuficiente para realizar el canje. Requerido: " ++
    numberText amount ++ ", Disponible: " ++ numberText balance)

/-- `prisma.$transaction(body)` -/
def transaction {α : Type} (body : ℕ → Work α) : Work α := do
  let tx ← call .begin
  let result ← rescue (body tx) fun e => do
    recover (call (.rollback tx)) ()
    throw e
  call (.commit tx)
  pure result

section Confirmation

variable (svc : Service) (householdUserId : String) (row : RedemptionTransaction) (amount : ℚ)

def completeRow (tx : ℕ) : Work (Option RedemptionTransaction) := do
  let updated ← call (.completeRedemption tx row.qrCodeRef householdUserId amount)
  if updated then do
    recover (call (.debitAccount tx householdUserId amount)) ()
    call (.readRedemption tx row.qrCodeRef)
  else throw unavailable

def checkBalance (tx : ℕ) : Work (Option RedemptionTransaction) := do
  let text ← getBalance svc householdUserId
  if parseCents text < amount then throw (insufficient amount (parseCents text))
  else completeRow householdUserId row amount tx

def lockRow (tx : ℕ) : Work (Option RedemptionTransaction) := do
  let locked ← call (.lockRedemption tx row.qrCodeRef)
  if locked then checkBalance svc householdUserId row amount tx
  else throw unavailable

def completeWithin (tx : ℕ) : Work (Option RedemptionTransaction) := do
  match ← call (.lockUser tx householdUserId) with
  | none => throw (.notFound "Usuario hogar no encontrado en el sistema")
  | some lockedUser =>
    match truthy lockedUser.walletAddress with
    | none => throw noWallet
    | some _ => lockRow svc householdUserId row amount tx

def announce (redemption : FoundRedemption) (wallet : String)
    (updatedRedemption : RedemptionTransaction) : Work RedemptionTransaction := do
  call (.emit redemption.storeUser.id "redemption:completed")
  call (.add (.redemptionTransfer updatedRedemption.qrCodeRef householdUserId
    redemption.storeUser.id wallet (redemption.storeUser.walletAddress.getD "")
    updatedRedemption.tokenAmount) 3)
  pure updatedRedemption

def confirmPending (redemption : FoundRedemption) : Work RedemptionTransaction := do
  match ← call (.findUser householdUserId) with
  | none => throw noWallet
  | some user =>
    match truthy user.walletAddress with
    | none => throw noWallet
    | some wallet => do
      match ← transaction (completeWithin svc householdUserId redemption.row amount) with
      | some updated => announce householdUserId redemption wallet updated
      | none => throw .outside

end Confirmation

def confirmAccepted (svc : Service) (householdUserId qrCodeRef : String)
    (dto : ConfirmRedemptionDto) : Work RedemptionTransaction := do
  match ← call (.findRedemption qrCodeRef) with
  | none => throw (.notFound "Transacción de canje no encontrada")
  | some redemption =>
    if redemption.row.status ≠ .pending then
      throw (.conflict ("El canje ya no está pendiente (Estado actual: " ++
        redemption.row.status.name ++ ")"))
    else confirmPending svc householdUserId (finalAmount redemption.row dto) redemption

def confirmRedemption (svc : Service) (householdUserId qrCodeRef : String)
    (dto : Option ConfirmRedemptionDto) : Work RedemptionTransaction :=
  match dto with
  | none => throw termsRefused
  | some dto =>
    if dto.termsAccepted then confirmAccepted svc householdUserId qrCodeRef dto
    else throw termsRefused

end Livora.StoreRedemptions
