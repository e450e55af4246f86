import Livora.SequenceManager
import Livora.WalletBalance

/-! `StoreSettlementsService`: a store asks for its tokens to be paid out, an
administrator approves, pays or rejects the request. A request is checked against the
balance less what is PENDING; an update goes by the status it has read before. -/

namespace Livora.StoreSettlements

open DoubleRounding EffectPrograms EffectPrograms.Action StoreBooks WalletBalance
open PinVerification (truthy)
open SequenceManager (isSpace)

/-- A validated request: at most two decimals, and at least fifty tokens. -/
structure CreateSettlementRequestDto where
  tokenAmount : Double
  cci : Option String
  twoDecimals : ∃ n : ℕ, tokenAmount.toDecimal.value = n / 100
  least : 50 ≤ tokenAmount.val

structure PaySettlementDto where
  receiptUrl : String

structure UpdateSettlementStatusDto where
  status : SettlementStatus
  receiptUrl : Option String

/-! ### Requests -/

/-- `dto.cci.replace(/[\s-]/g, '')` -/
def cleanCci (cci : String) : List Char := cci.toList.filter fun c => !(isSpace c || c == '-')

/-- `/^\d{20}$/` -/
def twentyDigits (cci : List Char) : Bool :=
  cci.length == 20 && cci.all fun c => decide ('0' ≤ c ∧ c ≤ '9')

def updateBankAccount (storeProfile : StoreProfile) (cci : String) : Work Unit :=
  if twentyDigits (cleanCci cci) then
    if String.ofList (cleanCci cci) ≠ storeProfile.bankAccount then
      call (.setBankAccount storeProfile.id (String.ofList (cleanCci cci)))
    else pure ()
  else throw (.badRequest "El CCI bancario debe contener exactamente 20 dígitos numéricos")

/-- The sum that the database makes of the PENDING requests, as a number. -/
def alreadyPendingAmount (activePending : List SettlementRequest) : ℚ :=
  fl (activePending.map SettlementRequest.tokenAmount).sum

def availableBalance (totalBalance : ℚ) (activePending : List SettlementRequest) : ℚ :=
  max 0 (fl (totalBalance - alreadyPendingAmount activePending))

def insufficient (amount totalBalance : ℚ) (activePending : List SettlementRequest) : Failure :=
  .badRequest ("Saldo insuficiente de LIVOs. Solicitas liquidar " ++ numberText amount ++
    " LIVO, pero tu saldo disponible es de " ++
    centsText (toFixed2 (availableBalance totalBalance activePending)) ++
    " LIVO (Saldo total: " ++ centsText (toFixed2 totalBalance) ++
    " LIVO, Retenido en liquidación previa: " ++
    centsText (toFixed2 (alreadyPendingAmount activePending)) ++ " LIVO).")

def requestChecked (svc : Service) (userId : String) (storeProfile : StoreProfile) (amount : ℚ) :
    Work SettlementRequest := do
  let text ← getBalance svc userId
  let activePending ← call (.pendingSettlements storeProfile.id)
  if availableBalance (parseCents text) activePending < amount then
    throw (insufficient amount (parseCents text) activePending)
  else call (.createSettlement storeProfile.id amount)

def requestSettlement (svc : Service) (userId : String) (storeProfile : Option StoreProfile)
    (dto : CreateSettlementRequestDto) : Work SettlementRequest :=
  match storeProfile with
  | none => throw (.notFound "Perfil de tienda no encontrado para este usuario")
  | some storeProfile =>
    match truthy dto.cci with
    | none => requestChecked svc userId storeProfile dto.tokenAmount.val
    | some cci => do
      updateBankAccount storeProfile cci
      requestChecked svc userId storeProfile dto.tokenAmount.val

/-- `StoresService.getOrCreateStoreProfile` -/
def getOrCreateStoreProfile (userId : String) : Work (Option StoreProfile) := do
  match ← call (.findOwnProfile userId) with
  | some profile => pure (some profile)
  | none => do
    match ← call (.findUser userId) with
    | none => pure none
    | some user =>
      if user.role = .tienda then do
        let profile ← call (.createStoreProfile userId)
        pure (some profile)
      else pure none

/-- `StoresService.requestSettlement` -/
def requestOfUser (svc : Service) (userId : String) (dto : CreateSettlementRequestDto) :
    Work SettlementRequest := do
  let storeProfile ← getOrCreateStoreProfile userId
  requestSettlement svc userId storeProfile dto

/-! ### Payments and rejections -/

def treasuryWallet (svc : Service) : String :=
  if svc.contractId = "" then "CD7L2OEZL74GPHXQ32EEXI7Y7DPHF74GPHXQ32EEXI7Y7DPHF74GPHXQ"
  else svc.contractId

def notFound : Failure := .notFound "Solicitud de liquidación no encontrada"

/-- The request can still be paid or rejected. -/
def Unpaid (status : SettlementStatus) : Prop :=
  status = .pending ∨ status = .approvedPendingPayment

instance (status : SettlementStatus) : Decidable (Unpaid status) :=
  inferInstanceAs (Decidable (_ ∨ _))

def payFound (svc : Service) (settlement : FoundSettlement) (dto : PaySettlementDto) :
    Work SettlementRequest := do
  let updatedSettlement ← call (.updateSettlement settlement.row.id .paid (some dto.receiptUrl))
  call (.emit settlement.storeUser.id "settlement:paid")
  call (.add (.settlementTransfer updatedSettlement.id settlement.storeUser.id
    (settlement.storeUser.walletAddress.getD "") (treasuryWallet svc)
    updatedSettlement.tokenAmount) 3)
  pure updatedSettlement

def paySettlement (svc : Service) (settlementId : String) (dto : PaySettlementDto) :
    Work SettlementRequest := do
  match ← call (.findSettlement settlementId) with
  | none => throw notFound
  | some settlement =>
    if Unpaid settlement.row.status then payFound svc settlement dto
    else throw (.conflict ("La solicitud de liquidación ya no está pendiente de pago " ++
      "(Estado actual: " ++ settlement.row.status.name ++ ")"))

def updateFound (settlementId : String) (settlement : FoundSettlement) (status : SettlementStatus)
    (event : String) : Work SettlementRequest := do
  let updated ← call (.updateSettlement settlementId status none)
  call (.emit settlement.storeUser.id event)
  pure updated

def approve (settlementId : String) (settlement : FoundSettlement) : Work SettlementRequest :=
  if settlement.row.status = .pending then
    updateFound settlementId settlement .approvedPendingPayment "settlement:approved"
  else throw (.conflict ("Solo solicitudes en PENDING pueden pasar a APPROVED_PENDING_PAYMENT " ++
    "(Estado actual: " ++ settlement.row.status.name ++ ")"))

def reject (settlementId : String) (settlement : FoundSettlement) : Work SettlementRequest :=
  if Unpaid settlement.row.status then
    updateFound settlementId settlement .rejected "settlement:rejected"
  else throw (.conflict ("Solo solicitudes en PENDING o APPROVED_PENDING_PAYMENT pueden ser " ++
    "rechazadas (Estado actual: " ++ settlement.row.status.name ++ ")"))

def updateSettlementStatus (svc : Service) (settlementId : String)
    (dto : UpdateSettlementStatusDto) :
    Work SettlementRequest := do
  match ← call (.findSettlement settlementId) with
  | none => throw notFound
  | some settlement =>
    match dto.status with
    | .approvedPendingPayment => approve settlementId settlement
    | .paid =>
      match truthy dto.receiptUrl with
      | none => throw (.badRequest
          "receiptUrl es obligatorio para marcar la liquidación como PAID")
      | some receiptUrl => paySettlement svc settlementId ⟨receiptUrl⟩
    | .rejected => reject settlementId settlement
    | .pending => throw (.badRequest ("Transición hacia el estado " ++
        SettlementStatus.pending.name ++ " no permitida"))

end Livora.StoreSettlements
