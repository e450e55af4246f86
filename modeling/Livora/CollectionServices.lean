import Livora.CollectionBooks
import Livora.SequenceManager

/-! The services of the collections and their timeout worker: `CollectionLifecycleService`,
`CollectionEscrowService`, `CollectionTrackingService`, `CollectionAuctionService` and
`CollectionsTimeoutWorker`, each as the sequence of its calls. -/

namespace Livora.CollectionServices

open DoubleRounding EffectPrograms EffectPrograms.Action RewardStrategies CollectionBooks
open PinVerification (RequestStatus truthy moreThanTwoDecimals usableKey)
open StoreBooks (toFixed2 parseCents sumNumbers centsText)
open BackOffice (Role)
open SequenceManager (isSpace)

structure Service extends PinVerification.Service where
  ipfs : Bool

def statusName : RequestStatus → String
  | .pending => "PENDING"
  | .auctionActive => "AUCTION_ACTIVE"
  | .auctionAssigned => "AUCTION_ASSIGNED"
  | .accepted => "ACCEPTED"
  | .enRoute => "EN_ROUTE"
  | .arrived => "ARRIVED"
  | .completed => "COMPLETED"
  | .cancelled => "CANCELLED"
  | .unattended => "UNATTENDED"
  | .rejectedOnSite => "REJECTED_ON_SITE"

namespace CollectionStateMachine

def allowedTransitions : RequestStatus → List RequestStatus
  | .pending => [.accepted, .cancelled, .unattended]
  | .auctionActive => [.auctionAssigned, .unattended, .cancelled]
  | .auctionAssigned => [.accepted, .cancelled, .unattended]
  | .accepted => [.enRoute, .pending, .cancelled, .rejectedOnSite, .completed]
  | .enRoute => [.arrived, .pending, .rejectedOnSite, .completed]
  | .arrived => [.completed, .rejectedOnSite, .cancelled]
  | .completed => []
  | .cancelled => []
  | .unattended => []
  | .rejectedOnSite => []

def validateTransition (currentStatus targetStatus : RequestStatus) : Except Failure Unit :=
  if currentStatus = targetStatus ∨ targetStatus ∈ allowedTransitions currentStatus then .ok ()
  else .error (.conflict ("Transición inválida de estado: No se puede cambiar de '" ++
    statusName currentStatus ++ "' a '" ++ statusName targetStatus ++ "'."))

def isTerminal (status : RequestStatus) : Bool :=
  status == .completed || status == .cancelled || status == .unattended ||
    status == .rejectedOnSite

theorem validateTransition_ok {currentStatus targetStatus : RequestStatus} :
    validateTransition currentStatus targetStatus = .ok () ↔
      currentStatus = targetStatus ∨ targetStatus ∈ allowedTransitions currentStatus := by
  unfold validateTransition
  split <;> simp_all

end CollectionStateMachine

def minutes (n : ℕ) : ℕ := n * 60 * 1000

/-- `for (const a of as) { body(a) }` -/
def forEach {α : Type} : List α → (α → Work Unit) → Work Unit
  | [], _ => pure ()
  | a :: rest, body => do
    body a
    forEach rest body

def notFound : Failure := .notFound "Solicitud de recolección no encontrada"

def withRequest {α : Type} (id : String) (body : CollectionRequest → Work α) : Work α := do
  match ← call (.findRequest id) with
  | none => throw notFound
  | some request => body request

namespace WebsocketsService

def emitCollectionCreated (payload : RequestView) : Work Unit :=
  call (.emit .collectorsActive "collection:created" (.request payload))

def emitCollectionUpdated (payload : RequestView) : Work Unit :=
  call (.emit .collectorsActive "collection:updated" (.request payload))

def emitUserEvent (userId event requestId : String) : Work Unit :=
  call (.emit (.user userId) event (.notice requestId))

end WebsocketsService

open WebsocketsService

/-! ### The collateral -/

namespace CollectionEscrowService

def validateCollectorKyc (collectorId : String) : Work Unit := do
  let collector ← call (.findUser collectorId)
  if (collector.map User.kycStatus) = some .approved then pure ()
  else throw (.forbidden ("Tu cuenta de recolector debe estar verificada administrativamente " ++
    "(KYC aprobado) antes de poder aceptar recolecciones en campo."))

def calculateRequiredEscrow (svc : Service) (itemsEstimated agreedRates : NumberRecord)
    (isDonation : Bool) : ℚ :=
  (calculateReward svc.toUpperCase itemsEstimated agreedRates isDonation).requiredEscrow

/-- What the chain shows of the wallet, zero where it cannot be asked. -/
def onChainBalance (collector : Option User) : Work ℚ :=
  match truthy (collector.bind User.walletAddress) with
  | some walletAddress => recover (do
      let text ← call (.chainBalance walletAddress)
      pure (parseCents text)) 0
  | none => pure 0

/-- The balance on the chain, or else the payments that were completed. -/
def totalBalance (collectorId : String) : Work ℚ := do
  let collector ← call (.findUser collectorId)
  let balance ← onChainBalance collector
  if balance = 0 then do
    let payments ← call (.completedPayments collectorId)
    pure (sumNumbers payments)
  else pure balance

def insufficient (requiredEscrow availableBalance : ℚ) : Failure :=
  .badRequest ("Saldo insuficiente para garantizar la recolección. Se requieren " ++
    centsText (toFixed2 requiredEscrow) ++ " LIVOs en garantía (saldo disponible: " ++
    centsText (toFixed2 (max 0 availableBalance)) ++ " LIVOs).")

def validateCollectorSolvency (collectorId : String) (requiredEscrow : ℚ) : Work Unit :=
  if requiredEscrow ≤ 0 then pure ()
  else do
    let totalBalance ← totalBalance collectorId
    let escrows ← call (.activeEscrows collectorId)
    let availableBalance := fl (totalBalance - sumNumbers escrows)
    if availableBalance < requiredEscrow then throw (insufficient requiredEscrow availableBalance)
    else pure ()

end CollectionEscrowService

open CollectionEscrowService

/-! ### Acceptance, cancellation and release -/

namespace CollectionLifecycleService

def writeAndEmit (id : String) (change : Change) : Work RequestView := do
  let updated ← call (.writeRequest id change)
  emitCollectionUpdated updated.stripPin
  pure updated.stripPin

def requiredEscrow (svc : Service) (row : CollectionRequest) : ℚ :=
  calculateRequiredEscrow svc row.itemsEstimated (row.agreedRates.getD []) row.isDonation

def Takeable (status : RequestStatus) : Prop := status = .pending ∨ status = .auctionAssigned

instance (status : RequestStatus) : Decidable (Takeable status) :=
  inferInstanceAs (Decidable (_ ∨ _))

def accept (svc : Service) (id userId : String) (row : CollectionRequest) : Work RequestView :=
  if Takeable row.status then
    match truthy row.assignedCenterId with
    | none => throw (.badRequest
        "La solicitud aún no tiene un Centro de Acopio asignado con tarifario.")
    | some _ => do
      validateCollectorKyc userId
      validateCollectorSolvency userId (requiredEscrow svc row)
      writeAndEmit id (.accept userId (requiredEscrow svc row))
  else throw (.conflict "Esta solicitud ya no está disponible para recolección")

def cancelForbidden : Failure := .forbidden "No tienes permiso para cancelar esta solicitud"

def cancelByCollector (id userId : String) (row : CollectionRequest) : Work RequestView :=
  if row.collectorId = some userId then writeAndEmit id (.cancelByCollector userId)
  else throw cancelForbidden

def Unaccepted (status : RequestStatus) : Prop :=
  status = .pending ∨ status = .auctionActive ∨ status = .auctionAssigned

instance (status : RequestStatus) : Decidable (Unaccepted status) :=
  inferInstanceAs (Decidable (_ ∨ _ ∨ _))

def cancelByHousehold (id userId : String) (row : CollectionRequest) : Work RequestView :=
  if row.householdId = userId then
    if Unaccepted row.status then writeAndEmit id (.cancelByHousehold userId)
    else throw (.badRequest
      "No puedes cancelar una solicitud que ya fue aceptada o se encuentra en ruta")
  else throw cancelForbidden

def updateStatus (svc : Service) (id userId : String) (role : Role) (status : RequestStatus) :
    Work RequestView :=
  withRequest id fun row =>
    match role, status with
    | .recolector, .accepted => accept svc id userId row
    | .recolector, .cancelled => cancelByCollector id userId row
    | .hogar, .cancelled => cancelByHousehold id userId row
    | _, _ => throw (.badRequest "Acción no permitida para el rol actual")

def abandonCollectionRequest (id collectorUserId : String) : Work RequestView :=
  withRequest id fun request =>
    if request.collectorId = some collectorUserId then
      if request.status = .accepted then do
        let updatedRequest ← call (.writeRequest id (.abandon collectorUserId))
        emitCollectionCreated updatedRequest.stripPin
        emitCollectionUpdated updatedRequest.stripPin
        pure updatedRequest.stripPin
      else throw (.badRequest ("Solo solicitudes en estado ACCEPTED pueden ser abandonadas " ++
        "(Estado actual: " ++ statusName request.status ++ ")"))
    else throw (.forbidden ("Solo el recolector asignado puede liberar o reportar abandono " ++
      "de esta solicitud"))

structure EditCollectionRequestDto where
  itemsEstimated : Option NumberRecord
  description : Option String

def inProgress : Failure := .conflict "Tu solicitud ya está en curso y no puede ser modificada"

def editCollectionRequest (householdUserId id : String) (dto : EditCollectionRequestDto) :
    Work (Option RequestView) :=
  withRequest id fun request =>
    if request.householdId = householdUserId then
      if request.status = .pending then do
        let found ← call (.editRequest id householdUserId
          (dto.itemsEstimated.getD request.itemsEstimated)
          (dto.description.or request.description))
        if found then do
          match ← call (.findRequest id) with
          | none => do
            call (.emit .collectorsActive "collection:updated" .nothing)
            pure none
          | some updated => do
            emitCollectionUpdated updated.stripPin
            pure (some updated.stripPin)
        else throw inProgress
      else throw inProgress
    else throw (.forbidden "No tienes permisos para modificar esta solicitud")

/-! ### At the door -/

def lowered (reputationScore : ℚ) : ℚ := max 1 (toFixed (fl (reputationScore - 1 / 2)) 2)

def penalize : Option User → Work Unit
  | some household => call (.setReputation household.id (lowered household.reputationScore))
  | none => pure ()

/-- Two tokens from the household's vault to the collector; what it throws is only logged. -/
def compensate (svc : Service) (householdVault : Option String) (collector : Option User) :
    Work Unit :=
  match usableKey svc.toService householdVault, truthy (collector.bind User.walletAddress) with
  | some encryptedPrivateKey, some walletAddress => recover (do
      match svc.unlock encryptedPrivateKey svc.encryptionKey with
      | none => throw .outside
      | some account => call (.compensate account walletAddress 2)) ()
  | _, _ => pure ()

def findVault : Option User → Work (Option String)
  | some user => call (.findVault user.id)
  | none => pure none

def noShow (svc : Service) (id collectorId : String) (request : FoundRequest) :
    Work RequestView := do
  let updated ← call (.writeRequest id (.reportNoShow collectorId))
  penalize request.household
  let householdVault ← findVault request.household
  compensate svc householdVault request.collector
  emitCollectionUpdated updated.stripPin
  pure updated.stripPin

def remainingMin (arrivedAt now : ℕ) : ℤ := ⌈(5 * 60 * 1000 - ((now : ℚ) - arrivedAt)) / 60000⌉

def waitAtDoor (svc : Service) (arrivedAt : Option ℕ) : Work Unit :=
  match arrivedAt, svc.testEnvironment with
  | some arrivedAt, false => do
    let now ← call .clock
    if now < arrivedAt + minutes 5 then
      throw (.badRequest ("Debes esperar al menos 5 minutos desde tu llegada antes de reportar " ++
        "inasistencia. Faltan aprox. " ++ toString (remainingMin arrivedAt now) ++ " minuto(s)."))
    else pure ()
  | _, _ => pure ()

def reportNoShow (svc : Service) (id collectorId : String) : Work RequestView := do
  match ← call (.findParties id) with
  | none => throw notFound
  | some request =>
    if request.row.collectorId = some collectorId then
      if request.row.status = .arrived then do
        waitAtDoor svc request.row.arrivedAt
        noShow svc id collectorId request
      else throw (.badRequest ("Solo solicitudes en estado ARRIVED pueden reportarse como " ++
        "desatendidas (Estado actual: " ++ statusName request.row.status ++ ")"))
    else throw (.forbidden "Solo el recolector asignado puede reportar inasistencia")

/-- `text.trim().length`, in UTF-16 code units. -/
def trimmedLength (text : String) : ℕ :=
  (((text.toList.dropWhile isSpace).reverse.dropWhile isSpace).map fun c =>
    if c.val < 0x10000 then 1 else 2).sum

def rejectOnSite (id collectorId reason : String) : Work RequestView :=
  withRequest id fun request =>
    if request.collectorId = some collectorId then
      if request.status = .arrived then
        if trimmedLength reason < 5 then
          throw (.badRequest "Debes indicar un motivo de rechazo de al menos 5 caracteres")
        else writeAndEmit id (.rejectOnSite collectorId reason)
      else throw (.badRequest ("Solo solicitudes en estado ARRIVED pueden ser rechazadas en " ++
        "sitio (Estado actual: " ++ statusName request.status ++ ")"))
    else throw (.forbidden "Solo el recolector asignado puede reportar rechazo en sitio")

def checkAuctionFallbacks : Work Unit := do
  let now ← call .clock
  let expired ← call (.findExpiredAuctions now none)
  forEach expired fun req => do
    let _ ← call (.writeRequest req.row.id .revertAuction)
    pure ()

/-! ### Creation -/

structure CreateCollectionDto where
  itemsEstimated : NumberRecord
  assignmentMode : AssignmentMode
  description : Option String
  isDonation : Bool
  file : Bool

def totalKg (items : NumberRecord) : ℚ := items.foldl (fun sum entry => fl (sum + entry.2.val)) 0

def weightFailure (entry : String × Double) : Option Failure :=
  if entry.2.val < 1 / 2 then
    some (.badRequest ("El peso mínimo para " ++ entry.1 ++ " es de 0.5 kg"))
  else if moreThanTwoDecimals entry.2 then
    some (.badRequest ("El peso de " ++ entry.1 ++ " no puede tener más de 2 decimales"))
  else none

def itemsFailure (items : NumberRecord) : Option Failure :=
  if items = [] then some (.badRequest "itemsEstimated no puede estar vacío")
  else if totalKg items < 1 / 2 then
    some (.badRequest "El peso total mínimo de recolección es de 0.5 kg")
  else items.findSome? weightFailure

def uploadPhoto (svc : Service) (file : Bool) : Work Unit :=
  if file && svc.ipfs then
    rescue (call .uploadPhoto) fun _ => throw (.badRequest "No se pudo procesar la foto en IPFS")
  else pure ()

/-- The clock is read for an auction only. -/
def auctionExpiresAt : AssignmentMode → Work (Option ℕ)
  | .auction => do
    let now ← call .clock
    pure (some (now + minutes 15))
  | .automatic => pure none

def initialStatus : AssignmentMode → RequestStatus
  | .auction => .auctionActive
  | .automatic => .pending

def cachePin (svc : Service) (id pin : String) : Work Unit :=
  if svc.redis then call (.cachePin id pin) else pure ()

def publish (svc : Service) (userId : String) (dto : CreateCollectionDto) : Work RequestView := do
  let drawn ← call .random
  let verificationPin := toString (1000 + drawn.val)
  uploadPhoto svc dto.file
  let householdUser ← call (.findUser userId)
  let auctionExpiresAt ← auctionExpiresAt dto.assignmentMode
  let newRequest ← call (.createRequest {
    status := initialStatus dto.assignmentMode
    assignmentMode := dto.assignmentMode
    itemsEstimated := dto.itemsEstimated
    description := dto.description
    verificationPin := verificationPin
    householdId := userId
    auctionExpiresAt := auctionExpiresAt
    isDonation := dto.isDonation || decide (householdUser.map User.kycStatus ≠ some .approved) })
  cachePin svc newRequest.id verificationPin
  emitCollectionCreated newRequest.stripPin
  pure newRequest.whole

def create (svc : Service) (userId : String) (dto : CreateCollectionDto) : Work RequestView := do
  match ← call (.findActiveRequest userId) with
  | some _ => throw (.badRequest ("El hogar ya tiene una solicitud de recolección activa. Debe " ++
      "completarse o cancelarse antes de crear una nueva."))
  | none =>
    match itemsFailure dto.itemsEstimated with
    | some failure => throw failure
    | none => publish svc userId dto

end CollectionLifecycleService

/-! ### On the way -/

namespace CollectionTrackingService

/-- The route goes to Redis; only what the table throws is not caught. -/
def cacheRoute (svc : Service) (updated : CollectionRequest) : Work Unit :=
  if svc.redis then do
    let transportType ← call (.findTransport (updated.collectorId.getD ""))
    recover (call (.cacheRoute ⟨updated.id, updated.collectorId, updated.householdId,
      (truthy transportType).getD "MOTO_CARGA"⟩)) ()
  else pure ()

def startRoute (svc : Service) (id collectorId : String) : Work RequestView :=
  withRequest id fun request =>
    if request.collectorId = some collectorId then
      match request.status with
      | .enRoute => pure request.stripPin
      | .accepted => do
        let now ← call .clock
        let updated ← call (.writeRequest id (.startRoute collectorId now))
        cacheRoute svc updated
        emitCollectionUpdated updated.stripPin
        pure updated.stripPin
      | status => throw (.badRequest ("Solo solicitudes en estado ACCEPTED pueden iniciar ruta " ++
          "(Estado actual: " ++ statusName status ++ ")"))
    else throw (.forbidden "Solo el recolector asignado puede iniciar la ruta")

def purgeRoutes (svc : Service) (id : String) : Work Unit :=
  if svc.redis then do
    recover (call (.purgeRoute id .active)) ()
    recover (call (.purgeRoute id .location)) ()
    recover (call (.purgeRoute id .route)) ()
  else pure ()

def reachDestination (svc : Service) (id collectorId : String) : Work RequestView :=
  withRequest id fun request =>
    if request.collectorId = some collectorId then
      match request.status with
      | .arrived => pure request.stripPin
      | .enRoute => do
        let now ← call .clock
        let updated ← call (.writeRequest id (.reachDestination collectorId now))
        purgeRoutes svc id
        emitUserEvent request.householdId "collector:arrived" id
        emitCollectionUpdated updated.stripPin
        pure updated.stripPin
      | status => throw (.badRequest ("Solo solicitudes en estado EN_ROUTE pueden marcar " ++
          "llegada (Estado actual: " ++ statusName status ++ ")"))
    else throw (.forbidden "Solo el recolector asignado puede marcar su llegada")

end CollectionTrackingService

/-! ### Auctions and claims -/

namespace CollectionAuctionService

/-- It drops a `receptionPin`, which no request has. -/
def stripPin (request : CollectionRequest) : RequestView := request.whole

def notFound : Failure := .notFound "Solicitud no encontrada"

def withRequest {α : Type} (id : String) (body : CollectionRequest → Work α) : Work α := do
  match ← call (.findRequest id) with
  | none => throw notFound
  | some request => body request

def Biddable (status : RequestStatus) : Prop := status = .pending ∨ status = .auctionActive

instance (status : RequestStatus) : Decidable (Biddable status) :=
  inferInstanceAs (Decidable (_ ∨ _))

def rateFailure (entry : String × Double) : Option Failure :=
  if entry.2.val < fl (1 / 20) then
    some (.badRequest ("La tarifa propuesta para " ++ entry.1 ++ " debe ser de al menos 0.05 PEN"))
  else if moreThanTwoDecimals entry.2 then
    some (.badRequest ("La tarifa propuesta para " ++ entry.1 ++
      " no puede tener más de 2 decimales"))
  else none

def effectiveRates (centerId : String) (proposedRates : NumberRecord) : Work NumberRecord :=
  match proposedRates.findSome? rateFailure with
  | some failure => throw failure
  | none =>
    if proposedRates = [] then do
      let priceList ← call (.priceList centerId)
      if priceList = [] then throw (.badRequest
        "Debes registrar tu tarifario por kg en tu perfil antes de enviar propuestas.")
      else pure priceList
    else pure proposedRates

/-- `proposedRates[mat] || proposedRates[mat.toUpperCase()] || 0` -/
def bidRate (svc : Service) (proposedRates : NumberRecord) (mat : String) : ℚ :=
  ((rateUnder proposedRates mat).or (rateUnder proposedRates (svc.toUpperCase mat))).getD 0

def totalEstimated (svc : Service) (items proposedRates : NumberRecord) : ℚ :=
  items.foldl (fun total entry =>
    fl (total + fl (entry.2.val * bidRate svc proposedRates entry.1))) 0

def offerOf (svc : Service) (items proposedRates : NumberRecord) : Offer where
  proposedRates := proposedRates
  totalEstimatedPenn := toFixed (totalEstimated svc items proposedRates) 2
  totalEstimatedEco := toFixed (fl (totalEstimated svc items proposedRates * fl (25 / 100))) 2

def storeBid (centerId requestId : String) (offer : Offer) : Work AcopioBid := do
  match ← call (.findBid requestId centerId none) with
  | some existingBid => call (.updateBid existingBid.id offer)
  | none => call (.createBid requestId centerId offer)

/-- The auction is over where it has an end and the clock is past it. -/
def checkExpiry (auctionExpiresAt : Option ℕ) : Work Unit :=
  match auctionExpiresAt with
  | none => pure ()
  | some auctionExpiresAt => do
    let now ← call .clock
    if auctionExpiresAt < now then
      throw (.badRequest "El tiempo de la subasta de 15 minutos ha expirado")
    else pure ()

def submitOpen (svc : Service) (centerId requestId : String) (proposedRates : NumberRecord)
    (request : CollectionRequest) : Work AcopioBid := do
  checkExpiry request.auctionExpiresAt
  let rates ← effectiveRates centerId proposedRates
  let bid ← storeBid centerId requestId (offerOf svc request.itemsEstimated rates)
  emitUserEvent request.householdId "auction:bid" requestId
  emitCollectionUpdated (stripPin request)
  pure bid

def submitBid (svc : Service) (centerId requestId : String) (proposedRates : NumberRecord) :
    Work AcopioBid :=
  withRequest requestId fun request =>
    if Biddable request.status then
      if request.assignmentMode = .auction then
        submitOpen svc centerId requestId proposedRates request
      else throw (.badRequest "La solicitud no está configurada en modo AUCTION")
    else throw (.badRequest
      "Solo se pueden enviar propuestas a solicitudes en estado PENDING o AUCTION_ACTIVE")

def withdrawBid (centerId requestId : String) (bidId : Option String) : Work Unit := do
  match ← call (.findBid requestId centerId bidId) with
  | none => throw (.notFound "Propuesta de subasta no encontrada")
  | some bid =>
    if bid.status = .pending then call (.withdrawBid bid.id)
    else throw (.badRequest "Solo se pueden retirar propuestas en estado PENDING")

def unavailable : Failure := .badRequest "La solicitud ya no se encuentra disponible para subasta"

/-- The transaction; its writes are seen by nobody before it commits. -/
def assign (requestId : String) (selectedBid : AcopioBid) : Work CollectionRequest := do
  match ← call (.rereadRequest requestId) with
  | none => throw unavailable
  | some currentReq =>
    if Biddable currentReq.status then do
      let others ← call (.otherBids requestId selectedBid.id)
      call (.commitSelection requestId selectedBid others)
    else throw unavailable

def selectBid (householdId requestId bidId : String) : Work RequestView :=
  withRequest requestId fun request =>
    if request.householdId = householdId then
      if Biddable request.status then do
        match ← call (.findBidById bidId) with
        | none => throw (.notFound "Propuesta no encontrada para esta solicitud")
        | some selectedBid =>
          if selectedBid.requestId = requestId then
            if selectedBid.status = .pending then do
              let updatedRequest ← assign requestId selectedBid
              emitCollectionCreated (stripPin updatedRequest)
              emitCollectionUpdated (stripPin updatedRequest)
              pure updatedRequest.whole
            else throw (.badRequest "La propuesta seleccionada no está disponible")
          else throw (.notFound "Propuesta no encontrada para esta solicitud")
      else throw (.badRequest
        "La solicitud ya no se encuentra en estado PENDING ni AUCTION_ACTIVE")
    else throw (.forbidden "No tienes permisos para gestionar esta solicitud")

def claimUnassigned (centerId requestId : String) : Work RequestView := do
  let priceList ← call (.priceList centerId)
  if priceList = [] then throw (.badRequest
    "Debes registrar tu tarifario por kg antes de tomar solicitudes automáticas.")
  else do
    let updatedRequest ← call (.writeRequest requestId (.claimAutomatic centerId priceList))
    emitCollectionUpdated (stripPin updatedRequest)
    pure updatedRequest.whole

def claimAutomatic (centerId requestId : String) : Work RequestView :=
  withRequest requestId fun request =>
    if request.status = .pending then
      if request.assignmentMode = .automatic then
        match truthy request.assignedCenterId with
        | some _ => throw (.badRequest "La solicitud ya fue tomada por otro Centro de Acopio")
        | none => claimUnassigned centerId requestId
      else throw (.badRequest "La solicitud no está configurada en modo AUTOMATIC")
    else throw (.badRequest "La solicitud no está en estado PENDING")

/-- An auction without an accepted bid is over: its open bids expire, and it is a request like any
other. -/
def expireAuction (req : FoundAuction) (emit : CollectionRequest → Work Unit) : Work Unit :=
  if req.bids.any fun b => b.status == .accepted then pure ()
  else do
    call (.expireBids req.row.id)
    let updated ← call (.writeRequest req.row.id .revertAuction)
    emit updated

def checkAuctionFallbacks : Work Unit := do
  let now ← call .clock
  let expiredAuctions ← call (.findExpiredAuctions now none)
  forEach expiredAuctions fun req =>
    expireAuction req fun updated => emitCollectionUpdated (stripPin updated)

end CollectionAuctionService

/-! ### The timeout worker -/

namespace CollectionsTimeoutWorker

/-- The change for each of the rows; what it throws is only logged. -/
def expireEach (ids : List String) (change : Change) : Work Unit :=
  forEach ids fun id => recover (do
    let _ ← call (.writeRequest id change)
    pure ()) ()

def processPendingTimeouts : Work Unit := do
  let now ← call .clock
  let expiredRequests ← call (.findExpiredPending (now - minutes 30))
  expireEach (expiredRequests.map Request.id) .pendingTimeout

def processAuctionFallbacks : Work Unit := do
  let now ← call .clock
  let expiredAuctions ← call (.findExpiredAuctions now (some 50))
  forEach expiredAuctions fun req =>
    recover (CollectionAuctionService.expireAuction req fun _ => pure ()) ()

def processAcceptedInactivity : Work Unit := do
  let now ← call .clock
  let inactiveRequests ← call (.findInactive (now - minutes 10))
  expireEach (inactiveRequests.map Request.id) .acceptedInactivity

/-- The household loses reputation, if it can be written. -/
def closeUnattended (req : FoundRequest) : Work Unit := do
  let _ ← call (.writeRequest req.row.id .arrivedNoShow)
  recover (CollectionLifecycleService.penalize req.household) ()

def processArrivedNoShowTimeouts : Work Unit := do
  let now ← call .clock
  let unverifiedArrivedRequests ← call (.findWaiting (now - minutes 10))
  forEach unverifiedArrivedRequests fun req => recover (closeUnattended req) ()

end CollectionsTimeoutWorker

/-! ### The callers -/

inductive Caller where
  | create (userId : String) (dto : CollectionLifecycleService.CreateCollectionDto)
  | updateStatus (id userId : String) (role : Role) (status : RequestStatus)
  | abandonCollectionRequest (id collectorUserId : String)
  | editCollectionRequest (householdUserId id : String)
      (dto : CollectionLifecycleService.EditCollectionRequestDto)
  | reportNoShow (id collectorId : String)
  | rejectOnSite (id collectorId reason : String)
  | lifecycleFallbacks
  | startRoute (id collectorId : String)
  | reachDestination (id collectorId : String)
  | submitBid (centerId requestId : String) (proposedRates : NumberRecord)
  | withdrawBid (centerId requestId : String) (bidId : Option String)
  | selectBid (householdId requestId bidId : String)
  | claimAutomatic (centerId requestId : String)
  | auctionFallbacks
  | pendingTimeouts
  | workerFallbacks
  | acceptedInactivity
  | arrivedNoShowTimeouts

inductive Result where
  | request (view : RequestView)
  | bid (bid : AcopioBid)
  | nothing
deriving DecidableEq

def returning {α : Type} (f : α → Result) (a : Work α) : Work Result := do
  let x ← a
  pure (f x)

def program (svc : Service) : Caller → Work Result
  | .create userId dto => returning .request (CollectionLifecycleService.create svc userId dto)
  | .updateStatus id userId role status =>
    returning .request (CollectionLifecycleService.updateStatus svc id userId role status)
  | .abandonCollectionRequest id collectorUserId =>
    returning .request (CollectionLifecycleService.abandonCollectionRequest id collectorUserId)
  | .editCollectionRequest householdUserId id dto =>
    returning (fun view => (view.map Result.request).getD .nothing)
      (CollectionLifecycleService.editCollectionRequest householdUserId id dto)
  | .reportNoShow id collectorId =>
    returning .request (CollectionLifecycleService.reportNoShow svc id collectorId)
  | .rejectOnSite id collectorId reason =>
    returning .request (CollectionLifecycleService.rejectOnSite id collectorId reason)
  | .lifecycleFallbacks =>
    returning (fun _ => .nothing) CollectionLifecycleService.checkAuctionFallbacks
  | .startRoute id collectorId =>
    returning .request (CollectionTrackingService.startRoute svc id collectorId)
  | .reachDestination id collectorId =>
    returning .request (CollectionTrackingService.reachDestination svc id collectorId)
  | .submitBid centerId requestId proposedRates =>
    returning .bid (CollectionAuctionService.submitBid svc centerId requestId proposedRates)
  | .withdrawBid centerId requestId bidId =>
    returning (fun _ => .nothing) (CollectionAuctionService.withdrawBid centerId requestId bidId)
  | .selectBid householdId requestId bidId =>
    returning .request (CollectionAuctionService.selectBid householdId requestId bidId)
  | .claimAutomatic centerId requestId =>
    returning .request (CollectionAuctionService.claimAutomatic centerId requestId)
  | .auctionFallbacks =>
    returning (fun _ => .nothing) CollectionAuctionService.checkAuctionFallbacks
  | .pendingTimeouts =>
    returning (fun _ => .nothing) CollectionsTimeoutWorker.processPendingTimeouts
  | .workerFallbacks =>
    returning (fun _ => .nothing) CollectionsTimeoutWorker.processAuctionFallbacks
  | .acceptedInactivity =>
    returning (fun _ => .nothing) CollectionsTimeoutWorker.processAcceptedInactivity
  | .arrivedNoShowTimeouts =>
    returning (fun _ => .nothing) CollectionsTimeoutWorker.processArrivedNoShowTimeouts

end Livora.CollectionServices
