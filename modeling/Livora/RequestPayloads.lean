import Livora.BatchBooks
import Livora.CollectionUniqueness
import Livora.NamedPools

/-! What is told of a request while it is under way: the events of the services, what
their calls return, and what can be asked about the requests and about the batches that
hold them. The PIN is for the household alone. A verification shows the request only
once it has completed it, so that nothing of it belongs here. -/

namespace Livora.RequestPayloads

open TransitionRuns EffectPrograms EffectPrograms.Action ProgramPools ProgramPools.System
open NamedPools CollectionBooks CollectionServices CollectionStages CollectionRaces BatchBooks
open BackOffice (Role)
open PinVerification (RequestStatus Delivery)

structure Session where
  userId : String
  role : Role
deriving DecidableEq

/-! ### Questions about requests and batches -/

structure Paging where
  page : ℕ
  limit : ℕ
  sortBy : String
  ascending : Bool

structure SortKeys where
  createdAt : ℕ
  updatedAt : ℕ
  status : ℕ

def SortKeys.key (keys : SortKeys) (sortBy : String) : ℕ :=
  if sortBy = "updatedAt" then keys.updatedAt
  else if sortBy = "status" then keys.status
  else keys.createdAt

namespace Paging

variable {α : Type}

def sorted (paging : Paging) (keys : α → SortKeys) (rows : List α) : List α :=
  rows.mergeSort fun a b =>
    if paging.ascending then decide ((keys a).key paging.sortBy ≤ (keys b).key paging.sortBy)
    else decide ((keys b).key paging.sortBy ≤ (keys a).key paging.sortBy)

def cut (paging : Paging) (rows : List α) : List α :=
  (rows.drop ((paging.page - 1) * paging.limit)).take paging.limit

theorem mem_of_cut {paging : Paging} {rows : List α} {a : α} (h : a ∈ paging.cut rows) :
    a ∈ rows :=
  List.mem_of_mem_drop (List.mem_of_mem_take h)

theorem mem_of_sorted {paging : Paging} {keys : α → SortKeys} {rows : List α} {a : α}
    (h : a ∈ paging.cut (paging.sorted keys rows)) : a ∈ rows :=
  List.mem_mergeSort.mp (mem_of_cut h)

end Paging

def requestStatuses : List RequestStatus :=
  [.pending, .auctionActive, .auctionAssigned, .accepted, .enRoute, .arrived, .completed,
    .cancelled, .unattended, .rejectedOnSite]

def requestKeys (row : CollectionRequest) : SortKeys :=
  ⟨row.createdAt, row.updatedAt, requestStatuses.idxOf row.status⟩

def batchStatuses : List BatchStatus :=
  [.open, .inTransit, .processing, .partiallyAccepted, .received, .consolidated,
    .flaggedForReview, .disputed, .rerouted]

def batchKeys (batch : Batch) : SortKeys :=
  ⟨batch.createdAt, batch.updatedAt, batchStatuses.idxOf batch.status⟩

/-- What is asked beside the requests: the batches, and the users who are centres. -/
structure Tables where
  batches : List Batch
  centers : List String

namespace CollectionsRepository

def offered (row : CollectionRequest) : Bool :=
  row.status == .pending && row.assignedCenterId.isSome && row.collectorId.isNone

def underWay : RequestStatus → Bool
  | .accepted => true
  | .enRoute => true
  | .arrived => true
  | .auctionAssigned => true
  | _ => false

/-- The rows that a user of the role may list; none for a role that may list no rows. -/
def listed (user : Session) (status : Option RequestStatus) :
    Option (CollectionRequest → Bool) :=
  match user.role with
  | .hogar => some fun row => row.householdId == user.userId && status.all (row.status == ·)
  | .centroAcopio => some fun row =>
    (row.status == .pending || row.status == .auctionActive) && row.assignmentMode == .auction ||
      row.status == .pending && row.assignmentMode == .automatic && row.assignedCenterId.isNone ||
      row.assignedCenterId == some user.userId
  | .recolector =>
    match status with
    | some .pending => some offered
    | some status => some fun row =>
      row.status == status && row.collectorId == some user.userId
    | none => some fun row =>
      offered row || row.collectorId == some user.userId && underWay row.status
  | .admin => some fun _ => true
  | _ => none

def shownTo (role : Role) (row : CollectionRequest) : RequestView :=
  if role = .hogar then row.whole else row.stripPin

def findAll (w : World) (user : Session) (status : Option RequestStatus) (paging : Paging) :
    Except Failure (List RequestView) :=
  match listed user status with
  | none => .error (.forbidden "Rol no autorizado para listar solicitudes")
  | some admits => .ok ((paging.cut (paging.sorted requestKeys (w.requests.filter admits))).map
      (shownTo user.role))

structure Radar where
  /-- How far each request is from the place asked about, in metres. -/
  distance : String → ℕ
  radius : ℕ
  centerId : Option String
  onlyActiveBatches : Bool
  page : ℕ
  limit : ℕ

def hasOpenBatch (tables : Tables) (collectorId : String) (centerId : Option String) : Bool :=
  tables.batches.any fun b =>
    b.collectorId == collectorId && b.status == .open && b.destinationCenterId == centerId

/-- The query names its columns; the PIN is not one of them. -/
def findAvailable (w : World) (tables : Tables) (collectorId : String) (query : Radar) :
    List RequestView :=
  let rows := w.requests.filter fun row =>
    offered row && decide (query.distance row.id ≤ query.radius) &&
      query.centerId.all (fun centerId => row.assignedCenterId == some centerId) &&
      (!query.onlyActiveBatches || hasOpenBatch tables collectorId row.assignedCenterId)
  let sorted := rows.mergeSort fun a b => decide (query.distance a.id ≤ query.distance b.id)
  ((sorted.drop ((query.page - 1) * query.limit)).take query.limit).map Request.stripPin

def findOne (w : World) (id : String) (user : Session) : Except Failure RequestView :=
  match w.findRequest id with
  | none => .error (.notFound "Solicitud de recolección no encontrada")
  | some row =>
    if user.role = .hogar ∧ row.householdId ≠ user.userId then
      .error (.forbidden "No tienes permisos para ver esta solicitud")
    else .ok (shownTo user.role row)

end CollectionsRepository

structure BatchView where
  batch : Batch
  requests : List RequestView

namespace BatchesService

def withRequests (w : World) (batch : Batch) : BatchView :=
  ⟨batch, (w.requests.filter fun row => row.batchId == some batch.id).map Request.whole⟩

def listed (user : Session) (status : Option BatchStatus) : Option (Batch → Bool) :=
  match user.role with
  | .recolector => some fun b => b.collectorId == user.userId && status.all (b.status == ·)
  | .centroAcopio => some fun b =>
    b.destinationCenterId == some user.userId && status.all (b.status == ·)
  | .admin => some fun b => status.all (b.status == ·)
  | _ => none

def findAll (w : World) (tables : Tables) (user : Session) (status : Option BatchStatus)
    (paging : Paging) : Except Failure (List BatchView) :=
  match listed user status with
  | none => .error (.forbidden "Rol no autorizado para listar lotes")
  | some admits => .ok ((paging.cut (paging.sorted batchKeys (tables.batches.filter admits))).map
      (withRequests w))

def getOpenBatch (w : World) (tables : Tables) (collectorId : String) (centerId : Option String) :
    List BatchView :=
  let rows := tables.batches.filter fun b =>
    b.collectorId == collectorId && b.status == .open &&
      centerId.all fun centerId => b.destinationCenterId == some centerId
  (rows.mergeSort fun a b => decide (b.createdAt ≤ a.createdAt)).map (withRequests w)

def notFound : Failure := .notFound "Lote no encontrado"

def findBatch (tables : Tables) (id : String) : Option Batch :=
  tables.batches.find? fun b => b.id == id

def findOne (w : World) (tables : Tables) (id : String) (user : Session) :
    Except Failure BatchView :=
  match findBatch tables id with
  | none => .error notFound
  | some batch =>
    if user.role = .recolector ∧ batch.collectorId ≠ user.userId then
      .error (.forbidden "No tienes permiso para consultar este lote")
    else if user.role = .centroAcopio ∧
        batch.destinationCenterId.any (fun centerId => centerId != user.userId) then
      .error (.forbidden "Este lote no está destinado a tu centro de acopio")
    else .ok (withRequests w batch)

/-- The batch on its way: it goes to the centre and to the collector, and is returned. -/
def updateBatch (w : World) (tables : Tables) (id collectorId destinationCenterId : String) :
    Except Failure BatchView :=
  match findBatch tables id with
  | none => .error notFound
  | some batch =>
    if batch.collectorId ≠ collectorId then
      .error (.forbidden "No tienes permisos para modificar este lote")
    else if batch.status ≠ .open then
      .error (.badRequest "Solo se pueden actualizar lotes en estado OPEN")
    else if destinationCenterId ∈ tables.centers then
      .ok (withRequests w { batch with
        destinationCenterId := some destinationCenterId, status := .inTransit,
        updatedAt := w.now })
    else .error (.badRequest
      "El centro de acopio especificado no existe o no posee un rol autorizado")

end BatchesService

inductive Query where
  | findAll (status : Option RequestStatus) (paging : Paging)
  | findAvailable (query : CollectionsRepository.Radar)
  | findOne (id : String)
  | findAllBatches (status : Option BatchStatus) (paging : Paging)
  | getOpenBatch (centerId : Option String)
  | findOneBatch (id : String)
  | updateBatch (id destinationCenterId : String)

def Query.roles : Query → List Role
  | .findAll _ _ => [.hogar, .recolector, .centroAcopio, .admin]
  | .findAvailable _ => [.recolector, .admin]
  | .findOne _ => [.hogar, .recolector, .centroAcopio, .admin]
  | .findAllBatches _ _ => [.recolector, .centroAcopio, .admin]
  | .getOpenBatch _ => [.recolector]
  | .findOneBatch _ => [.recolector, .centroAcopio, .admin]
  | .updateBatch _ _ => [.recolector]

def answer (w : World) (tables : Tables) (user : Session) (query : Query) :
    Except Failure (List RequestView) :=
  if user.role ∈ query.roles then
    match query with
    | .findAll status paging => CollectionsRepository.findAll w user status paging
    | .findAvailable query => .ok (CollectionsRepository.findAvailable w tables user.userId query)
    | .findOne id => (CollectionsRepository.findOne w id user).map fun view => [view]
    | .findAllBatches status paging =>
      (BatchesService.findAll w tables user status paging).map (List.flatMap BatchView.requests)
    | .getOpenBatch centerId =>
      .ok ((BatchesService.getOpenBatch w tables user.userId centerId).flatMap BatchView.requests)
    | .findOneBatch id => (BatchesService.findOne w tables id user).map BatchView.requests
    | .updateBatch id destinationCenterId =>
      (BatchesService.updateBatch w tables id user.userId destinationCenterId).map
        BatchView.requests
  else .error (.forbidden "Forbidden resource")

/-! ### The callers -/

def session : Caller → Option Session
  | .create userId _ => some ⟨userId, .hogar⟩
  | .updateStatus _ userId role _ => some ⟨userId, role⟩
  | .abandonCollectionRequest _ collectorUserId => some ⟨collectorUserId, .recolector⟩
  | .editCollectionRequest householdUserId _ _ => some ⟨householdUserId, .hogar⟩
  | .reportNoShow _ collectorId => some ⟨collectorId, .recolector⟩
  | .rejectOnSite _ collectorId _ => some ⟨collectorId, .recolector⟩
  | .startRoute _ collectorId => some ⟨collectorId, .recolector⟩
  | .reachDestination _ collectorId => some ⟨collectorId, .recolector⟩
  | .submitBid centerId _ _ => some ⟨centerId, .centroAcopio⟩
  | .withdrawBid centerId _ _ => some ⟨centerId, .centroAcopio⟩
  | .selectBid householdId _ _ => some ⟨householdId, .hogar⟩
  | .claimAutomatic centerId _ => some ⟨centerId, .centroAcopio⟩
  | _ => none

/-- The callers of `CollectionAuctionService` that publish a request. -/
def auctions : Caller → Bool
  | .submitBid _ _ _ => true
  | .selectBid _ _ _ => true
  | .claimAutomatic _ _ => true
  | .auctionFallbacks => true
  | _ => false

structure Record where
  /-- The household that a request showed. -/
  households : List (String × String)
  /-- The requests that went out with their PIN. -/
  published : List String
deriving DecidableEq

def Shows (pin : Bool) : Op → Prop
  | .emit room _ (.request view) => room = .collectorsActive ∧ view.verificationPin.isSome = pin
  | _ => True

def note (t : Record) (i : Op) (r : Except Failure (Reply i)) : Record :=
  match i, r with
  | .findRequest id, .ok (some row) =>
    { t with households := (id, row.householdId) :: t.households }
  | .createRequest draft, .ok row =>
    { t with
      households := (row.id, draft.householdId) :: (row.id, row.householdId) :: t.households }
  | .commitSelection id _ _, .ok row =>
    { t with households := (id, row.householdId) :: t.households }
  | .emit _ _ (.request view), .ok _ =>
    if view.verificationPin.isSome then { t with published := view.id :: t.published } else t
  | _, _ => t

def telling : Protocol Record (Caller × Op) fun i => Except Failure (Reply i.2) where
  Allowed _ i := Shows (auctions i.1) i.2
  next t i r := note t i.2 r

/-- A request is returned without its PIN, or to its household, or after it went out with it. -/
def Returned (t : Record) (caller : Caller) (view : RequestView) : Prop :=
  view.verificationPin = none ∨ view.id ∈ t.published ∨
    ∃ id householdId, session caller = some ⟨householdId, .hogar⟩ ∧
      (id, view.householdId) ∈ t.households ∧ (id, householdId) ∈ t.households

def Ending (t : Record) (x : Caller × Except Failure Result) : Prop :=
  ∀ view, x.2 = .ok (.request view) → Returned t x.1 view

/-! ### What one call tells -/

def showing (pin : Bool) : Protocol Unit Op fun i => Except Failure (Reply i) where
  Allowed _ i := Shows pin i
  next _ _ _ := ()

/-- The action shows requests with their PIN or without, and returns what `R` says. -/
def Tells {α : Type} (pin : Bool) (R : α → Prop) (a : Work α) : Prop :=
  Obeys (showing pin) (fun _ x => ∀ y, x = .ok y → R y) () a

abbrev Quiet {α : Type} (pin : Bool) (a : Work α) : Prop := Tells pin (fun _ => True) a

section Telling

variable {α β : Type} {pin : Bool} {R : α → Prop} {S : β → Prop}

theorem tells_pure {a : α} (h : R a) : Tells pin R (pure a : Work α) := by
  intro y hy
  cases hy
  exact h

theorem quiet_pure (a : α) : Quiet pin (pure a : Work α) := tells_pure trivial

theorem tells_throw (e : Failure) : Tells pin R (throw e : Work α) := by
  intro y hy
  cases hy

theorem quiet_call {i : Op} (h : Shows pin i) : Quiet pin (call i) := ⟨h, fun _ _ _ => trivial⟩

theorem tells_bind {a : Work α} {f : α → Work β} (ha : Tells pin R a)
    (hf : ∀ x, R x → Tells pin S (f x)) : Tells pin S (a >>= f) :=
  obeys_bind.mpr (ha.mono (fun _ x hx => hf x (hx x rfl)) fun _ _ _ _ h => by cases h)

theorem tells_after {a : Work α} {f : α → Work β} (ha : Quiet pin a) (hf : ∀ x, Tells pin S (f x)) :
    Tells pin S (a >>= f) :=
  tells_bind ha fun x _ => hf x

theorem quiet_recover {a : Work α} {fallback : α} (ha : Quiet pin a) :
    Quiet pin (recover a fallback) :=
  obeys_recover.mpr (ha.mono (fun _ _ _ _ _ => trivial) fun _ _ _ _ _ => trivial)

theorem quiet_forEach {as : List α} {body : α → Work Unit} (h : ∀ a, Quiet pin (body a)) :
    Quiet pin (forEach as body) := by
  induction as with
  | nil => exact quiet_pure ()
  | cons a rest ih => exact tells_after (h a) fun _ => ih

theorem tells_found {id : String} {failure : Failure} {body : CollectionRequest → Work α}
    (h : ∀ row, Tells pin R (body row)) : Tells pin R (do
      match ← call (.findRequest id) with
      | none => throw failure
      | some request => body request) := by
  refine tells_after (quiet_call trivial) fun found => ?_
  cases found with
  | none => exact tells_throw _
  | some row => exact h row

end Telling

section Services

open CollectionEscrowService CollectionLifecycleService CollectionTrackingService
open WebsocketsService

variable {svc : Service}

def Blank (view : RequestView) : Prop := view.verificationPin = none

theorem quiet_updated (row : CollectionRequest) :
    Quiet false (emitCollectionUpdated row.stripPin) :=
  quiet_call ⟨rfl, rfl⟩

theorem quiet_created (row : CollectionRequest) :
    Quiet false (emitCollectionCreated row.stripPin) :=
  quiet_call ⟨rfl, rfl⟩

theorem tells_published (row : CollectionRequest) : Tells false Blank (do
    emitCollectionUpdated row.stripPin
    pure row.stripPin) :=
  tells_after (quiet_updated row) fun _ => tells_pure rfl

theorem tells_writeAndEmit (id : String) (change : Change) :
    Tells false Blank (writeAndEmit id change) :=
  tells_after (quiet_call trivial) tells_published

theorem quiet_validateCollectorKyc (collectorId : String) :
    Quiet false (validateCollectorKyc collectorId) := by
  refine tells_after (quiet_call trivial) fun collector => ?_
  split
  · exact quiet_pure _
  · exact tells_throw _

theorem quiet_onChainBalance (collector : Option CollectionBooks.User) :
    Quiet false (onChainBalance collector) := by
  unfold onChainBalance
  split
  · exact quiet_recover (tells_after (quiet_call trivial) fun _ => quiet_pure _)
  · exact quiet_pure _

theorem quiet_totalBalance (collectorId : String) : Quiet false (totalBalance collectorId) := by
  refine tells_after (quiet_call trivial) fun collector => ?_
  refine tells_after (quiet_onChainBalance collector) fun balance => ?_
  split
  · exact tells_after (quiet_call trivial) fun _ => quiet_pure _
  · exact quiet_pure _

theorem quiet_validateCollectorSolvency (collectorId : String) (escrow : ℚ) :
    Quiet false (validateCollectorSolvency collectorId escrow) := by
  unfold validateCollectorSolvency
  split
  · exact quiet_pure _
  · refine tells_after (quiet_totalBalance collectorId) fun total => ?_
    refine tells_after (quiet_call trivial) fun escrows => ?_
    dsimp only
    split
    · exact tells_throw _
    · exact quiet_pure _

theorem tells_accept (id userId : String) (row : CollectionRequest) :
    Tells false Blank (accept svc id userId row) := by
  unfold accept
  split
  · split
    · exact tells_throw _
    · refine tells_after (quiet_validateCollectorKyc userId) fun _ => ?_
      refine tells_after (quiet_validateCollectorSolvency userId _) fun _ => ?_
      exact tells_writeAndEmit _ _
  · exact tells_throw _

theorem tells_updateStatus (id userId : String) (role : Role) (status : RequestStatus) :
    Tells false Blank (updateStatus svc id userId role status) := by
  refine tells_found fun row => ?_
  split
  · exact tells_accept id userId row
  · unfold cancelByCollector
    split
    · exact tells_writeAndEmit _ _
    · exact tells_throw _
  · unfold cancelByHousehold
    split
    · split
      · exact tells_writeAndEmit _ _
      · exact tells_throw _
    · exact tells_throw _
  · exact tells_throw _

theorem tells_abandonCollectionRequest (id userId : String) :
    Tells false Blank (abandonCollectionRequest id userId) := by
  refine tells_found fun row => ?_
  split
  · split
    · refine tells_after (quiet_call trivial) fun updated => ?_
      exact tells_after (quiet_created updated) fun _ => tells_published updated
    · exact tells_throw _
  · exact tells_throw _

theorem tells_editCollectionRequest (userId id : String) (dto : EditCollectionRequestDto) :
    Tells false (fun view => ∀ v ∈ view, Blank v) (editCollectionRequest userId id dto) := by
  refine tells_found fun row => ?_
  split
  · split
    · refine tells_after (quiet_call trivial) fun found => ?_
      split
      · refine tells_after (quiet_call trivial) fun reread => ?_
        cases reread with
        | none => exact tells_after (quiet_call trivial) fun _ => tells_pure fun v hv => by cases hv
        | some updated =>
          exact tells_after (quiet_updated updated) fun _ => tells_pure fun v hv => by cases hv; rfl
      · exact tells_throw _
    · exact tells_throw _
  · exact tells_throw _

theorem quiet_penalize (household : Option CollectionBooks.User) :
    Quiet false (penalize household) := by
  cases household with
  | none => exact quiet_pure _
  | some user => exact quiet_call trivial

theorem quiet_compensate (vault : Option String) (collector : Option CollectionBooks.User) :
    Quiet false (compensate svc vault collector) := by
  unfold compensate
  split
  · refine quiet_recover ?_
    split
    · exact tells_throw _
    · exact quiet_call trivial
  · exact quiet_pure _

theorem quiet_findVault (household : Option CollectionBooks.User) :
    Quiet false (findVault household) := by
  cases household with
  | none => exact quiet_pure _
  | some user => exact quiet_call trivial

theorem quiet_waitAtDoor (arrivedAt : Option ℕ) : Quiet false (waitAtDoor svc arrivedAt) := by
  unfold waitAtDoor
  split
  · refine tells_after (quiet_call trivial) fun now => ?_
    split
    · exact tells_throw _
    · exact quiet_pure _
  · exact quiet_pure _

theorem tells_reportNoShow (id collectorId : String) :
    Tells false Blank (reportNoShow svc id collectorId) := by
  refine tells_after (quiet_call trivial) fun found => ?_
  cases found with
  | none => exact tells_throw _
  | some request =>
    dsimp only
    split
    · split
      · refine tells_after (quiet_waitAtDoor _) fun _ => ?_
        refine tells_after (quiet_call trivial) fun updated => ?_
        refine tells_after (quiet_penalize _) fun _ => ?_
        refine tells_after (quiet_findVault _) fun vault => ?_
        exact tells_after (quiet_compensate vault _) fun _ => tells_published updated
      · exact tells_throw _
    · exact tells_throw _

theorem tells_rejectOnSite (id collectorId reason : String) :
    Tells false Blank (rejectOnSite id collectorId reason) := by
  refine tells_found fun row => ?_
  split
  · split
    · split
      · exact tells_throw _
      · exact tells_writeAndEmit _ _
    · exact tells_throw _
  · exact tells_throw _

theorem quiet_cacheRoute (updated : CollectionRequest) : Quiet false (cacheRoute svc updated) := by
  unfold cacheRoute
  split
  · exact tells_after (quiet_call trivial) fun _ => quiet_recover (quiet_call trivial)
  · exact quiet_pure _

theorem tells_startRoute (id collectorId : String) :
    Tells false Blank (startRoute svc id collectorId) := by
  refine tells_found fun row => ?_
  split
  · split
    · exact tells_pure rfl
    · refine tells_after (quiet_call trivial) fun now => ?_
      refine tells_after (quiet_call trivial) fun updated => ?_
      exact tells_after (quiet_cacheRoute updated) fun _ => tells_published updated
    · exact tells_throw _
  · exact tells_throw _

theorem quiet_purgeRoutes (id : String) : Quiet false (purgeRoutes svc id) := by
  unfold purgeRoutes
  split
  · refine tells_after (quiet_recover (quiet_call trivial)) fun _ => ?_
    exact tells_after (quiet_recover (quiet_call trivial)) fun _ =>
      quiet_recover (quiet_call trivial)
  · exact quiet_pure _

theorem tells_reachDestination (id collectorId : String) :
    Tells false Blank (reachDestination svc id collectorId) := by
  refine tells_found fun row => ?_
  split
  · split
    · exact tells_pure rfl
    · refine tells_after (quiet_call trivial) fun now => ?_
      refine tells_after (quiet_call trivial) fun updated => ?_
      refine tells_after (quiet_purgeRoutes id) fun _ => ?_
      exact tells_after (quiet_call trivial) fun _ => tells_published updated
    · exact tells_throw _
  · exact tells_throw _

theorem quiet_lifecycleFallbacks :
    Quiet false CollectionLifecycleService.checkAuctionFallbacks := by
  refine tells_after (quiet_call trivial) fun now => tells_after (quiet_call trivial) fun _ => ?_
  exact quiet_forEach fun req => tells_after (quiet_call trivial) fun _ => quiet_pure _

theorem quiet_workerFallbacks : Quiet false CollectionsTimeoutWorker.processAuctionFallbacks := by
  refine tells_after (quiet_call trivial) fun now => tells_after (quiet_call trivial) fun _ => ?_
  refine quiet_forEach fun req => quiet_recover ?_
  unfold CollectionAuctionService.expireAuction
  split
  · exact quiet_pure _
  · refine tells_after (quiet_call trivial) fun _ => ?_
    exact tells_after (quiet_call trivial) fun _ => quiet_pure _

theorem quiet_expireEach (ids : List String) (change : Change) :
    Quiet false (CollectionsTimeoutWorker.expireEach ids change) :=
  quiet_forEach fun _ => quiet_recover (tells_after (quiet_call trivial) fun _ => quiet_pure _)

theorem quiet_pendingTimeouts : Quiet false CollectionsTimeoutWorker.processPendingTimeouts :=
  tells_after (quiet_call trivial) fun _ => tells_after (quiet_call trivial) fun _ =>
    quiet_expireEach _ _

theorem quiet_acceptedInactivity : Quiet false CollectionsTimeoutWorker.processAcceptedInactivity :=
  tells_after (quiet_call trivial) fun _ => tells_after (quiet_call trivial) fun _ =>
    quiet_expireEach _ _

theorem quiet_arrivedNoShowTimeouts :
    Quiet false CollectionsTimeoutWorker.processArrivedNoShowTimeouts := by
  refine tells_after (quiet_call trivial) fun now => tells_after (quiet_call trivial) fun _ => ?_
  refine quiet_forEach fun req => quiet_recover ?_
  exact tells_after (quiet_call trivial) fun _ => quiet_recover (quiet_penalize _)

theorem quiet_withdrawBid (centerId requestId : String) (bidId : Option String) :
    Quiet false (CollectionAuctionService.withdrawBid centerId requestId bidId) := by
  refine tells_after (quiet_call trivial) fun bid => ?_
  cases bid with
  | none => exact tells_throw _
  | some bid =>
    dsimp only
    split
    · exact quiet_call trivial
    · exact tells_throw _

end Services

section Auctions

open CollectionAuctionService

variable {svc : Service}

theorem quiet_checkExpiry (auctionExpiresAt : Option ℕ) :
    Quiet true (checkExpiry auctionExpiresAt) := by
  cases auctionExpiresAt with
  | none => exact quiet_pure _
  | some auctionExpiresAt =>
    refine tells_after (quiet_call trivial) fun now => ?_
    split
    · exact tells_throw _
    · exact quiet_pure _

theorem quiet_effectiveRates (centerId : String) (proposedRates : RewardStrategies.NumberRecord) :
    Quiet true (effectiveRates centerId proposedRates) := by
  unfold effectiveRates
  split
  · exact tells_throw _
  · split
    · refine tells_after (quiet_call trivial) fun priceList => ?_
      split
      · exact tells_throw _
      · exact quiet_pure _
    · exact quiet_pure _

theorem quiet_storeBid (centerId requestId : String) (offer : Offer) :
    Quiet true (storeBid centerId requestId offer) := by
  refine tells_after (quiet_call trivial) fun existing => ?_
  cases existing with
  | none => exact quiet_call trivial
  | some bid => exact quiet_call trivial

theorem quiet_submitBid (centerId requestId : String)
    (proposedRates : RewardStrategies.NumberRecord) :
    Quiet true (submitBid svc centerId requestId proposedRates) := by
  refine tells_found fun row => ?_
  split
  · split
    · refine tells_after (quiet_checkExpiry _) fun _ => ?_
      refine tells_after (quiet_effectiveRates _ _) fun rates => ?_
      refine tells_after (quiet_storeBid _ _ _) fun bid => ?_
      refine tells_after (quiet_call trivial) fun _ => ?_
      exact tells_after (quiet_call ⟨rfl, rfl⟩) fun _ => quiet_pure _
    · exact tells_throw _
  · exact tells_throw _

theorem quiet_auctionFallbacks : Quiet true CollectionAuctionService.checkAuctionFallbacks := by
  refine tells_after (quiet_call trivial) fun now => tells_after (quiet_call trivial) fun _ => ?_
  refine quiet_forEach fun req => ?_
  unfold expireAuction
  split
  · exact quiet_pure _
  · refine tells_after (quiet_call trivial) fun _ => ?_
    exact tells_after (quiet_call trivial) fun _ => quiet_call ⟨rfl, rfl⟩

/-! ### The end of a call -/

/-- The action of the caller shows what it may, and returns a request as it may. -/
def EndsWell (caller : Caller) (t : Record) (a : Work RequestView) : Prop :=
  Obeys (under telling caller) (fun t x => ∀ view, x = .ok view → Returned t caller view) t a

variable {caller : Caller} {t : Record}

theorem endsWell_throw (e : Failure) : EndsWell caller t (throw e) := fun view h => by cases h

theorem endsWell_call {i : Op} {f : Reply i → Work RequestView}
    (h : Shows (auctions caller) i) (hf : ∀ x, EndsWell caller (note t i (.ok x)) (f x)) :
    EndsWell caller t (call i >>= f) :=
  obeys_call.mpr ⟨h, hf, fun _ _ h => by cases h⟩

theorem endsWell_claimAutomatic (centerId requestId : String) :
    EndsWell (.claimAutomatic centerId requestId) t (claimAutomatic centerId requestId) := by
  refine endsWell_call trivial fun found => ?_
  cases found with
  | none => exact endsWell_throw _
  | some row =>
    dsimp only
    split
    · split
      · split
        · exact endsWell_throw _
        · refine endsWell_call trivial fun priceList => ?_
          split
          · exact endsWell_throw _
          · refine endsWell_call trivial fun updated => endsWell_call ⟨rfl, rfl⟩ fun _ => ?_
            rintro view ⟨⟩
            exact .inr (.inl List.mem_cons_self)
      · exact endsWell_throw _
    · exact endsWell_throw _

theorem endsWell_selectBid (householdId requestId bidId : String) :
    EndsWell (.selectBid householdId requestId bidId) t
      (selectBid householdId requestId bidId) := by
  refine endsWell_call trivial fun found => ?_
  cases found with
  | none => exact endsWell_throw _
  | some row =>
    dsimp only
    split
    · rename_i howner
      split
      · refine endsWell_call trivial fun bid => ?_
        cases bid with
        | none => exact endsWell_throw _
        | some bid =>
          dsimp only
          split
          · split
            · refine obeys_bind.mpr (obeys_call.mpr ⟨trivial, fun current => ?_,
                fun _ _ h => by cases h⟩)
              cases current with
              | none => exact endsWell_throw _
              | some current =>
                dsimp only
                split
                · refine obeys_call.mpr ⟨trivial, fun others => ?_, fun _ _ h => by cases h⟩
                  refine obeys_perform.mpr ⟨trivial, fun updated => ?_, fun _ _ h => by cases h⟩
                  refine endsWell_call ⟨rfl, rfl⟩ fun _ => endsWell_call ⟨rfl, rfl⟩ fun _ => ?_
                  rintro view ⟨⟩
                  refine .inr (.inr ⟨requestId, householdId, rfl, ?_, ?_⟩)
                  · exact List.mem_cons_self
                  · exact List.mem_cons_of_mem _ (howner ▸ List.mem_cons_self)
                · exact endsWell_throw _
            · exact endsWell_throw _
          · exact endsWell_throw _
      · exact endsWell_throw _
    · exact endsWell_throw _

end Auctions

section Creation

open CollectionLifecycleService

variable {svc : Service} {caller : Caller} {t : Record} {α : Type}

/-- A call that shows nothing and leaves the record. -/
def Silent (i : Op) : Prop := (∀ pin, Shows pin i) ∧ ∀ t r, note t i r = t

theorem endsWell_silent {a : Work α} {f : α → Work RequestView} (ha : Only Silent a)
    (hf : ∀ x, EndsWell caller t (f x)) : EndsWell caller t (a >>= f) := by
  have hobeys : Obeys (under telling caller) (fun u _ => u = t) t a :=
    ha.obeys fun i hi => ⟨hi.1 _, fun r => hi.2 t r⟩
  refine obeys_bind.mpr (hobeys.mono ?_ fun _ _ _ _ h => by cases h)
  rintro u x rfl
  exact hf x

theorem only_uploadPhoto (file : Bool) : Only Silent (uploadPhoto svc file) := by
  unfold uploadPhoto
  split
  · exact only_rescue (only_perform ⟨fun _ => trivial, fun _ _ => rfl⟩) fun _ => only_throw _
  · exact only_pure _

theorem only_auctionExpiresAt (mode : AssignmentMode) : Only Silent (auctionExpiresAt mode) := by
  cases mode with
  | automatic => exact only_pure _
  | auction =>
    exact only_bind (only_perform ⟨fun _ => trivial, fun _ _ => rfl⟩) fun _ => only_pure _

theorem only_cachePin (id pin : String) : Only Silent (cachePin svc id pin) := by
  unfold cachePin
  split
  · exact only_perform ⟨fun _ => trivial, fun _ _ => rfl⟩
  · exact only_pure _

theorem endsWell_create (userId : String) (dto : CreateCollectionDto) :
    EndsWell (.create userId dto) t (create svc userId dto) := by
  refine endsWell_call trivial fun active => ?_
  cases active with
  | some row => exact endsWell_throw _
  | none =>
    dsimp only
    split
    · exact endsWell_throw _
    · refine endsWell_call trivial fun drawn => ?_
      refine endsWell_silent (only_uploadPhoto _) fun _ => endsWell_call trivial fun household => ?_
      refine endsWell_silent (only_auctionExpiresAt _) fun expiresAt => ?_
      refine endsWell_call trivial fun row => endsWell_silent (only_cachePin _ _) fun _ => ?_
      refine endsWell_call ⟨rfl, rfl⟩ fun _ => ?_
      rintro view ⟨⟩
      refine .inr (.inr ⟨row.id, userId, rfl, ?_, ?_⟩)
      · exact List.mem_cons_of_mem _ List.mem_cons_self
      · exact List.mem_cons_self

end Creation

/-! ### Every call -/

section Programs

variable {svc : Service} {caller : Caller} {t : Record} {α : Type} {pin : Bool}

theorem keeps_telling {p : Prog Op (fun i => Except Failure (Reply i)) (Except Failure Result)} :
    Keeps telling Ending t (inName caller p) ↔
      Keeps (under telling caller) (fun t x => Ending t (caller, x)) t p :=
  @keeps_inName Caller Op _ _ (fun i => Except Failure (Reply i)) _ _ _ _ _

theorem keeps_of_tells {R : Result → Prop} {a : Work Result} (h : Tells pin R a)
    (hpin : auctions caller = pin) (hR : ∀ view, R (.request view) → Blank view) :
    Keeps telling Ending t (inName caller a.run) := by
  subst hpin
  refine keeps_telling.mpr ?_
  refine keeps_of_stageless (fun (_ : Record) _ hi => hi) (fun _ x hx view hview => ?_) h t
  exact .inl (hR view (hx _ hview))

theorem keeps_request {a : Work RequestView} (h : Tells false Blank a)
    (hpin : auctions caller = false) :
    Keeps telling Ending t (inName caller (returning .request a).run) :=
  keeps_of_tells (R := fun r => ∀ view, r = .request view → Blank view)
    (tells_bind h fun view hview => tells_pure fun v hv => by cases hv; exact hview) hpin
    fun view h => h view rfl

theorem keeps_nothing {a : Work α} {f : α → Result} (h : Quiet pin a)
    (hpin : auctions caller = pin) (hf : ∀ x view, f x ≠ .request view) :
    Keeps telling Ending t (inName caller (returning f a).run) :=
  keeps_of_tells (R := fun r => ∀ view, r ≠ .request view)
    (tells_after h fun x => tells_pure (hf x)) hpin fun view h => absurd rfl (h view)

theorem keeps_endsWell {a : Work RequestView} (h : EndsWell caller t a) :
    Keeps telling Ending t (inName caller (returning .request a).run) := by
  refine keeps_telling.mpr (obeys_bind.mpr (h.mono ?_ ?_))
  · intro u view hview v hv
    cases hv
    exact hview view rfl
  · intro u e _ view hview
    cases hview

theorem keeps_program (svc : Service) (caller : Caller) (t : Record) :
    Keeps telling Ending t (inName caller (program svc caller).run) := by
  cases caller with
  | create userId dto => exact keeps_endsWell (endsWell_create userId dto)
  | updateStatus id userId role status => exact keeps_request (tells_updateStatus _ _ _ _) rfl
  | abandonCollectionRequest id userId =>
    exact keeps_request (tells_abandonCollectionRequest _ _) rfl
  | editCollectionRequest userId id dto =>
    refine keeps_of_tells (R := fun r => ∀ view, r = .request view → Blank view)
      (tells_bind (tells_editCollectionRequest userId id dto) fun view hview => tells_pure ?_) rfl
      fun view h => h view rfl
    intro v hv
    cases view with
    | none => cases hv
    | some view => cases hv; exact hview v rfl
  | reportNoShow id userId => exact keeps_request (tells_reportNoShow _ _) rfl
  | rejectOnSite id userId reason => exact keeps_request (tells_rejectOnSite _ _ _) rfl
  | lifecycleFallbacks => exact keeps_nothing quiet_lifecycleFallbacks rfl fun _ _ h => by cases h
  | startRoute id userId => exact keeps_request (tells_startRoute _ _) rfl
  | reachDestination id userId => exact keeps_request (tells_reachDestination _ _) rfl
  | submitBid centerId requestId rates =>
    exact keeps_nothing (quiet_submitBid _ _ _) rfl fun _ _ h => by cases h
  | withdrawBid centerId requestId bidId =>
    exact keeps_nothing (quiet_withdrawBid _ _ _) rfl fun _ _ h => by cases h
  | selectBid householdId requestId bidId => exact keeps_endsWell (endsWell_selectBid _ _ _)
  | claimAutomatic centerId requestId => exact keeps_endsWell (endsWell_claimAutomatic _ _)
  | auctionFallbacks => exact keeps_nothing quiet_auctionFallbacks rfl fun _ _ h => by cases h
  | pendingTimeouts => exact keeps_nothing quiet_pendingTimeouts rfl fun _ _ h => by cases h
  | workerFallbacks => exact keeps_nothing quiet_workerFallbacks rfl fun _ _ h => by cases h
  | acceptedInactivity =>
    exact keeps_nothing quiet_acceptedInactivity rfl fun _ _ h => by cases h
  | arrivedNoShowTimeouts =>
    exact keeps_nothing quiet_arrivedNoShowTimeouts rfl fun _ _ h => by cases h

end Programs

/-! ### The hall -/

/-- The calls about collections, each in the name of its caller. -/
def hall (svc : Service) : System Caller World Outcome Outside (Stage × Record) (Caller × Op)
    (fun i => Except Failure (Reply i.2)) (Caller × Except Failure Result) :=
  named (system svc) telling ⟨[], []⟩

abbrev Hall := Pool World (Task (Stage × Record) (Caller × Op)
  (fun i => Except Failure (Reply i.2)) (Caller × Except Failure Result))

def opened (w : World) : Hall := ⟨w, fun _ => none⟩

structure Sent where
  caller : Caller
  room : Room
  view : RequestView

def emission (c : Hall) : RaceEvent → Option Sent
  | .advance j o =>
    match o.delivery.applied, pending c j with
    | true, some (caller, .emit room _ (.request view)) => some ⟨caller, room, view⟩
    | _, _ => none
  | _ => none

/-- The event shows the PIN of the request outside the room of its household. -/
def Leaks (id : String) (c : Hall) (e : RaceEvent) : Prop :=
  ∃ sent ∈ emission c e, sent.view.id = id ∧ sent.view.verificationPin.isSome = true ∧
    sent.room ≠ .user sent.view.householdId

instance (id : String) (c : Hall) (e : RaceEvent) : Decidable (Leaks id c e) :=
  inferInstanceAs (Decidable (∃ sent ∈ emission c e, _))

/-- The auction service gets to the event that tells the collectors of the request. -/
def Publishes (id : String) (c : Hall) (e : RaceEvent) : Prop :=
  ∃ sent ∈ emission c e, sent.view.id = id ∧ auctions sent.caller = true

instance (id : String) (c : Hall) (e : RaceEvent) : Decidable (Publishes id c e) :=
  inferInstanceAs (Decidable (∃ sent ∈ emission c e, _))

/-- The user gets the PIN of the request, and is not its household. -/
def Exposes (id : String) (user : Session) (view : RequestView) : Prop :=
  view.id = id ∧ view.verificationPin.isSome ∧ user ≠ ⟨view.householdId, .hogar⟩

/-- Nobody but the household was given the PIN of the request, or gets it by asking; no batch that
is sent on its way holds it. -/
structure Sealed (id : String) (c : Hall) : Prop where
  returned : ∀ j s caller view user, c.tasks j = some ⟨s, .done (caller, .ok (.request view))⟩ →
    session caller = some user → ¬ Exposes id user view
  answered : ∀ tables user query views, answer c.world tables user query = .ok views →
    ∀ view ∈ views, ¬ Exposes id user view
  dispatched : ∀ tables batchId collectorId destinationCenterId sent,
    BatchesService.updateBatch c.world tables batchId collectorId destinationCenterId = .ok sent →
      ∀ view ∈ sent.requests, view.id ≠ id

def Before (id : String) (c : Hall) : Prop :=
  ∀ row ∈ c.world.requests, row.id = id → row.status ≠ .completed

instance (id : String) (c : Hall) : Decidable (Before id c) :=
  inferInstanceAs (Decidable (∀ row ∈ c.world.requests, _))

def Loose (id : String) (w : World) : Prop := ∀ row ∈ w.requests, row.id = id → row.batchId = none

def Household (w : World) (id householdId : String) : Prop :=
  ∃ row, w.findRequest id = some row ∧ row.householdId = householdId

theorem household_unique {w : World} {id h h' : String} (hh : Household w id h)
    (hh' : Household w id h') : h = h' := by
  obtain ⟨row, hrow, rfl⟩ := hh
  obtain ⟨row', hrow', rfl⟩ := hh'
  cases hrow.symm.trans hrow'
  rfl

section Steps

open CollectionUniqueness

variable {svc : Service} {c c' : Hall} {e : RaceEvent} {id : String}

theorem household_row {r : Race} {w : World} {h : String} (heffect : RowEffect r e id w)
    (hh : Household r.world id h) : Household w id h := by
  obtain ⟨row, hrow, rfl⟩ := hh
  cases heffect with
  | same hsame => exact ⟨row, hsame.trans hrow, rfl⟩
  | change ch old new hwrites hfound happly hnew =>
    cases hrow.symm.trans hfound
    exact ⟨new, hnew, apply_household happly⟩
  | edit old items description hfound hpending hnew =>
    cases hrow.symm.trans hfound
    exact ⟨_, hnew, rfl⟩
  | create draft hcreates hfresh hnew => rw [hfresh] at hrow; cases hrow
  | complete old batchId weights hcompletes hfound hverify hnew =>
    cases hrow.symm.trans hfound
    exact ⟨_, hnew, rfl⟩

theorem step_household {h : String} (hstep : (hall svc).step c e = some c')
    (hh : Household c.world id h) : Household c'.world id h :=
  household_row (step_row (step_forget hstep) id) hh

theorem apply_loose {change : Change} {now : ℕ} {row row' : CollectionRequest}
    (h : change.apply now row = some row') (hrow : row.batchId = none) : row'.batchId = none := by
  cases change with
  | accept collectorId escrow =>
    obtain ⟨escrowLocked, -, rfl⟩ := Option.map_eq_some_iff.mp h
    exact hrow
  | _ => cases h; first | exact hrow | rfl

theorem step_loose (hstep : (hall svc).step c e = some c') (hloose : Loose id c.world)
    (hafter : Before id c') : Loose id c'.world := by
  have hrows : ∀ r ∈ c'.world.requests, r.id = id → r.batchId = none ∨ r.status = .completed := by
    refine (step_effect (step_forget hstep)).rows ?_ ?_ ?_ ?_ ?_
    · exact fun r hr hid => .inl (hloose r hr hid)
    · intro t ht row' happly hP hid
      have hfound := (mem_written ht).2
      have hrow : t.row.batchId = none :=
        hloose t.row (mem_of_findRequest hfound) ((Change.apply_id happly).symm.trans hid)
      exact .inl (apply_loose happly hrow)
    · intro row items description now hpending hP hid
      refine (hP hid).imp_right fun hcompleted => ?_
      rw [hpending] at hcompleted
      cases hcompleted
    · exact fun draft id now hcreates hid => .inl rfl
    · exact fun id row batchId weights now hcompletes hfound hverify hP hid => .inr rfl
  exact fun r hr hid => (hrows r hr hid).resolve_right (hafter r hr hid)

/-! ### What the programs have seen and told -/

variable {i : Op} {o : Outcome} {w : World} {t : Record}

theorem after_done (hdone : o.delivery = .done) : w.after i o = w.effect o i := by
  simp [World.after, World.update, hdone, Delivery.applied]

theorem note_error {e : Failure} : note t i (.error e) = t := by
  cases i with
  | emit room event payload => cases payload <;> rfl
  | _ => rfl

theorem household_noted {p : String × String}
    (h : p ∈ (note t i (w.reply i o)).households) :
    p ∈ t.households ∨ Household (w.after i o) p.1 p.2 := by
  cases hreply : w.reply i o with
  | error e =>
    rw [hreply, note_error] at h
    exact .inl h
  | ok x =>
    rw [hreply] at h
    cases i with
    | findRequest id =>
      obtain ⟨hdone, hrow⟩ := Delivery.answer_ok hreply
      cases x with
      | none => exact .inl h
      | some row =>
        refine (List.mem_cons.mp h).symm.imp_right ?_
        rintro rfl
        rw [after_done hdone]
        exact ⟨row, hrow, rfl⟩
    | createRequest draft =>
      simp only [World.reply] at hreply
      split at hreply
      · cases hreply
      · rename_i hfresh
        obtain ⟨hdone, rfl⟩ := Delivery.answer_ok hreply
        have hnone : w.findRequest (draft.row o.id w.now).id = none := by
          change w.findRequest o.id = none
          simpa using hfresh
        have hinserted : (w.createRequest o.id draft).findRequest o.id =
            some (draft.row o.id w.now) := by
          rw [World.createRequest, if_neg hfresh]
          exact (findRequest_inserted hnone rfl).trans (if_pos rfl)
        have hhousehold : Household (w.after (.createRequest draft) o) o.id draft.householdId := by
          rw [after_done hdone]
          exact ⟨_, hinserted, rfl⟩
        rcases List.mem_cons.mp h with rfl | h
        · exact .inr hhousehold
        · rcases List.mem_cons.mp h with rfl | h
          · exact .inr hhousehold
          · exact .inl h
    | commitSelection id bid others =>
      obtain ⟨hdone, hselected⟩ := deliverSome_ok hreply
      refine (List.mem_cons.mp h).symm.imp_right ?_
      rintro rfl
      obtain ⟨-, -, hchanged⟩ := Option.bind_eq_some_iff.mp hselected
      obtain ⟨row, hrow, happly⟩ := Option.bind_eq_some_iff.mp hchanged
      have hid : x.id = id := (Change.apply_id happly).trans (id_of_findRequest hrow)
      refine ⟨x, ?_, rfl⟩
      rw [after_done hdone]
      change (w.commitSelection id bid others).findRequest id = some x
      rw [World.commitSelection, hselected, ← hid]
      exact findRequest_setRequest_self (by rw [hid]; exact hrow)
    | emit room event payload =>
      refine .inl ?_
      cases payload with
      | request view =>
        simp only [note] at h
        split at h <;> exact h
      | _ => exact h
    | _ => exact .inl h

theorem published_noted {id : String} (h : id ∈ (note t i (w.reply i o)).published) :
    id ∈ t.published ∨ o.delivery.applied = true ∧ ∃ room event view,
      i = .emit room event (.request view) ∧ view.verificationPin.isSome = true ∧ view.id = id := by
  cases hreply : w.reply i o with
  | error e =>
    rw [hreply, note_error] at h
    exact .inl h
  | ok x =>
    rw [hreply] at h
    cases i with
    | findRequest id => cases x <;> exact .inl h
    | emit room event payload =>
      cases payload with
      | request view =>
        simp only [note] at h
        split at h
        · rename_i hpin
          refine (List.mem_cons.mp h).symm.imp_right ?_
          rintro rfl
          obtain ⟨hdone, -⟩ := Delivery.answer_ok hreply
          exact ⟨by rw [hdone]; rfl, room, event, view, rfl, hpin, rfl⟩
        · exact .inl h
      | _ => exact .inl h
    | _ => exact .inl h

/-- What the record of every call in progress says is so, and the request is loose. -/
structure Secret (id : String) (w : World) (st : ℕ → Option (Stage × Record)) : Prop where
  households : ∀ j s, st j = some s → ∀ p ∈ s.2.households, Household w p.1 p.2
  unpublished : ∀ j s, st j = some s → id ∉ s.2.published
  loose : Loose id w

theorem secret_update {st : ℕ → Option (Stage × Record)} {j : ℕ} {u : Option (Stage × Record)}
    (h : Secret id w st) (hhouseholds : ∀ s, u = some s → ∀ p ∈ s.2.households,
      Household w p.1 p.2) (hunpublished : ∀ s, u = some s → id ∉ s.2.published) :
    Secret id w (Function.update st j u) := by
  refine ⟨fun k s hs => ?_, fun k s hs => ?_, h.loose⟩
  · by_cases hk : k = j
    · subst hk
      exact hhouseholds s (by simpa using hs)
    · exact h.households k s (by simpa [hk] using hs)
  · by_cases hk : k = j
    · subst hk
      exact hunpublished s (by simpa using hs)
    · exact h.unpublished k s (by simpa [hk] using hs)

/-- Every call keeps to what it may show, and ends as it may. -/
def Faithful (svc : Service) (c : Hall) : Prop := (hall svc).Ends (fun s x => Ending s.2 x) c

theorem keeps_hall (svc : Service) (caller : Caller) :
    Keeps (hall svc).protocol (fun s x => Ending s.2 x) (hall svc).first
      ((hall svc).program caller) :=
  keeps_beside (keeps_program svc caller _)

theorem step_faithful (h : Faithful svc c) (hstep : (hall svc).step c e = some c') :
    Faithful svc c' :=
  step_ends (keeps_hall svc) h hstep

theorem emission_eq {sent : Sent} (h : sent ∈ emission c e) : ∃ j o event,
    e = .advance j o ∧ o.delivery.applied = true ∧
      pending c j = some (sent.caller, .emit sent.room event (.request sent.view)) := by
  cases e with
  | advance j o =>
    simp only [emission] at h
    split at h
    · cases h
      exact ⟨j, o, _, rfl, ‹_›, ‹_›⟩
    · cases h
  | _ => cases h

theorem emission_shows (hf : Faithful svc c) {sent : Sent} (h : sent ∈ emission c e) :
    sent.room = .collectorsActive ∧ sent.view.verificationPin.isSome = auctions sent.caller := by
  obtain ⟨j, o, event, -, -, hpending⟩ := emission_eq h
  rcases ht : c.tasks j with _ | ⟨s, _ | ⟨i, k⟩⟩
  · simp [pending, ht] at hpending
  · simp [pending, ht] at hpending
  · cases hpending.symm.trans (pending_eq ht)
    exact (hf j _ ht).1

theorem leaks_iff_publishes (hf : Faithful svc c) : Leaks id c e ↔ Publishes id c e := by
  constructor
  · rintro ⟨sent, hsent, hid, hpin, -⟩
    exact ⟨sent, hsent, hid, (emission_shows hf hsent).2 ▸ hpin⟩
  · rintro ⟨sent, hsent, hid, hauction⟩
    obtain ⟨hroom, hpin⟩ := emission_shows hf hsent
    refine ⟨sent, hsent, hid, hpin.trans hauction, ?_⟩
    rw [hroom]
    exact Room.noConfusion

theorem step_secret (hf : Faithful svc c) (h : Secret id c.world (stages c))
    (hquiet : ¬ Publishes id c e) (hafter : Before id c') (hstep : (hall svc).step c e = some c') :
    Secret id c'.world (stages c') := by
  have hworld : Secret id c'.world (stages c) :=
    ⟨fun j s hs p hp => step_household hstep (h.households j s hs p hp), h.unpublished,
      step_loose hstep h.loose hafter⟩
  cases e with
  | start j a =>
    obtain ⟨-, rfl⟩ := step_start.mp hstep
    rw [stages_update]
    refine secret_update hworld (fun s hs p hp => ?_) fun s hs hp => ?_
    · cases hs; cases hp
    · cases hs; cases hp
  | advance j o =>
    obtain ⟨s, i, k, ht, rfl⟩ := step_advance.mp hstep
    rw [stages_update]
    refine secret_update hworld (fun u hu p hp => ?_) fun u hu hp => ?_
    · cases hu
      rcases household_noted hp with hp | hp
      · exact hworld.households j s (stages_eq ht) p hp
      · exact hp
    · cases hu
      rcases published_noted hp with hp | ⟨happlied, room, event, view, hi, hpin, hid⟩
      · exact h.unpublished j s (stages_eq ht) hp
      · refine hquiet ⟨⟨i.1, room, view⟩, ?_, hid, ?_⟩
        · have hpending : pending c j = some (i.1, .emit room event (.request view)) := by
            rw [pending_eq ht, ← hi]
          simp [emission, happlied, hpending]
        · have hshows : Shows (auctions i.1) i.2 := (hf j _ ht).1
          rw [hi] at hshows
          exact hshows.2.symm.trans hpin
  | stop j =>
    obtain ⟨-, rfl⟩ := step_stop.mp hstep
    rw [stages_update]
    exact secret_update hworld (fun s hs => by cases hs) fun s hs => by cases hs
  | outside d =>
    obtain ⟨w, hw, rfl⟩ := step_outside.mp hstep
    exact hworld

end Steps

/-! ### What is answered -/

section Answers

variable {w : World} {tables : Tables} {user : Session} {id : String}

theorem shownTo_sealed {row : CollectionRequest}
    (h : user.role = .hogar → row.householdId = user.userId) :
    ¬ Exposes id user (CollectionsRepository.shownTo user.role row) := by
  rintro ⟨-, hpin, huser⟩
  unfold CollectionsRepository.shownTo at hpin huser
  by_cases hrole : user.role = .hogar
  · rw [if_pos hrole] at huser
    refine huser ?_
    change user = ⟨row.householdId, .hogar⟩
    rw [h hrole, ← hrole]
  · rw [if_neg hrole] at hpin
    cases hpin

theorem findAll_sealed {status : Option RequestStatus} {paging : Paging}
    {views : List RequestView}
    (h : CollectionsRepository.findAll w user status paging = .ok views) :
    ∀ view ∈ views, ¬ Exposes id user view := by
  intro view hview
  unfold CollectionsRepository.findAll at h
  split at h
  · cases h
  · rename_i admits hlisted
    cases h
    obtain ⟨row, hrow, rfl⟩ := List.mem_map.mp hview
    refine shownTo_sealed fun hrole => ?_
    have hadmits := (List.mem_filter.mp (Paging.mem_of_sorted hrow)).2
    simp only [CollectionsRepository.listed, hrole, Option.some.injEq] at hlisted
    subst hlisted
    simp only [Bool.and_eq_true, beq_iff_eq] at hadmits
    exact hadmits.1

theorem findAvailable_sealed {query : CollectionsRepository.Radar} :
    ∀ view ∈ CollectionsRepository.findAvailable w tables user.userId query,
      ¬ Exposes id user view := by
  rintro view hview ⟨-, hpin, -⟩
  obtain ⟨row, -, rfl⟩ := List.mem_map.mp hview
  cases hpin

theorem findOne_sealed {requestId : String} {view : RequestView}
    (h : CollectionsRepository.findOne w requestId user = .ok view) : ¬ Exposes id user view := by
  unfold CollectionsRepository.findOne at h
  split at h
  · cases h
  · split at h
    · cases h
    · rename_i hguard
      cases h
      exact shownTo_sealed fun hrole => by_contra fun hne => hguard ⟨hrole, hne⟩

theorem withRequests_loose (hloose : Loose id w) {batch : Batch} :
    ∀ view ∈ (BatchesService.withRequests w batch).requests, view.id ≠ id := by
  rintro view hview hid
  obtain ⟨row, hrow, rfl⟩ := List.mem_map.mp hview
  obtain ⟨hmem, hbatch⟩ := List.mem_filter.mp hrow
  rw [hloose row hmem hid] at hbatch
  cases hbatch

theorem findAllBatches_loose (hloose : Loose id w) {status : Option BatchStatus} {paging : Paging}
    {views : List BatchView}
    (h : BatchesService.findAll w tables user status paging = .ok views) :
    ∀ view ∈ views.flatMap BatchView.requests, view.id ≠ id := by
  intro view hview
  unfold BatchesService.findAll at h
  split at h
  · cases h
  · cases h
    obtain ⟨sent, hsent, hview⟩ := List.mem_flatMap.mp hview
    obtain ⟨batch, -, rfl⟩ := List.mem_map.mp hsent
    exact withRequests_loose hloose view hview

theorem getOpenBatch_loose (hloose : Loose id w) {collectorId : String}
    {centerId : Option String} : ∀ view ∈
      (BatchesService.getOpenBatch w tables collectorId centerId).flatMap BatchView.requests,
        view.id ≠ id := by
  intro view hview
  obtain ⟨sent, hsent, hview⟩ := List.mem_flatMap.mp hview
  obtain ⟨batch, -, rfl⟩ := List.mem_map.mp hsent
  exact withRequests_loose hloose view hview

theorem findOneBatch_loose (hloose : Loose id w) {batchId : String} {sent : BatchView}
    (h : BatchesService.findOne w tables batchId user = .ok sent) :
    ∀ view ∈ sent.requests, view.id ≠ id := by
  unfold BatchesService.findOne at h
  split at h
  · cases h
  · split at h
    · cases h
    · split at h
      · cases h
      · cases h
        exact withRequests_loose hloose

theorem updateBatch_loose (hloose : Loose id w) {batchId collectorId centerId : String}
    {sent : BatchView}
    (h : BatchesService.updateBatch w tables batchId collectorId centerId = .ok sent) :
    ∀ view ∈ sent.requests, view.id ≠ id := by
  unfold BatchesService.updateBatch at h
  split at h
  · cases h
  · split at h
    · cases h
    · split at h
      · cases h
      · split at h
        · cases h
          exact withRequests_loose hloose
        · cases h

theorem map_ok {α β : Type} {x : Except Failure α} {f : α → β} {b : β} (h : x.map f = .ok b) :
    ∃ a, x = .ok a ∧ f a = b := by
  cases x with
  | error e => cases h
  | ok a => exact ⟨a, rfl, Except.ok.inj h⟩

theorem answer_sealed (hloose : Loose id w) {query : Query} {views : List RequestView}
    (h : answer w tables user query = .ok views) : ∀ view ∈ views, ¬ Exposes id user view := by
  have sealed_of_loose {views : List RequestView} (h : ∀ view ∈ views, view.id ≠ id) :
      ∀ view ∈ views, ¬ Exposes id user view := fun view hview hexposes => h view hview hexposes.1
  unfold answer at h
  split at h
  · cases query with
    | findAll status paging => exact findAll_sealed h
    | findAvailable query => cases h; exact findAvailable_sealed
    | findOne requestId =>
      obtain ⟨view, hview, rfl⟩ := map_ok h
      intro v hv
      obtain rfl := List.mem_singleton.mp hv
      exact findOne_sealed hview
    | findAllBatches status paging =>
      obtain ⟨sent, hsent, rfl⟩ := map_ok h
      exact sealed_of_loose (findAllBatches_loose hloose hsent)
    | getOpenBatch centerId => cases h; exact sealed_of_loose (getOpenBatch_loose hloose)
    | findOneBatch batchId =>
      obtain ⟨sent, hsent, rfl⟩ := map_ok h
      exact sealed_of_loose (findOneBatch_loose hloose hsent)
    | updateBatch batchId centerId =>
      obtain ⟨sent, hsent, rfl⟩ := map_ok h
      exact sealed_of_loose (updateBatch_loose hloose hsent)
  · cases h

end Answers

/-! ### The PIN -/

section Pin

open CollectionUniqueness

variable {svc : Service} {c c' : Hall} {id : String}

theorem sealed_of_secret (hf : Faithful svc c) (h : Secret id c.world (stages c)) :
    Sealed id c where
  returned := by
    rintro j s caller view user ht huser ⟨hid, hpin, hne⟩
    rcases hf j _ ht view rfl with hblank | hpublished | ⟨x, householdId, hsession, hshown, hown⟩
    · rw [hblank] at hpin
      cases hpin
    · exact h.unpublished j s (stages_eq ht) (hid ▸ hpublished)
    · have hsame : view.householdId = householdId :=
        household_unique (h.households j s (stages_eq ht) _ hshown)
          (h.households j s (stages_eq ht) _ hown)
      exact hne (hsame ▸ Option.some.inj (huser.symm.trans hsession))
  answered := fun _ _ _ _ hviews => answer_sealed h.loose hviews
  dispatched := fun _ _ _ _ _ hsent => updateBatch_loose h.loose hsent

theorem opened_secret {w : World} (hloose : Loose id w) :
    Secret id (opened w).world (stages (opened w)) where
  households := fun j s hs => by cases hs
  unpublished := fun j s hs => by cases hs
  loose := hloose

theorem opened_faithful (svc : Service) (w : World) : Faithful svc (opened w) := by
  intro j t h
  cases h

/-- Until a request is completed, its PIN stays with the household in exactly the runs where the
auction service does not get to tell the collectors of it. -/
theorem pin_sealed_iff (svc : Service) {w : World} {es : List RaceEvent} (hloose : Loose id w)
    (hrun : run (hall svc).step (opened w) es = some c')
    (hbefore : Along (hall svc).step (fun c _ => Before id c) (opened w) es)
    (hend : Before id c') :
    Along (hall svc).step (fun c e => ¬ Leaks id c e) (opened w) es ∧ Sealed id c' ↔
      Along (hall svc).step (fun c e => ¬ Publishes id c e) (opened w) es := by
  constructor
  · rintro ⟨hquiet, -⟩
    exact along_strengthen (fun _ _ _ hf _ hstep => step_faithful hf hstep)
      (fun c e hf hleaks hpublishes => hleaks ((leaks_iff_publishes hf).mpr hpublishes))
      (opened_faithful svc w) hquiet
  · intro hquiet
    have hboth : Faithful svc c' ∧ Secret id c'.world (stages c') := by
      refine run_invariant (I := fun c => Faithful svc c ∧ Secret id c.world (stages c))
        ?_ ⟨opened_faithful svc w, opened_secret hloose⟩
          (along_and hquiet (along_next hbefore hrun hend)) hrun
      rintro c e c' ⟨hf, hsecret⟩ ⟨hpublishes, hafter⟩ hstep
      exact ⟨step_faithful hf hstep, step_secret hf hsecret hpublishes (hafter c' hstep) hstep⟩
    refine ⟨?_, sealed_of_secret hboth.1 hboth.2⟩
    exact along_strengthen (fun _ _ _ hf _ hstep => step_faithful hf hstep)
      (fun c e hf hpublishes hleaks => hpublishes ((leaks_iff_publishes hf).mp hleaks))
      (opened_faithful svc w) hquiet

/-- A household creates a request, a centre's claim of it stops before it tells of it, and a
collector accepts it. -/
def claimStopped : List RaceEvent :=
  creation 0 :: answeredUnder "request" 0 6 ++ claim 1 "depot" :: answered 1 3 ++
    .stop 1 :: acceptance 2 "first" :: answered 2 7

theorem pin_sealed_stopped : ∃ c' : Hall, statusOf c'.world "request" = some .accepted ∧
    (Along (hall sampleService).step (fun c e => ¬ Leaks "request" c e)
      (opened (sampleWorld [] [])) claimStopped ∧ Sealed "request" c') := by
  have hrun : (run (hall sampleService).step (opened (sampleWorld [] [])) claimStopped).any
      (fun c => statusOf c.world "request" == some .accepted && decide (Before "request" c)) =
        true := by decide +kernel
  obtain ⟨c', hc', htest⟩ := (Option.any_eq_true _ _).mp hrun
  simp only [Bool.and_eq_true, beq_iff_eq, decide_eq_true_eq] at htest
  have hloose : Loose "request" (sampleWorld [] []) := fun row hrow => by cases hrow
  refine ⟨c', htest.1, (pin_sealed_iff sampleService hloose hc' ?_ htest.2).mpr ?_⟩
  · decide +kernel
  · decide +kernel

/-- A centre claims a request, and every collector gets its PIN. -/
theorem pin_told : Loose "request" unclaimed ∧ ∃ c',
    run (hall sampleService).step (opened unclaimed) (claim 0 "depot" :: answered 0 4) = some c' ∧
    Along (hall sampleService).step (fun c _ => Before "request" c) (opened unclaimed)
      (claim 0 "depot" :: answered 0 4) ∧ Before "request" c' ∧
    ¬ (Along (hall sampleService).step (fun c e => ¬ Leaks "request" c e) (opened unclaimed)
      (claim 0 "depot" :: answered 0 4) ∧ Sealed "request" c') := by
  have hrun : (run (hall sampleService).step (opened unclaimed)
      (claim 0 "depot" :: answered 0 4)).any (fun c => decide (Before "request" c)) = true := by
    decide +kernel
  obtain ⟨c', hc', hbefore⟩ := (Option.any_eq_true _ _).mp hrun
  refine ⟨?_, c', hc', ?_, of_decide_eq_true hbefore, fun h => ?_⟩
  · intro row hrow _
    obtain rfl := List.mem_singleton.mp hrow
    rfl
  · decide +kernel
  · exact absurd h.1 (by decide +kernel)

end Pin

end Livora.RequestPayloads
