import Livora.BatchDesk

/-! The services of the batches, and the endpoints they are called from, with the roles that the
controllers ask for. -/

namespace Livora.BatchServices

open DoubleRounding EffectPrograms EffectPrograms.Action RewardStrategies BatchBooks BatchDesk
open BackOffice (Role User)
open PinVerification (truthy)
open StoreBooks (Failure toFixed2 centsText numberText)

/-- The configuration: `WEIGHT_DISCREPANCY_TOLERANCE_PERCENT`, or 15. -/
structure Service where
  tolerancePercent : Double

/-! ### Statuses -/

def statusName : BatchStatus → String
  | .open => "OPEN"
  | .inTransit => "IN_TRANSIT"
  | .processing => "PROCESSING"
  | .partiallyAccepted => "PARTIALLY_ACCEPTED"
  | .received => "RECEIVED"
  | .consolidated => "CONSOLIDATED"
  | .flaggedForReview => "FLAGGED_FOR_REVIEW"
  | .disputed => "DISPUTED"
  | .rerouted => "REROUTED"

namespace BatchStateMachine

/-- `ALLOWED_TRANSITIONS` -/
def allowedTransitions : BatchStatus → List BatchStatus
  | .open => [.inTransit, .processing, .received, .flaggedForReview]
  | .inTransit => [.processing, .received, .rerouted, .flaggedForReview]
  | .processing => [.received, .partiallyAccepted, .flaggedForReview, .disputed]
  | .flaggedForReview => [.received, .disputed, .partiallyAccepted]
  | .disputed => [.received, .partiallyAccepted, .rerouted]
  | .received => [.consolidated]
  | .partiallyAccepted => [.consolidated]
  | .rerouted => [.open, .inTransit]
  | .consolidated => []

/-- The table allows the change, or there is none. -/
def allows (currentStatus targetStatus : BatchStatus) : Bool :=
  currentStatus == targetStatus || (allowedTransitions currentStatus).contains targetStatus

def validateTransition (currentStatus targetStatus : BatchStatus) : Work Unit :=
  if allows currentStatus targetStatus then pure ()
  else throw (.conflict ("Transición inválida de estado en Lote: No se puede cambiar de '" ++
    statusName currentStatus ++ "' a '" ++ statusName targetStatus ++ "'."))

end BatchStateMachine

/-- The batch, or `NotFoundException`. -/
def requireBatch (id : String) : Work FoundBatch := do
  match ← call (.findBatch id) with
  | none => throw (.notFound "Lote no encontrado")
  | some batch => pure batch

/-- `if (!condition) throw e` -/
def require (condition : Bool) (e : Failure) : Work Unit := if condition then pure () else throw e

def requireCenter (centerId : String) (e : Failure) : Work Unit := do
  let center ← call (.findUser centerId)
  require (center.any fun user => user.role == .centroAcopio) e

/-! ### Dispatch -/

def updateBatch (id collectorId destinationCenterId : String) : Work Batch := do
  let batch ← requireBatch id
  require (batch.row.collectorId == collectorId)
    (.forbidden "No tienes permisos para modificar este lote")
  require (batch.row.status == .open) (.badRequest "Solo se pueden actualizar lotes en estado OPEN")
  requireCenter destinationCenterId
    (.badRequest "El centro de acopio especificado no existe o no posee un rol autorizado")
  let updated ← call (.updateBatch id
    { destinationCenterId := some destinationCenterId, status := some .inTransit })
  call (.emit destinationCenterId "batch:dispatched")
  call (.emit collectorId "batch:updated")
  pure updated

/-! ### Reception -/

structure ReceiveBatchDto where
  materialsActual : NumberRecord
  usefulWeightKg : Option Double
  wasteWeightKg : Option Double

/-- The numbers of a record, added from first to last. -/
def addWeights (total : ℚ) (weights : NumberRecord) : ℚ :=
  weights.foldl (fun total entry => fl (total + entry.2.val)) total

def totalEstimatedKg (requests : List Request) : ℚ :=
  requests.foldl (fun total req => addWeights total req.itemsEstimated) 0

/-- `x.toFixed(1)` of a number that is not negative. -/
def tenthsText (x : ℚ) : String :=
  let tenths := (round (x * 10)).toNat
  toString (tenths / 10) ++ "." ++ toString (tenths % 10)

def kgText (x : ℚ) : String := centsText (toFixed2 x)

def discrepancyNote (svc : Service) (estimated actual : ℚ) : Option String :=
  if 0 < estimated then
    let diffPercent := fl (fl |actual - estimated| / estimated)
    if fl (svc.tolerancePercent.val / 100) < diffPercent then
      some ("Discrepancia detectada: estimado total de " ++ kgText estimated ++
        " kg vs pesado real de " ++ kgText actual ++ " kg (desviación del " ++
        tenthsText (fl (diffPercent * 100)) ++ "%, excede ±" ++
          numberText svc.tolerancePercent.val ++
        "% de tolerancia)")
    else none
  else if 0 < actual then
    some ("Discrepancia detectada: estimado era 0 kg pero se pesaron reales " ++
      kgText actual ++ " kg")
  else none

/-- `dto.wasteWeightKg !== undefined && Number(dto.wasteWeightKg) > 0` -/
def isPartial (dto : ReceiveBatchDto) : Bool := dto.wasteWeightKg.any fun kg => decide (0 < kg.val)

def partialNote (dto : ReceiveBatchDto) : Option String :=
  if isPartial dto then
    some ("Aceptado parcialmente con merma: " ++ (dto.wasteWeightKg.elim "" fun kg =>
      numberText kg.val) ++
      " kg descartados. Peso neto útil: " ++
      (dto.usefulWeightKg.elim "N/A" fun kg => numberText kg.val) ++ " kg.")
  else none

def householdIds (requests : List Request) : List String :=
  (requests.map Request.householdId).dedup

def jobOf (updated : Batch) (centerId : Option String) (materialsActual : Option NumberRecord)
    (requests : List Request) : BatchJob :=
  ⟨updated.id, updated.collectorId, centerId, materialsActual, householdIds requests⟩

def flagBatch (id : String) (batch : FoundBatch) (centerId : String) (dto : ReceiveBatchDto)
    (note : String) : Work Batch := do
  let updated ← call (.updateBatch id {
    status := some .flaggedForReview
    materialsActual := some dto.materialsActual
    hasDiscrepancy := some true
    discrepancyNote := some (some note) })
  call (.emit batch.row.collectorId "batch:updated")
  call (.emit centerId "batch:updated")
  pure updated

def acceptBatch (id : String) (batch : FoundBatch) (centerId : String) (dto : ReceiveBatchDto) :
    Work Batch := do
  let updated ← call (.updateBatch id {
    status := some (if isPartial dto then .partiallyAccepted else .processing)
    materialsActual := some dto.materialsActual
    hasDiscrepancy := some false
    discrepancyNote := some (partialNote dto) })
  call (.addJob (jobOf updated (some centerId) (some dto.materialsActual) batch.requests))
  call (.emit updated.collectorId "batch:updated")
  call (.emit centerId "batch:updated")
  pure updated

/-- The statuses in which a batch was received before. -/
def alreadyReceived (status : BatchStatus) : Bool :=
  status == .processing || status == .received || status == .consolidated

def receiveBatch (svc : Service) (id centerId : String) (dto : ReceiveBatchDto) : Work Batch := do
  let batch ← requireBatch id
  require (!alreadyReceived batch.row.status)
    (.conflict "El lote ya se encuentra en procesamiento o fue recibido previamente")
  require (batch.row.status == .inTransit || batch.row.status == .open)
    (.badRequest "El lote debe estar en estado IN_TRANSIT u OPEN para ser recibido")
  require (batch.row.destinationCenterId == some centerId) (.forbidden
    "El centro de acopio autenticado no coincide con el centro de destino asignado al lote")
  match discrepancyNote svc (totalEstimatedKg batch.requests)
    (addWeights 0 dto.materialsActual) with
  | some note => flagBatch id batch centerId dto note
  | none => acceptBatch id batch centerId dto

def approvalNote (approverId : String) (customNote : Option String) : String :=
  match truthy customNote with
  | some note => "Aprobado manualmente por " ++ approverId ++ ": " ++ note
  | none => "Aprobado manualmente por usuario " ++ approverId ++ ". Se procede con minteo."

def approveFlaggedBatch (id approverId : String) (customNote : Option String) : Work Batch := do
  let batch ← requireBatch id
  require (batch.row.status == .flaggedForReview) (.badRequest
    ("Solo lotes en estado FLAGGED_FOR_REVIEW pueden ser aprobados manualmente (Estado actual: " ++
      statusName batch.row.status ++ ")"))
  let updated ← call (.updateBatch id
    { status := some .processing,
      discrepancyNote := some (some (approvalNote approverId customNote)) })
  call (.addJob (jobOf updated updated.destinationCenterId updated.materialsActual batch.requests))
  pure updated

/-! ### Disputes -/

def disputeBatch (collectorUserId batchId reason : String) : Work Batch := do
  let batch ← requireBatch batchId
  require (batch.row.collectorId == collectorUserId)
    (.forbidden "Solo el recolector asignado al lote puede impugnar el pesaje")
  require (batch.row.status == .flaggedForReview) (.badRequest
    ("Solo lotes con observación de discrepancia (FLAGGED_FOR_REVIEW) pueden ser impugnados (Estado actual: " ++
      statusName batch.row.status ++ ")"))
  BatchStateMachine.validateTransition batch.row.status .disputed
  let updated ← call (.updateBatch batchId {
    status := some .disputed
    discrepancyNote := some (some ("[DISPUTA B2B ABIERTA POR RECOLECTOR] Motivo: " ++ reason)) })
  call (.emit (batch.row.destinationCenterId.getD "") "batch:updated")
  call (.emit collectorUserId "batch:updated")
  pure updated

def resolveDispute (batchId : String) (adjustedMaterials : Option NumberRecord)
    (resolutionNote : Option String) : Work Batch := do
  let batch ← requireBatch batchId
  require (batch.row.status == .disputed) (.badRequest
    ("Solo lotes en estado DISPUTED pueden ser resueltos (Estado actual: " ++
      statusName batch.row.status ++ ")"))
  call (.updateBatch batchId {
    status := some .received
    materialsActual := adjustedMaterials.or batch.row.materialsActual
    discrepancyNote := some
      (((truthy resolutionNote).map fun note =>
        "Arbitraje Admin: " ++ note).or batch.row.discrepancyNote)
    hasDiscrepancy := some false })

/-! ### Settlement -/

def fiatSettlement (centerUserId batchId : String) : Work Batch := do
  let batch ← requireBatch batchId
  require (batch.row.destinationCenterId == some centerUserId)
    (.forbidden "No tienes permisos para registrar liquidaciones de este lote")
  require (batch.row.status != .disputed)
    (.badRequest "No se puede asentar pago fiat en un lote con disputa activa")
  require (batch.row.status == .received || batch.row.status == .consolidated) (.badRequest
    ("Solo lotes en estado RECEIVED o CONSOLIDATED pueden registrar cierre de pago fiat (Estado actual: " ++
      statusName batch.row.status ++ ")"))
  require (!batch.row.fiatSettled)
    (.conflict "El pago fiat ya ha sido registrado previamente para este lote")
  let now ← call .now
  let updated ← call (.updateBatch batchId { fiatSettled := some true, fiatSettledAt := some now })
  call (.emit batch.row.collectorId "batch:fiat-settled")
  call (.emit batch.row.collectorId "batch:updated")
  call (.emit centerUserId "batch:updated")
  pure updated

/-! ### Consolidation and routes -/

/-- The weight of a batch: `BatchLeaf` -/
def leafWeightKg (b : Batch) : ℚ := addWeights 0 (b.materialsActual.getD [])

/-- The weight of batches together: `ConsolidatedBatchComposite` -/
def totalWeightKg (batches : List Batch) : ℚ :=
  toFixed (batches.foldl (fun sum b => fl (sum + leafWeightKg b)) 0) 3

def requireMember (centerId : String) (b : Batch) : Work Unit := do
  require (b.destinationCenterId == some centerId)
    (.forbidden ("El lote " ++ b.id ++ " no está destinado a este Centro de Acopio"))
  require (b.status == .received) (.badRequest
    ("El lote " ++ b.id ++ " debe estar en estado RECEIVED para ser consolidado (estado actual: " ++
      statusName b.status ++ ")"))

def requireMembers (centerId : String) : List Batch → Work Unit
  | [] => pure ()
  | b :: rest => do
    requireMember centerId b
    requireMembers centerId rest

def createConsolidatedBatch (centerId : String) (batchIds : List String) :
    Work ConsolidatedBatch := do
  let batches ← call (.findBatches batchIds)
  require (batches.length == batchIds.length)
    (.notFound "Uno o más lotes especificados no fueron encontrados")
  requireMembers centerId batches
  call (.consolidate centerId (totalWeightKg batches) batchIds)

def defaultReason : String :=
  "Centro de acopio de destino original no disponible o cerrado. Redirección por contingencia en ruta."

/-- A message to the centre that the batch was on its way to. -/
def tellCenter (centerId : Option String) : Work Unit :=
  match truthy centerId with
  | some id => call (.emit id "batch:updated")
  | none => pure ()

def rerouteBatch (batchId collectorId newCenterId : String) (reason proofPhotoUrl : Option String) :
    Work Batch := do
  let batch ← requireBatch batchId
  require (batch.row.collectorId == collectorId)
    (.forbidden "Solo el recolector a cargo del lote puede redirigirlo")
  require (batch.row.status == .open || batch.row.status == .inTransit) (.badRequest
    ("Solo lotes en estado OPEN o IN_TRANSIT pueden ser redirigidos (Estado actual: " ++
      statusName batch.row.status ++ ")"))
  BatchStateMachine.validateTransition batch.row.status .rerouted
  require (batch.row.destinationCenterId != some newCenterId)
    (.badRequest "El nuevo centro de acopio no puede ser idéntico al actual")
  requireCenter newCenterId
    (.badRequest "El centro de acopio destino no existe o no posee un rol autorizado")
  let updated ← call (.reroute batchId newCenterId
    ⟨batchId, collectorId, (truthy reason).getD defaultReason, (truthy proofPhotoUrl).toList⟩)
  tellCenter batch.row.destinationCenterId
  call (.emit newCenterId "batch:dispatched")
  call (.emit newCenterId "batch:updated")
  call (.emit collectorId "batch:updated")
  pure updated

/-! ### Endpoints -/

inductive Endpoint where
  | update (id destinationCenterId : String)
  | receive (id : String) (dto : ReceiveBatchDto)
  | approveFlagged (id : String)
  | overrideDiscrepancy (id : String) (discrepancyNote : Option String)
  | fiatSettlement (id : String)
  | dispute (id reason : String)
  | resolveDispute (id : String) (materialsActual : Option NumberRecord)
    (resolutionNote : Option String)
  | reroute (id newCenterId : String) (reason proofPhotoUrl : Option String)
  | consolidate (batchIds : List String)

structure Caller where
  id : String
  role : Role
deriving DecidableEq

/-- `@Roles` -/
def roles : Endpoint → List Role
  | .update _ _ => [.recolector]
  | .receive _ _ => [.centroAcopio]
  | .approveFlagged _ => [.admin, .centroAcopio]
  | .overrideDiscrepancy _ _ => [.admin, .centroAcopio]
  | .fiatSettlement _ => [.centroAcopio]
  | .dispute _ _ => [.recolector]
  | .resolveDispute _ _ _ => [.admin]
  | .reroute _ _ _ _ => [.recolector]
  | .consolidate _ => [.centroAcopio]

def roleName : Role → String
  | .hogar => "HOGAR"
  | .recolector => "RECOLECTOR"
  | .centroAcopio => "CENTRO_ACOPIO"
  | .empresaB2b => "EMPRESA_B2B"
  | .admin => "ADMIN"
  | .tienda => "TIENDA"

/-- `RolesGuard` -/
def rolesGuard (required : List Role) (caller : Caller) : Work Unit :=
  require (required.contains caller.role) (.forbidden
    ("Requiere alguno de los siguientes roles: " ++ ", ".intercalate (required.map roleName)))

inductive Answer where
  | batch (b : Batch)
  | consolidated (row : ConsolidatedBatch)
deriving DecidableEq

def one (a : Work Batch) : Work Answer := do
  let b ← a
  pure (.batch b)

def service (svc : Service) (caller : Caller) : Endpoint → Work Answer
  | .update id destinationCenterId => one (updateBatch id caller.id destinationCenterId)
  | .receive id dto => one (receiveBatch svc id caller.id dto)
  | .approveFlagged id => one (approveFlaggedBatch id caller.id none)
  | .overrideDiscrepancy id discrepancyNote =>
    one (approveFlaggedBatch id caller.id discrepancyNote)
  | .fiatSettlement id => one (fiatSettlement caller.id id)
  | .dispute id reason => one (disputeBatch caller.id id reason)
  | .resolveDispute id materialsActual resolutionNote =>
    one (resolveDispute id materialsActual resolutionNote)
  | .reroute id newCenterId reason proofPhotoUrl =>
    one (rerouteBatch id caller.id newCenterId reason proofPhotoUrl)
  | .consolidate batchIds => do
    let row ← createConsolidatedBatch caller.id batchIds
    pure (.consolidated row)

def endpoint (svc : Service) (caller : Caller) (e : Endpoint) : Work Answer := do
  rolesGuard (roles e) caller
  service svc caller e

/-! ### Keeping to a protocol -/

section Following

variable {σ α : Type} {P : Protocol σ Op fun i => Except Failure (Reply i)} {s : σ}

def Passes (P : Protocol σ Op fun i => Except Failure (Reply i)) (i : Op) : Prop :=
  ∀ s, P.Allowed s i ∧ ∀ r, P.next s i r = s

/-- Messages, and what is read of users and the time, are of no matter to the protocol. -/
structure Lenient (P : Protocol σ Op fun i => Except Failure (Reply i)) : Prop where
  emit : ∀ userId event, Passes P (.emit userId event)
  findUser : ∀ id, Passes P (.findUser id)
  now : Passes P .now

theorem follows_require {condition : Bool} {e : Failure} {f : Unit → Work α}
    (hf : condition = true → Follows P s (f ())) : Follows P s (require condition e >>= f) := by
  cases condition with
  | true => exact hf rfl
  | false => exact follows_throw e

theorem follows_pass {i : Op} {f : Reply i → Work α} (h : Passes P i)
    (hf : ∀ x, Follows P s (f x)) :
    Follows P s (call i >>= f) :=
  follows_call (h s).1 fun x => by
    rw [(h s).2 (.ok x)]
    exact hf x

theorem Lenient.requireCenter {centerId : String} {e : Failure} {f : Unit → Work α} (h : Lenient P)
    (hf : Follows P s (f ())) : Follows P s (requireCenter centerId e >>= f) := by
  refine follows_after (Q := fun t _ => t = s) ?_ fun x t ht => ht ▸ hf
  refine obeys_call.mpr ⟨(h.findUser _ s).1, fun center => ?_, fun e y hy => by cases hy⟩
  rw [(h.findUser _ s).2]
  unfold require
  split
  · exact fun _ _ => rfl
  · exact fun y hy => by cases hy

theorem follows_validate {currentStatus targetStatus : BatchStatus} {f : Unit → Work α}
    (hf : BatchStateMachine.allows currentStatus targetStatus = true → Follows P s (f ())) :
    Follows P s (BatchStateMachine.validateTransition currentStatus targetStatus >>= f) := by
  unfold BatchStateMachine.validateTransition
  split
  · exact hf ‹_›
  · exact follows_throw _

theorem Lenient.tellCenter {centerId : Option String} {f : Unit → Work α} (h : Lenient P)
    (hf : ∀ x, Follows P s (f x)) : Follows P s (tellCenter centerId >>= f) := by
  unfold BatchServices.tellCenter
  split
  · exact follows_pass (h.emit _ _) hf
  · exact hf ()

theorem follows_requireBatch {id : String} {f : FoundBatch → Work α}
    (h : P.Allowed s (.findBatch id))
    (hf : ∀ batch, Follows P (P.next s (.findBatch id) (.ok (some batch))) (f batch)) :
    Follows P s (requireBatch id >>= f) := by
  refine follows_after (Q := fun t batch => t = P.next s (.findBatch id) (.ok (some batch))) ?_
    fun batch t ht => ht ▸ hf batch
  refine obeys_call.mpr ⟨h, fun found => ?_, fun e y hy => by cases hy⟩
  cases found with
  | none => exact fun y hy => by cases hy
  | some batch => exact fun y hy => by cases hy; rfl

theorem requireMembers_cases (centerId : String) (rows : List Batch) :
    (∃ e, requireMembers centerId rows = throw e) ∨ requireMembers centerId rows = pure () ∧
      ∀ b ∈ rows, b.destinationCenterId = some centerId ∧ b.status = .received := by
  induction rows with
  | nil => exact .inr ⟨rfl, by simp⟩
  | cons b rest ih =>
    cases hdestined : b.destinationCenterId == some centerId with
    | false =>
      refine .inl ⟨.forbidden ("El lote " ++ b.id ++ " no está destinado a este Centro de Acopio"),
        ?_⟩
      unfold requireMembers requireMember require
      rw [hdestined]
      rfl
    | true =>
      cases hreceived : b.status == .received with
      | false =>
        refine .inl ⟨.badRequest ("El lote " ++ b.id ++
          " debe estar en estado RECEIVED para ser consolidado (estado actual: " ++
            statusName b.status ++ ")"), ?_⟩
        unfold requireMembers requireMember require
        rw [hdestined, hreceived]
        rfl
      | true =>
        have hrest : requireMembers centerId (b :: rest) = requireMembers centerId rest := by
          conv_lhs => unfold requireMembers requireMember require
          rw [hdestined, hreceived]
          rfl
        rw [hrest]
        rcases ih with hthrow | ⟨hpure, hall⟩
        · exact .inl hthrow
        · exact .inr ⟨hpure, List.forall_mem_cons.mpr
            ⟨⟨beq_iff_eq.mp hdestined, beq_iff_eq.mp hreceived⟩, hall⟩⟩

theorem follows_requireMembers {centerId : String} {rows : List Batch} {f : Unit → Work α}
    (hf : (∀ b ∈ rows, b.destinationCenterId = some centerId ∧ b.status = .received) →
      Follows P s (f ())) : Follows P s (requireMembers centerId rows >>= f) := by
  rcases requireMembers_cases centerId rows with ⟨e, hthrow⟩ | ⟨hpure, hall⟩
  · rw [hthrow]
    exact follows_throw e
  · rw [hpure]
    exact hf hall

end Following

end Livora.BatchServices
