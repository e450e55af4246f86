import Livora.CollectionServices
import Livora.SummedPrograms
import Livora.TripOrders

/-! Where a collector is while he is on his way: `updateCollectorLocation`, which goes by the entry
that is kept in Redis or else by the row, and what a verification of the PIN does once everything is
paid. -/

namespace Livora.TelemetryServices

open DoubleRounding NumberTexts EffectPrograms EffectPrograms.Action SummedPrograms
open CollectionBooks CollectionServices
open PinVerification (RequestStatus truthy)
open RewardStrategies (NumberRecord)
open TripOrders (Position)

structure CollectorTelemetryDto where
  latitude : Double
  longitude : Double
  heading : Option Double
  speed : Option Double
  timestamp : Option Double
  distanceRemainingMeters : Option Double
  etaMinutes : Option Double
  transportType : Option String

structure SocketPayload where
  requestId : String
  collectorId : String
  transportType : String
  latitude : Double
  longitude : Double
  heading : ScriptNumber
  speed : ScriptNumber
  distanceRemainingMeters : ScriptNumber
  etaMinutes : ScriptNumber
  timestamp : ScriptNumber
deriving DecidableEq

/-- The service with the places of the requests, which no write changes. -/
structure TrackingService where
  toService : Service
  place : String → Position
  haversineKm : Position → Position → Double

/-! ### The payload -/

def defaultSpeed (transportType : String) : ℚ :=
  if transportType = "A_PIE" then fl (21 / 5)
  else if transportType = "TRICICLO" then 11
  else if transportType = "BICICLETA" then 15
  else if transportType = "MOTO_CARGA" then 24
  else if transportType = "CAMIONETA" then 30
  else 20

/-- `speed > 3 ? Math.min(speed, defaultSpeed * 1.5) : defaultSpeed` -/
def effectiveSpeedKmh (speed : ℚ) (transportType : String) : ScriptNumber :=
  if 3 < speed then .ofRat (min speed (fl (defaultSpeed transportType * (3 / 2))))
  else .ofRat (defaultSpeed transportType)

def remainingMeters (svc : TrackingService) (dto : CollectorTelemetryDto) (route : RouteMeta) :
    ScriptNumber :=
  match dto.distanceRemainingMeters.filter fun x => decide (0 ≤ x.val) with
  | some x => (ScriptNumber.finite x).round
  | none =>
    let distKm := svc.haversineKm ⟨dto.latitude, dto.longitude⟩ (svc.place route.id)
    ((ScriptNumber.finite distKm).mul (.ofRat 1000)).round

def etaMinutes (dto : CollectorTelemetryDto)
    (distanceRemainingMeters effectiveSpeedKmh : ScriptNumber) :
    ScriptNumber :=
  match dto.etaMinutes.filter fun x => decide (0 < x.val) with
  | some x => .finite x
  | none =>
    .max (.ofRat 1) (((distanceRemainingMeters.div (.ofRat 1000)).div effectiveSpeedKmh).mul
      (.ofRat 60)).round

def socketPayload (svc : TrackingService) (id collectorId : String) (dto : CollectorTelemetryDto)
    (route : RouteMeta) (timestamp : ScriptNumber) : SocketPayload :=
  let distance := remainingMeters svc dto route
  let transportType :=
    ((truthy dto.transportType).or (truthy (some route.transportType))).getD "MOTO_CARGA"
  let speed := (dto.speed.map Double.val).getD 0
  { requestId := id
    collectorId := collectorId
    transportType := transportType
    latitude := dto.latitude
    longitude := dto.longitude
    heading := .ofRat ((dto.heading.map Double.val).getD 0)
    speed := .ofRat speed
    distanceRemainingMeters := distance
    etaMinutes := etaMinutes dto distance (effectiveSpeedKmh speed transportType)
    timestamp := timestamp }

/-! ### The calls -/

inductive TrackingOp where
  | getActive (id : String)
  | findAssignment (id : String)
  | setLocation (payload : SocketPayload)
  | relay (householdId : String) (payload : SocketPayload)
  | completeRequest (id : String) (targetBatchId : Option String) (actualWeights : NumberRecord)

abbrev TrackingReply : TrackingOp → Type
  | .getActive _ => Option RouteMeta
  | .findAssignment _ => Option CollectionRequest
  | .setLocation _ => Unit
  | .relay _ _ => Unit
  | .completeRequest _ _ _ => Bool

abbrev AnyOp := Op ⊕ TrackingOp

abbrev AnyReply : AnyOp → Type := Sum.elim Reply TrackingReply

abbrev TrackingWork (α : Type) := Action AnyOp AnyReply Failure α

def track (i : TrackingOp) : TrackingWork (TrackingReply i) := perform (ρ := AnyReply) (Sum.inr i)

/-! ### The services -/

def onlyAssigned : Failure :=
  .forbidden "Solo el recolector asignado puede enviar coordenadas para esta solicitud"

/-- Without an entry the row decides, and what it says becomes the entry. -/
def readAssignment (svc : TrackingService) (id collectorId : String) : TrackingWork RouteMeta := do
  match ← track (.findAssignment id) with
  | none => throw notFound
  | some dbReq =>
    if dbReq.collectorId = some collectorId then
      if dbReq.status = .enRoute then do
        let transportType ← lift (call (.findTransport collectorId))
        let route :=
          ⟨id, dbReq.collectorId, dbReq.householdId, (truthy transportType).getD "MOTO_CARGA"⟩
        lift (if svc.toService.redis then recover (call (.cacheRoute route)) () else pure ())
        pure route
      else throw (.badRequest ("Solo solicitudes en estado EN_ROUTE aceptan telemetría " ++
        "(Estado actual: " ++ statusName dbReq.status ++ ")"))
    else throw onlyAssigned

def cachedRoute (svc : TrackingService) (id : String) : TrackingWork (Option RouteMeta) :=
  if svc.toService.redis then recover (track (.getActive id)) none else pure none

def assignment (svc : TrackingService) (id collectorId : String) : TrackingWork RouteMeta := do
  match ← cachedRoute svc id with
  | some route => if route.collectorId = some collectorId then pure route else throw onlyAssigned
  | none => readAssignment svc id collectorId

/-- `dto.timestamp || Date.now()` -/
def timestampOf (dto : CollectorTelemetryDto) : TrackingWork ScriptNumber :=
  match dto.timestamp.filter fun x => decide (x.val ≠ 0) with
  | some x => pure (.finite x)
  | none => do
    let now ← lift (call .clock)
    pure (.ofRat now)

def updateCollectorLocation (svc : TrackingService) (id collectorId : String)
    (dto : CollectorTelemetryDto) :
    TrackingWork SocketPayload := do
  let route ← assignment svc id collectorId
  let timestamp ← timestampOf dto
  let payload := socketPayload svc id collectorId dto route timestamp
  if svc.toService.redis then recover (track (.setLocation payload)) () else pure ()
  track (.relay route.householdId payload)
  pure payload

/-- The end of `verifyPin`. -/
def completeVerification (svc : TrackingService) (id : String) (targetBatchId : Option String)
    (actualWeights : NumberRecord) : TrackingWork Unit := do
  let success ← track (.completeRequest id targetBatchId actualWeights)
  if success then do
    let completed ← lift (call (.findRequest id))
    lift (CollectionTrackingService.purgeRoutes svc.toService id)
    match completed with
    | some completed => lift (WebsocketsService.emitCollectionUpdated completed.stripPin)
    | none => pure ()
  else throw (.badRequest "La solicitud ya fue procesada o no está en estado ACCEPTED, EN_ROUTE o ARRIVED")

inductive TrackingCaller where
  | collection (caller : Caller)
  | updateCollectorLocation (id collectorId : String) (dto : CollectorTelemetryDto)
  | verifyPin (id : String) (targetBatchId : Option String) (actualWeights : NumberRecord)

inductive TrackingResult where
  | collection (result : Result)
  | location (payload : SocketPayload)
  | verified

def program (svc : TrackingService) : TrackingCaller → TrackingWork TrackingResult
  | .collection caller => do
    let result ← lift (CollectionServices.program svc.toService caller)
    pure (.collection result)
  | .updateCollectorLocation id collectorId dto => do
    let payload ← updateCollectorLocation svc id collectorId dto
    pure (.location payload)
  | .verifyPin id targetBatchId actualWeights => do
    completeVerification svc id targetBatchId actualWeights
    pure .verified

/-! ### The world -/

structure TrackingWorld where
  books : World
  locations : String → Option SocketPayload
  /-- What was relayed, and to whom. -/
  relayed : List (String × SocketPayload)

namespace TrackingWorld

def effect (w : TrackingWorld) : TrackingOp → TrackingWorld
  | .setLocation payload =>
    { w with locations := Function.update w.locations payload.requestId (some payload) }
  | .relay householdId payload => { w with relayed := w.relayed ++ [(householdId, payload)] }
  | .completeRequest id targetBatchId actualWeights =>
    { w with books := w.books.completeRequest id targetBatchId actualWeights }
  | _ => w

def after (w : TrackingWorld) (o : Outcome) : AnyOp → TrackingWorld
  | .inl i => { w with books := w.books.after i o }
  | .inr i => if o.delivery.applied then w.effect i else w

/-- An UPDATE that names an unknown column fails whatever the row is. -/
def completion (w : TrackingWorld) (o : Outcome) (id : String) : Except Failure Bool :=
  if PinVerification.completionDefined then
    o.delivery.answer .outside ((w.books.findRequest id).any fun row =>
      PinVerification.CollectionStateMachine.canVerifyPin row.status)
  else .error .outside

def reply (w : TrackingWorld) (o : Outcome) : (i : AnyOp) → Except Failure (AnyReply i)
  | .inl i => w.books.reply i o
  | .inr (.getActive id) => o.delivery.answer .outside (w.books.around.routes id)
  | .inr (.findAssignment id) => o.delivery.answer .outside (w.books.findRequest id)
  | .inr (.setLocation _) => o.delivery.answer .outside ()
  | .inr (.relay _ _) => o.delivery.answer .outside ()
  | .inr (.completeRequest id _ _) => w.completion o id

def serve (w : TrackingWorld) (i : AnyOp) (o : Outcome) :
    Except Failure (AnyReply i) × TrackingWorld :=
  (w.reply o i, w.after o i)

end TrackingWorld

end Livora.TelemetryServices
