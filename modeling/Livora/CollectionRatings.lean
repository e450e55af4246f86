import Livora.CollectionServices
import Livora.KeyedRows

/-! `rateCollectionRequest`: the household rates a completed request, and the average of its
collector takes the rating in. The request is read and written, and then the collector, each in a
call of its own. -/

namespace Livora.CollectionRatings

open DoubleRounding EffectPrograms EffectPrograms.Action KeyedRows RewardStrategies
open PinVerification (RequestStatus Delivery)
open StoreBooks (Failure)

/-! ### The tables -/

structure Request where
  id : String
  status : RequestStatus
  householdId : String
  collectorId : Option String
  rating : Option ℕ
  feedback : Option String
deriving DecidableEq

structure Collector where
  id : String
  reputationScore : ℚ
  totalRatings : ℕ
  requiresQaReview : Bool
deriving DecidableEq

structure RateCollectionDto where
  rating : ℕ
  feedback : Option String
  least : 1 ≤ rating
  most : rating ≤ 5
  short : ∀ text, feedback = some text → text.length ≤ 500

structure RatingResult where
  message : String
  requestId : String
  rating : Option ℕ
  feedback : Option String
  collectorReputationScore : ℚ
  requiresQaReview : Bool
deriving DecidableEq

/-! ### The calls -/

inductive Op where
  | findRequest (id : String)
  | rate (id : String) (rating : ℕ) (feedback : Option String)
  | findCollector (collectorId : String)
  /-- The request it is for is kept for statements only. -/
  | updateCollector (requestId collectorId : String) (reputationScore : ℚ) (totalRatings : ℕ)
      (requiresQaReview : Bool)

abbrev Reply : Op → Type
  | .findRequest _ => Option Request
  | .rate _ _ _ => Request
  | .findCollector _ => Option Collector
  | .updateCollector _ _ _ _ _ => Unit

abbrev Work (α : Type) := Action Op Reply Failure α

def call (i : Op) : Work (Reply i) := perform i

/-! ### The world -/

structure World where
  requests : List Request
  collectors : List Collector
  /-- The requests whose rating an average has taken in; kept for statements only. -/
  contributions : List String

namespace World

def findRequest (w : World) (id : String) : Option Request := lookup Request.id w.requests id

def findCollector (w : World) (collectorId : String) : Option Collector :=
  lookup Collector.id w.collectors collectorId

def ratedAs (id : String) (rating : ℕ) (feedback : Option String) (row : Request) : Request :=
  if row.id = id then { row with rating := some rating, feedback := feedback.or row.feedback } else row

def averagedAs (collectorId : String) (reputationScore : ℚ) (totalRatings : ℕ)
    (requiresQaReview : Bool) (row : Collector) : Collector :=
  if row.id = collectorId then
    { row with
      reputationScore := reputationScore
      totalRatings := totalRatings
      requiresQaReview := requiresQaReview }
  else row

/-- What a call does where it takes effect; an update of no row throws. -/
def effect (w : World) : Op → World
  | .rate id rating feedback => { w with requests := w.requests.map (ratedAs id rating feedback) }
  | .updateCollector requestId collectorId reputationScore totalRatings requiresQaReview =>
    if (w.findCollector collectorId).isSome then
      { w with
        collectors := w.collectors.map
          (averagedAs collectorId reputationScore totalRatings requiresQaReview)
        contributions := w.contributions ++ [requestId] }
    else w
  | _ => w

def after (w : World) (i : Op) (d : Delivery) : World := if d.applied then w.effect i else w

def updated {α : Type} (d : Delivery) (row : Option α) : Except Failure α :=
  row.elim (.error .outside) (d.answer .outside)

def reply (w : World) (i : Op) (d : Delivery) : Except Failure (Reply i) :=
  match i with
  | .findRequest id => d.answer .outside (w.findRequest id)
  | .rate id rating feedback => updated d ((w.findRequest id).map (ratedAs id rating feedback))
  | .findCollector collectorId => d.answer .outside (w.findCollector collectorId)
  | .updateCollector _ collectorId _ _ _ =>
    updated d ((w.findCollector collectorId).map fun _ => ())

def serve (w : World) (i : Op) (d : Delivery) : Except Failure (Reply i) × World :=
  (w.reply i d, w.after i d)

end World

/-! ### The service -/

/-- `Number(((currentRep * currentTotal + rating) / newTotalRatings).toFixed(2))` -/
def newReputation (collector : Collector) (rating : ℕ) : ℚ :=
  toFixed (fl (fl (fl (collector.reputationScore * collector.totalRatings) + rating) /
    (collector.totalRatings + 1 : ℕ))) 2

def requiresQa (newReputation : ℚ) (newTotalRatings : ℕ) : Bool :=
  decide (newReputation < 3) && decide (5 ≤ newTotalRatings)

def result (updated : Request) (newReputation : ℚ) (requiresQa : Bool) : RatingResult :=
  ⟨"Calificación registrada exitosamente", updated.id, updated.rating, updated.feedback,
    newReputation, requiresQa⟩

def average (updated : Request) (rating : ℕ) (collector : Collector) : Work RatingResult := do
  let newReputation := newReputation collector rating
  let newTotalRatings := collector.totalRatings + 1
  let requiresQa := requiresQa newReputation newTotalRatings
  call (.updateCollector updated.id collector.id newReputation newTotalRatings
    (if requiresQa then true else collector.requiresQaReview))
  pure (result updated newReputation requiresQa)

/-- `if (request.collectorId)` -/
def averageOf (updated : Request) (rating : ℕ) (collectorId : Option String) : Work RatingResult :=
  match PinVerification.truthy collectorId with
  | none => pure (result updated 5 false)
  | some collectorId => do
    match ← call (.findCollector collectorId) with
    | none => pure (result updated 5 false)
    | some collector => average updated rating collector

def rateFound (id : String) (request : Request) (dto : RateCollectionDto) : Work RatingResult := do
  let updated ← call (.rate id dto.rating dto.feedback)
  averageOf updated dto.rating request.collectorId

def rateCollectionRequest (householdUserId id : String) (dto : RateCollectionDto) :
    Work RatingResult := do
  match ← call (.findRequest id) with
  | none => throw (.notFound "Solicitud de recolección no encontrada")
  | some request =>
    if request.householdId ≠ householdUserId then
      throw (.forbidden "Solo el hogar creador de la solicitud puede calificar este servicio")
    else if request.status ≠ .completed then
      throw (.badRequest ("Solo se pueden calificar solicitudes en estado COMPLETED " ++
        "(Estado actual: " ++ CollectionServices.statusName request.status ++ ")"))
    else if request.rating.isSome then
      throw (.conflict "Esta solicitud ya cuenta con una calificación registrada")
    else rateFound id request dto

end Livora.CollectionRatings
