import Livora.StoreBooks

/-! The collection requests with their bids, and every outside call that the services
and the timeout worker of the collections make. A row is read, looked at and later
written by its id; what the write puts into it does not depend on what stands there
by then. Only the edit and the completion go by the row they find. -/

namespace Livora.CollectionBooks

open DoubleRounding EffectPrograms EffectPrograms.Action RewardStrategies
open PinVerification (RequestStatus Delivery truthy completionDefined)
open PinVerification.CollectionStateMachine (canVerifyPin)
open StoreBooks (storedAmount shown)

/-! ### The tables -/

inductive AssignmentMode where
  | automatic
  | auction
deriving DecidableEq

inductive BidStatus where
  | pending
  | accepted
  | rejected
  | rejectedManual
  | rejectedOutbid
  | withdrawn
  | expired
deriving DecidableEq

inductive KycStatus where
  | unverified
  | pending
  | observed
  | inReview
  | approved
  | rejected
  | expired
deriving DecidableEq

structure User where
  id : String
  kycStatus : KycStatus
  walletAddress : Option String
  reputationScore : ℚ
deriving DecidableEq

/-- A row of the requests, or what is shown of one: `P` holds its PIN. -/
structure Request (P : Type) where
  id : String
  status : RequestStatus
  assignmentMode : AssignmentMode
  itemsEstimated : NumberRecord
  description : Option String
  verificationPin : P
  householdId : String
  collectorId : Option String
  assignedCenterId : Option String
  agreedRates : Option NumberRecord
  escrowLocked : ℚ
  batchId : Option String
  actualWeights : Option NumberRecord
  enRouteAt : Option ℕ
  arrivedAt : Option ℕ
  noShowFeePen : Option ℚ
  rejectionReason : Option String
  auctionExpiresAt : Option ℕ
  isDonation : Bool
  createdAt : ℕ
  updatedAt : ℕ
  /-- A bid was selected and the request not cancelled since; kept for statements only. -/
  auctioned : Bool
deriving DecidableEq

abbrev CollectionRequest := Request String

abbrev RequestView := Request (Option String)

namespace Request

def withPin {P Q : Type} (row : Request P) (pin : Q) : Request Q where
  id := row.id
  status := row.status
  assignmentMode := row.assignmentMode
  itemsEstimated := row.itemsEstimated
  description := row.description
  verificationPin := pin
  householdId := row.householdId
  collectorId := row.collectorId
  assignedCenterId := row.assignedCenterId
  agreedRates := row.agreedRates
  escrowLocked := row.escrowLocked
  batchId := row.batchId
  actualWeights := row.actualWeights
  enRouteAt := row.enRouteAt
  arrivedAt := row.arrivedAt
  noShowFeePen := row.noShowFeePen
  rejectionReason := row.rejectionReason
  auctionExpiresAt := row.auctionExpiresAt
  isDonation := row.isDonation
  createdAt := row.createdAt
  updatedAt := row.updatedAt
  auctioned := row.auctioned

def whole (row : CollectionRequest) : RequestView := row.withPin (some row.verificationPin)

/-- The row without its `verificationPin`. -/
def stripPin (row : CollectionRequest) : RequestView := row.withPin none

end Request

structure AcopioBid where
  id : String
  requestId : String
  centerId : String
  proposedRates : NumberRecord
  totalEstimatedPenn : ℚ
  totalEstimatedEco : ℚ
  status : BidStatus
deriving DecidableEq

structure FoundRequest where
  row : CollectionRequest
  household : Option User
  collector : Option User
deriving DecidableEq

structure FoundAuction where
  row : CollectionRequest
  bids : List AcopioBid
deriving DecidableEq

/-- What is kept in Redis while a collector is on his way. -/
structure RouteMeta where
  id : String
  collectorId : Option String
  householdId : String
  transportType : String
deriving DecidableEq

/-! ### What is written -/

/-- The data that each operation writes to a request, with whom it acts for. -/
inductive Change where
  | accept (collectorId : String) (requiredEscrow : ℚ)
  | cancelByCollector (userId : String)
  | cancelByHousehold (userId : String)
  | abandon (collectorUserId : String)
  | reportNoShow (collectorId : String)
  | rejectOnSite (collectorId reason : String)
  | startRoute (collectorId : String) (enRouteAt : ℕ)
  | reachDestination (collectorId : String) (arrivedAt : ℕ)
  | claimAutomatic (centerId : String) (agreedRates : NumberRecord)
  | selectBid (centerId : String) (agreedRates : NumberRecord)
  | revertAuction
  | pendingTimeout
  | acceptedInactivity
  | arrivedNoShow
deriving DecidableEq

def expiredReason : String :=
  "Expirada automáticamente: superó los 30 minutos sin recolector asignado."

namespace Change

/-- The row as the change leaves it; none where a number does not fit its column. -/
def apply (now : ℕ) (row : CollectionRequest) : Change → Option CollectionRequest
  | .accept collectorId requiredEscrow => (storedAmount requiredEscrow).map fun escrowLocked =>
      { row with
        status := .accepted, collectorId := some collectorId, escrowLocked := escrowLocked,
        updatedAt := now }
  | .cancelByCollector _ =>
    some { row with
      status := .cancelled, escrowLocked := 0, updatedAt := now, auctioned := false }
  | .cancelByHousehold _ =>
    some { row with
      status := .cancelled, escrowLocked := 0, updatedAt := now, auctioned := false }
  | .abandon _ =>
    some { row with
      status := .pending, collectorId := none, batchId := none, escrowLocked := 0,
      updatedAt := now }
  | .reportNoShow _ =>
    some { row with
      status := .unattended, escrowLocked := 0, noShowFeePen := some 2, updatedAt := now }
  | .rejectOnSite _ reason =>
    some { row with
      status := .rejectedOnSite, escrowLocked := 0, rejectionReason := some reason,
      updatedAt := now }
  | .startRoute _ enRouteAt =>
    some { row with status := .enRoute, enRouteAt := some enRouteAt, updatedAt := now }
  | .reachDestination _ arrivedAt =>
    some { row with status := .arrived, arrivedAt := some arrivedAt, updatedAt := now }
  | .claimAutomatic centerId agreedRates =>
    some { row with
      assignedCenterId := some centerId, agreedRates := some agreedRates, updatedAt := now }
  | .selectBid centerId agreedRates =>
    some { row with
      status := .auctionAssigned, assignedCenterId := some centerId,
      agreedRates := some agreedRates, updatedAt := now, auctioned := true }
  | .revertAuction =>
    some { row with status := .pending, assignmentMode := .automatic, updatedAt := now }
  | .pendingTimeout =>
    some { row with
      status := .cancelled, rejectionReason := some expiredReason, updatedAt := now,
      auctioned := false }
  | .acceptedInactivity =>
    some { row with status := .pending, collectorId := none, escrowLocked := 0, updatedAt := now }
  | .arrivedNoShow =>
    some { row with
      status := .unattended, escrowLocked := 0, noShowFeePen := some 2, updatedAt := now }

theorem apply_id {change : Change} {now : ℕ} {row row' : CollectionRequest}
    (h : change.apply now row = some row') : row'.id = row.id := by
  cases change with
  | accept collectorId requiredEscrow =>
    obtain ⟨escrowLocked, -, rfl⟩ := Option.map_eq_some_iff.mp h
    rfl
  | _ => cases h; rfl

end Change

structure Draft where
  status : RequestStatus
  assignmentMode : AssignmentMode
  itemsEstimated : NumberRecord
  description : Option String
  verificationPin : String
  householdId : String
  auctionExpiresAt : Option ℕ
  isDonation : Bool
deriving DecidableEq

def Draft.row (draft : Draft) (id : String) (now : ℕ) : CollectionRequest where
  id := id
  status := draft.status
  assignmentMode := draft.assignmentMode
  itemsEstimated := draft.itemsEstimated
  description := draft.description
  verificationPin := draft.verificationPin
  householdId := draft.householdId
  collectorId := none
  assignedCenterId := none
  agreedRates := none
  escrowLocked := 0
  batchId := none
  actualWeights := none
  enRouteAt := none
  arrivedAt := none
  noShowFeePen := none
  rejectionReason := none
  auctionExpiresAt := draft.auctionExpiresAt
  isDonation := draft.isDonation
  createdAt := now
  updatedAt := now
  auctioned := false

structure Offer where
  proposedRates : NumberRecord
  totalEstimatedPenn : ℚ
  totalEstimatedEco : ℚ
deriving DecidableEq

/-- The bid as the table keeps it; none where a total does not fit its column. -/
def Offer.bid (offer : Offer) (id requestId centerId : String) : Option AcopioBid := do
  let totalEstimatedPenn ← storedAmount offer.totalEstimatedPenn
  let totalEstimatedEco ← storedAmount offer.totalEstimatedEco
  some ⟨id, requestId, centerId, offer.proposedRates, totalEstimatedPenn, totalEstimatedEco,
    .pending⟩

theorem Offer.bid_eq {offer : Offer} {id requestId centerId : String} {bid : AcopioBid}
    (h : offer.bid id requestId centerId = some bid) : bid.id = id ∧ bid.requestId = requestId ∧
      bid.centerId = centerId ∧ bid.proposedRates = offer.proposedRates ∧
        bid.status = .pending := by
  obtain ⟨penn, -, h⟩ := Option.bind_eq_some_iff.mp h
  obtain ⟨eco, -, h⟩ := Option.bind_eq_some_iff.mp h
  cases h
  exact ⟨rfl, rfl, rfl, rfl, rfl⟩

/-! ### Events -/

inductive Room where
  | collectorsActive
  | user (userId : String)
deriving DecidableEq

inductive Payload where
  | request (view : RequestView)
  /-- A message that names the request and holds nothing else of it. -/
  | notice (requestId : String)
  | nothing
deriving DecidableEq

/-! ### The calls -/

inductive Failure where
  | notFound (message : String)
  | badRequest (message : String)
  | forbidden (message : String)
  | conflict (message : String)
  /-- Whatever a call outside threw. -/
  | outside
deriving DecidableEq

inductive RouteKey where
  | active
  | location
  | route
deriving DecidableEq

inductive Op where
  | clock
  | random
  | findRequest (id : String)
  | findParties (id : String)
  | findUser (userId : String)
  | chainBalance (walletAddress : String)
  | completedPayments (userId : String)
  | activeEscrows (collectorId : String)
  | writeRequest (id : String) (change : Change)
  | editRequest (id householdId : String) (itemsEstimated : NumberRecord)
      (description : Option String)
  | findActiveRequest (householdId : String)
  | uploadPhoto
  | createRequest (draft : Draft)
  | cachePin (id pin : String)
  | setReputation (userId : String) (reputationScore : ℚ)
  | findVault (userId : String)
  | compensate (account wallet : String) (amount : ℚ)
  | findTransport (userId : String)
  | cacheRoute (route : RouteMeta)
  | purgeRoute (id : String) (key : RouteKey)
  | findExpiredPending (before : ℕ)
  | findExpiredAuctions (now : ℕ) (take : Option ℕ)
  | findInactive (before : ℕ)
  | findWaiting (before : ℕ)
  | priceList (centerId : String)
  | findBid (requestId centerId : String) (bidId : Option String)
  | findBidById (bidId : String)
  | updateBid (bidId : String) (offer : Offer)
  | createBid (requestId centerId : String) (offer : Offer)
  | withdrawBid (bidId : String)
  | expireBids (requestId : String)
  | rereadRequest (id : String)
  | otherBids (requestId bidId : String)
  | commitSelection (requestId : String) (bid : AcopioBid) (others : List String)
  | emit (room : Room) (event : String) (payload : Payload)

abbrev Reply : Op → Type
  | .clock => ℕ
  | .random => Fin 9000
  | .findRequest _ => Option CollectionRequest
  | .findParties _ => Option FoundRequest
  | .findUser _ => Option User
  | .chainBalance _ => ℕ
  | .completedPayments _ => List ℚ
  | .activeEscrows _ => List ℚ
  | .writeRequest _ _ => CollectionRequest
  | .editRequest _ _ _ _ => Bool
  | .findActiveRequest _ => Option CollectionRequest
  | .uploadPhoto => Unit
  | .createRequest _ => CollectionRequest
  | .cachePin _ _ => Unit
  | .setReputation _ _ => Unit
  | .findVault _ => Option String
  | .compensate _ _ _ => Unit
  | .findTransport _ => Option String
  | .cacheRoute _ => Unit
  | .purgeRoute _ _ => Unit
  | .findExpiredPending _ => List CollectionRequest
  | .findExpiredAuctions _ _ => List FoundAuction
  | .findInactive _ => List CollectionRequest
  | .findWaiting _ => List FoundRequest
  | .priceList _ => List (String × Double)
  | .findBid _ _ _ => Option AcopioBid
  | .findBidById _ => Option AcopioBid
  | .updateBid _ _ => AcopioBid
  | .createBid _ _ _ => AcopioBid
  | .withdrawBid _ => Unit
  | .expireBids _ => Unit
  | .rereadRequest _ => Option CollectionRequest
  | .otherBids _ _ => List String
  | .commitSelection _ _ _ => CollectionRequest
  | .emit _ _ _ => Unit

abbrev Work (α : Type) := Action Op Reply Failure α

def call (i : Op) : Work (Reply i) := perform i

/-! ### The world -/

structure Surroundings where
  users : List User
  prices : String → List (String × Double)
  payments : String → List ℚ
  vaults : String → Option String
  transports : String → Option String
  pins : String → Option String
  routes : String → Option RouteMeta

structure World where
  requests : List CollectionRequest
  bids : List AcopioBid
  around : Surroundings
  /-- The compensations handed to the chain: the account they leave, and the wallet. -/
  compensations : List (String × String × ℚ)
  now : ℕ

/-- How the answer of a call arrives, and what the outside puts into it. -/
structure Outcome where
  delivery : Delivery
  random : Fin 9000
  answer : Option ℕ
  id : String

/-- The reply of a write that finds nothing to write. -/
def deliverSome {α : Type} (d : Delivery) : Option α → Except Failure α
  | some a => d.answer .outside a
  | none => .error .outside

theorem deliverSome_ok {α : Type} {d : Delivery} {a : Option α} {b : α}
    (h : deliverSome d a = .ok b) : d = .done ∧ a = some b := by
  cases a with
  | none => cases h
  | some a =>
    obtain ⟨hdone, rfl⟩ := Delivery.answer_ok h
    exact ⟨hdone, rfl⟩

namespace World

def update (w : World) (d : Delivery) (f : World → World) : World := if d.applied then f w else w

/-! #### Reads -/

def findRequest (w : World) (id : String) : Option CollectionRequest :=
  w.requests.find? fun row => row.id == id

def findUser (w : World) (userId : String) : Option User :=
  w.around.users.find? fun user => user.id == userId

def withParties (w : World) (row : CollectionRequest) : FoundRequest :=
  ⟨row, w.findUser row.householdId, row.collectorId.bind w.findUser⟩

def bidsOf (w : World) (requestId : String) : List AcopioBid :=
  w.bids.filter fun bid => bid.requestId == requestId

def isActive : RequestStatus → Bool
  | .pending => true
  | .auctionActive => true
  | .auctionAssigned => true
  | .accepted => true
  | .enRoute => true
  | .arrived => true
  | _ => false

def collecting (w : World) (collectorId : String) : List CollectionRequest :=
  w.requests.filter fun row => row.collectorId == some collectorId && canVerifyPin row.status

def expiredAuctions (w : World) (now : ℕ) : List CollectionRequest :=
  w.requests.filter fun row =>
    row.status == .auctionActive && row.auctionExpiresAt.any fun t => decide (t ≤ now)

/-! #### Writes -/

def setRequest (w : World) (row : CollectionRequest) : World :=
  { w with requests := w.requests.map fun r => if r.id = row.id then row else r }

def changed (w : World) (id : String) (change : Change) : Option CollectionRequest :=
  (w.findRequest id).bind fun row => change.apply w.now row

def writeRequest (w : World) (id : String) (change : Change) : World :=
  match w.changed id change with
  | some row => w.setRequest row
  | none => w

/-- The row that the UPDATE of an edit finds. -/
def editable (w : World) (id householdId : String) : Option CollectionRequest :=
  (w.findRequest id).filter fun row =>
    row.status == .pending && row.householdId == householdId

def editRequest (w : World) (id householdId : String) (itemsEstimated : NumberRecord)
    (description : Option String) : World :=
  match w.editable id householdId with
  | some row => w.setRequest { row with
      itemsEstimated := itemsEstimated, description := description, updatedAt := w.now }
  | none => w

def createRequest (w : World) (id : String) (draft : Draft) : World :=
  if (w.findRequest id).isSome then w
  else { w with requests := w.requests ++ [draft.row id w.now] }

/-- The UPDATE that a verification of the PIN ends in. -/
def completeRequest (w : World) (id : String) (targetBatchId : Option String)
    (actualWeights : NumberRecord) : World :=
  if completionDefined then
    match (w.findRequest id).filter fun row => canVerifyPin row.status with
    | some row => w.setRequest { row with
        status := .completed, actualWeights := some actualWeights, batchId := targetBatchId,
        updatedAt := w.now }
    | none => w
  else w

def findBidById (w : World) (bidId : String) : Option AcopioBid :=
  w.bids.find? fun bid => bid.id == bidId

def setBid (w : World) (bid : AcopioBid) : World :=
  { w with bids := w.bids.map fun b => if b.id = bid.id then bid else b }

def reoffered (w : World) (bidId : String) (offer : Offer) : Option AcopioBid :=
  (w.findBidById bidId).bind fun bid => offer.bid bid.id bid.requestId bid.centerId

def updateBid (w : World) (bidId : String) (offer : Offer) : World :=
  match w.reoffered bidId offer with
  | some bid => w.setBid bid
  | none => w

/-- The bid that is inserted; none where the id is taken. -/
def offered (w : World) (id requestId centerId : String) (offer : Offer) : Option AcopioBid :=
  if (w.findBidById id).isSome then none else offer.bid id requestId centerId

def createBid (w : World) (id requestId centerId : String) (offer : Offer) : World :=
  match w.offered id requestId centerId offer with
  | some bid => { w with bids := w.bids ++ [bid] }
  | none => w

def withdrawBid (w : World) (bidId : String) : World :=
  match w.findBidById bidId with
  | some bid => w.setBid { bid with status := .withdrawn }
  | none => w

def expireBids (w : World) (requestId : String) : World :=
  { w with
    bids := w.bids.map fun b =>
      if b.requestId = requestId ∧ b.status = .pending then { b with status := .expired } else b }

def selectAmong (bidId : String) (others : List String) (b : AcopioBid) : AcopioBid :=
  if b.id = bidId then { b with status := .accepted }
  else if b.id ∈ others then { b with status := .rejected }
  else b

/-- The row that a selection makes; none where it finds no request or no bid. -/
def selected (w : World) (requestId : String) (bid : AcopioBid) : Option CollectionRequest := do
  let _ ← w.findBidById bid.id
  w.changed requestId (.selectBid bid.centerId bid.proposedRates)

def commitSelection (w : World) (requestId : String) (bid : AcopioBid) (others : List String) :
    World :=
  match w.selected requestId bid with
  | some row => { w.setRequest row with bids := w.bids.map (selectAmong bid.id others) }
  | none => w

def setReputation (w : World) (userId : String) (reputationScore : ℚ) : World :=
  { w with
    around := { w.around with
      users := w.around.users.map fun user =>
        if user.id = userId then { user with reputationScore := reputationScore } else user } }

def setPin (w : World) (id : String) (pin : Option String) : World :=
  { w with around := { w.around with pins := Function.update w.around.pins id pin } }

def setRoute (w : World) (id : String) (route : Option RouteMeta) : World :=
  { w with around := { w.around with routes := Function.update w.around.routes id route } }

/-! #### Serving a call -/

def effect (w : World) (o : Outcome) : Op → World
  | .writeRequest id change => w.writeRequest id change
  | .editRequest id householdId itemsEstimated description =>
    w.editRequest id householdId itemsEstimated description
  | .createRequest draft => w.createRequest o.id draft
  | .cachePin id pin => w.setPin id (some pin)
  | .setReputation userId reputationScore => w.setReputation userId reputationScore
  | .compensate account wallet amount =>
    { w with compensations := w.compensations ++ [(account, wallet, amount)] }
  | .cacheRoute route => w.setRoute route.id (some route)
  | .purgeRoute id .active => w.setRoute id none
  | .updateBid bidId offer => w.updateBid bidId offer
  | .createBid requestId centerId offer => w.createBid o.id requestId centerId offer
  | .withdrawBid bidId => w.withdrawBid bidId
  | .expireBids requestId => w.expireBids requestId
  | .commitSelection requestId bid others => w.commitSelection requestId bid others
  | _ => w

def after (w : World) (i : Op) (o : Outcome) : World := w.update o.delivery fun w => w.effect o i

def reply (w : World) (i : Op) (o : Outcome) : Except Failure (Reply i) :=
  match i with
  | .clock => .ok w.now
  | .random => .ok o.random
  | .findRequest id => o.delivery.answer .outside (w.findRequest id)
  | .findParties id => o.delivery.answer .outside ((w.findRequest id).map w.withParties)
  | .findUser userId => o.delivery.answer .outside (w.findUser userId)
  | .chainBalance _ => .ok (shown o.answer)
  | .completedPayments userId => o.delivery.answer .outside (w.around.payments userId)
  | .activeEscrows collectorId =>
    o.delivery.answer .outside ((w.collecting collectorId).map Request.escrowLocked)
  | .writeRequest id change => deliverSome o.delivery (w.changed id change)
  | .editRequest id householdId _ _ =>
    o.delivery.answer .outside (w.editable id householdId).isSome
  | .findActiveRequest householdId => o.delivery.answer .outside (w.requests.find? fun row =>
      row.householdId == householdId && isActive row.status)
  | .uploadPhoto => o.delivery.answer .outside ()
  | .createRequest draft =>
    if (w.findRequest o.id).isSome then .error .outside
    else o.delivery.answer .outside (draft.row o.id w.now)
  | .cachePin _ _ => o.delivery.answer .outside ()
  | .setReputation _ _ => o.delivery.answer .outside ()
  | .findVault userId => o.delivery.answer .outside (w.around.vaults userId)
  | .compensate _ _ _ => o.delivery.answer .outside ()
  | .findTransport userId => o.delivery.answer .outside (w.around.transports userId)
  | .cacheRoute _ => o.delivery.answer .outside ()
  | .purgeRoute _ _ => o.delivery.answer .outside ()
  | .findExpiredPending before => o.delivery.answer .outside ((w.requests.filter fun row =>
      row.status == .pending && decide (row.createdAt < before)).take 50)
  | .findExpiredAuctions now limit =>
    let rows := w.expiredAuctions now
    o.delivery.answer .outside (((limit.map rows.take).getD rows).map fun row =>
      ⟨row, w.bidsOf row.id⟩)
  | .findInactive before => o.delivery.answer .outside ((w.requests.filter fun row =>
      row.status == .accepted && row.enRouteAt == none && decide (row.updatedAt < before)).take 50)
  | .findWaiting before => o.delivery.answer .outside (((w.requests.filter fun row =>
      row.status == .arrived && row.arrivedAt.any fun t => decide (t < before)).take 50).map
        w.withParties)
  | .priceList centerId => o.delivery.answer .outside (w.around.prices centerId)
  | .findBid requestId centerId bidId => o.delivery.answer .outside (w.bids.find? fun bid =>
      bid.requestId == requestId && bid.centerId == centerId && bidId.all fun id => bid.id == id)
  | .findBidById bidId => o.delivery.answer .outside (w.findBidById bidId)
  | .updateBid bidId offer => deliverSome o.delivery (w.reoffered bidId offer)
  | .createBid requestId centerId offer =>
    deliverSome o.delivery (w.offered o.id requestId centerId offer)
  | .withdrawBid bidId => deliverSome o.delivery ((w.findBidById bidId).map fun _ => ())
  | .expireBids _ => o.delivery.answer .outside ()
  | .rereadRequest id => o.delivery.answer .outside (w.findRequest id)
  | .otherBids requestId bidId => o.delivery.answer .outside
      ((w.bids.filter fun bid => bid.requestId == requestId && bid.id != bidId).map AcopioBid.id)
  | .commitSelection requestId bid _ => deliverSome o.delivery (w.selected requestId bid)
  | .emit _ _ _ => o.delivery.answer .outside ()

def serve (w : World) (i : Op) (o : Outcome) : Except Failure (Reply i) × World :=
  (w.reply i o, w.after i o)

end World

end Livora.CollectionBooks
