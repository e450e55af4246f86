import Livora.CollectionServices

/-! What one call about collections may do at each stage of it: a request is written
by an id it was read under, where the row passed the check of the operation, and a
collector takes a request whose collateral the balance and the other collaterals
that were read leave room for. -/

namespace Livora.CollectionStages

open DoubleRounding EffectPrograms EffectPrograms.Action RewardStrategies CollectionBooks
open CollectionServices CollectionServices.CollectionLifecycleService
open CollectionServices.CollectionEscrowService CollectionServices.CollectionTrackingService
open PinVerification (RequestStatus truthy)
open StoreBooks (parseCents sumNumbers)
open CollectionServices.CollectionAuctionService (Biddable)

/-- What an operation checks in the row that it has read. -/
def Guard (svc : Service) : Change → CollectionRequest → Prop
  | .accept _ escrow, row => Takeable row.status ∧ (truthy row.assignedCenterId).isSome ∧
      escrow = requiredEscrow svc row
  | .cancelByCollector userId, row => row.collectorId = some userId
  | .cancelByHousehold userId, row => row.householdId = userId ∧ Unaccepted row.status
  | .abandon userId, row => row.collectorId = some userId ∧ row.status = .accepted
  | .reportNoShow userId, row => row.collectorId = some userId ∧ row.status = .arrived
  | .rejectOnSite userId _, row => row.collectorId = some userId ∧ row.status = .arrived
  | .startRoute userId _, row => row.collectorId = some userId ∧ row.status = .accepted
  | .reachDestination userId _, row => row.collectorId = some userId ∧ row.status = .enRoute
  | .claimAutomatic _ _, row => row.status = .pending ∧ row.assignmentMode = .automatic ∧
      truthy row.assignedCenterId = none
  | .selectBid _ _, row => Biddable row.status
  | .revertAuction, row => row.status = .auctionActive
  | .pendingTimeout, row => row.status = .pending
  | .acceptedInactivity, row => row.status = .accepted
  | .arrivedNoShow, row => row.status = .arrived

instance (svc : Service) : (change : Change) → (row : CollectionRequest) →
    Decidable (Guard svc change row)
  | .accept _ _, _ => inferInstanceAs (Decidable (_ ∧ _ ∧ _))
  | .cancelByCollector _, _ => inferInstanceAs (Decidable (_ = _))
  | .cancelByHousehold _, _ => inferInstanceAs (Decidable (_ ∧ _))
  | .abandon _, _ => inferInstanceAs (Decidable (_ ∧ _))
  | .reportNoShow _, _ => inferInstanceAs (Decidable (_ ∧ _))
  | .rejectOnSite _ _, _ => inferInstanceAs (Decidable (_ ∧ _))
  | .startRoute _ _, _ => inferInstanceAs (Decidable (_ ∧ _))
  | .reachDestination _ _, _ => inferInstanceAs (Decidable (_ ∧ _))
  | .claimAutomatic _ _, _ => inferInstanceAs (Decidable (_ ∧ _ ∧ _))
  | .selectBid _ _, _ => inferInstanceAs (Decidable (Biddable _))
  | .revertAuction, _ => inferInstanceAs (Decidable (_ = _))
  | .pendingTimeout, _ => inferInstanceAs (Decidable (_ = _))
  | .acceptedInactivity, _ => inferInstanceAs (Decidable (_ = _))
  | .arrivedNoShow, _ => inferInstanceAs (Decidable (_ = _))

/-- The changes whose rows are chosen by the query and not looked at again. -/
def queried : Change → Bool
  | .revertAuction => true
  | .pendingTimeout => true
  | .acceptedInactivity => true
  | .arrivedNoShow => true
  | _ => false

/-- What the last look at the requests showed. -/
inductive Found where
  | nothing
  | one (id : String) (row : CollectionRequest)
  /-- The rows that a query chose. -/
  | chosen (rows : List CollectionRequest)
  /-- The household has no active request. -/
  | noneOf (householdId : String)
deriving DecidableEq

namespace Found

def entries : Found → List (String × CollectionRequest)
  | .one id row => [(id, row)]
  | .chosen rows => rows.map fun row => (row.id, row)
  | _ => []

def isChosen : Found → Bool
  | .chosen _ => true
  | _ => false

end Found

structure Stage where
  read : Found
  /-- The cents of the balance that the chain showed. -/
  shown : ℕ
  payments : Option (List ℚ)
  /-- The collateral of the requests that a collector has on hand. -/
  escrows : Option (String × List ℚ)
  /-- The bid that was read under its id. -/
  bid : Option AcopioBid
  /-- A request, a bid on it, and the other bids on it. -/
  others : Option (String × String × List String)
deriving DecidableEq

namespace Stage

def first : Stage := ⟨.nothing, 0, none, none, none, none⟩

abbrev found (s : Stage) : List (String × CollectionRequest) := s.read.entries

def balance (s : Stage) : ℚ :=
  match s.payments with
  | some payments => payments.sum
  | none => s.shown / 100

def number (s : Stage) : ℚ :=
  match s.payments with
  | some payments => sumNumbers payments
  | none => parseCents s.shown

end Stage

def Covered (s : Stage) (collectorId : String) (escrow : ℚ) : Prop :=
  escrow ≤ 0 ∨ ∃ escrows, s.escrows = some (collectorId, escrows) ∧
    ¬ fl (s.number - sumNumbers escrows) < escrow

/-- What the change asks for beside the row; a selection is written by its transaction. -/
def Backed (s : Stage) : Change → Prop
  | .accept collectorId escrow => Covered s collectorId escrow
  | .selectBid _ _ => False
  | _ => True

def Allowed (svc : Service) (s : Stage) : Op → Prop
  | .writeRequest id change => Backed s change ∧
      ∃ row, (id, row) ∈ s.found ∧
        (queried change = true ∧ s.read.isChosen = true ∨ Guard svc change row)
  | .commitSelection id bid others => (∃ row, (id, row) ∈ s.found ∧ Biddable row.status) ∧
      s.bid = some bid ∧ bid.requestId = id ∧ s.others = some (id, bid.id, others)
  | .createRequest draft => draft.status = initialStatus draft.assignmentMode ∧
      s.read = .noneOf draft.householdId
  | _ => True

def next (s : Stage) (i : Op) (r : Except Failure (Reply i)) : Stage :=
  match i, r with
  | .findRequest id, .ok (some row) => { s with read := .one id row }
  | .rereadRequest id, .ok (some row) => { s with read := .one id row }
  | .findParties id, .ok (some request) => { s with read := .one id request.row }
  | .findExpiredPending _, .ok rows => { s with read := .chosen rows }
  | .findExpiredAuctions _ _, .ok reqs => { s with read := .chosen (reqs.map FoundAuction.row) }
  | .findInactive _, .ok rows => { s with read := .chosen rows }
  | .findWaiting _, .ok reqs => { s with read := .chosen (reqs.map FoundRequest.row) }
  | .findActiveRequest householdId, .ok none => { s with read := .noneOf householdId }
  | .chainBalance _, .ok shown => { s with shown := shown }
  | .completedPayments _, .ok payments => { s with payments := some payments }
  | .activeEscrows collectorId, .ok escrows => { s with escrows := some (collectorId, escrows) }
  | .findBidById _, .ok (some bid) => { s with bid := some bid }
  | .otherBids requestId bidId, .ok others => { s with others := some (requestId, bidId, others) }
  | _, _ => s

def protocol (svc : Service) : Protocol Stage Op fun i => Except Failure (Reply i) where
  Allowed := Allowed svc
  next := next

/-! ### Calls that leave what was found -/

/-- Neither a write to a request nor a query for some. -/
def Aside : Op → Prop
  | .writeRequest _ _ => False
  | .commitSelection _ _ _ => False
  | .createRequest _ => False
  | .findRequest _ => False
  | .rereadRequest _ => False
  | .findParties _ => False
  | .findExpiredPending _ => False
  | .findExpiredAuctions _ _ => False
  | .findInactive _ => False
  | .findWaiting _ => False
  | .findActiveRequest _ => False
  | _ => True

variable {svc : Service} {s : Stage} {l : Found} {α β : Type}

theorem allowed_aside {i : Op} (h : Aside i) : Allowed svc s i := by
  cases i <;> trivial

theorem read_aside {i : Op} (h : Aside i) (r : Except Failure (Reply i)) :
    (next s i r).read = s.read := by
  cases i <;> first
    | exact False.elim h
    | rfl
    | (cases r <;> rfl)
    | (rcases r with _ | _ | _ <;> rfl)

/-- The action makes only allowed calls, and what was found stays. -/
def Within (svc : Service) (l : Found) (s : Stage) (a : Work α) : Prop :=
  Obeys (protocol svc) (fun t _ => t.read = l) s a

theorem within_pure (hs : s.read = l) (a : α) : Within svc l s (pure a : Work α) := hs

theorem within_throw (hs : s.read = l) (e : Failure) :
    Within svc l s (throw e : Work α) := hs

theorem within_aside (hs : s.read = l) {i : Op} (h : Aside i) :
    Within svc l s (call i) :=
  ⟨allowed_aside h, fun r => (read_aside h r).trans hs⟩

theorem within_bind {a : Work α} {f : α → Work β} (ha : Within svc l s a)
    (hf : ∀ x t, t.read = l → Within svc l t (f x)) : Within svc l s (a >>= f) :=
  obeys_bind.mpr (ha.mono (fun t x ht => hf x t ht) fun _ _ ht => ht)

theorem within_recover {a : Work α} {fallback : α} (ha : Within svc l s a) :
    Within svc l s (recover a fallback) :=
  obeys_recover.mpr (ha.mono (fun _ _ ht => ht) fun _ _ ht => ht)

theorem within_rescue {a : Work α} {handler : Failure → Work α} (ha : Within svc l s a)
    (hhandler : ∀ e t, t.read = l → Within svc l t (handler e)) :
    Within svc l s (rescue a handler) :=
  obeys_rescue.mpr (ha.mono (fun _ _ ht => ht) fun t e ht => hhandler e t ht)

theorem within_forEach {as : List α} {body : α → Work Unit} (hs : s.read = l)
    (h : ∀ a ∈ as, ∀ t, t.read = l → Within svc l t (body a)) :
    Within svc l s (forEach as body) := by
  induction as generalizing s with
  | nil => exact hs
  | cons a rest ih =>
    refine within_bind (h a List.mem_cons_self s hs) fun _ t ht => ?_
    exact ih ht fun b hb => h b (List.mem_cons_of_mem a hb)

theorem Within.follows {a : Work α} (h : Within svc l s a) : Follows (protocol svc) s a :=
  h.mono (fun _ _ _ => trivial) fun _ _ _ => trivial

theorem follows_returning {f : α → Result} {a : Work α} (h : Follows (protocol svc) s a) :
    Follows (protocol svc) s (returning f a) :=
  follows_bind h fun _ _ => trivial

theorem follows_of_found {failure : Failure} {id : String} {body : CollectionRequest → Work α}
    (h : ∀ row t, t.read = .one id row → Within svc (.one id row) t (body row)) :
    Follows (protocol svc) s (do
      match ← call (.findRequest id) with
      | none => throw failure
      | some request => body request) := by
  refine follows_call trivial fun found => ?_
  cases found with
  | none => exact follows_throw _
  | some row => exact (h row _ rfl).follows

theorem within_emit (hs : s.read = l) (room : Room) (event : String) (payload : Payload) :
    Within svc l s (call (.emit room event payload)) :=
  within_aside hs trivial

theorem within_write (hs : s.read = l) {id : String} {change : Change}
    (h : Allowed svc s (.writeRequest id change)) :
    Within svc l s (call (.writeRequest id change)) :=
  ⟨h, fun _ => hs⟩

theorem within_checked {id : String} {row : CollectionRequest} {change : Change}
    (hs : s.read = .one id row) (hbacked : Backed s change) (h : Guard svc change row) :
    Within svc (.one id row) s (call (.writeRequest id change)) :=
  within_write hs ⟨hbacked, row, by rw [Stage.found, hs]; exact List.mem_singleton_self _, .inr h⟩

theorem within_writeAndEmit {id : String} {row : CollectionRequest} {change : Change}
    (hs : s.read = .one id row) (hbacked : Backed s change) (h : Guard svc change row) :
    Within svc (.one id row) s (writeAndEmit id change) := by
  refine within_bind (within_checked hs hbacked h) fun _ t ht => ?_
  exact within_bind (within_emit ht _ _ _) fun _ u hu => within_pure hu _

/-! ### Acceptance -/

theorem obeys_validateCollectorKyc (hs : s.read = l) (collectorId : String) :
    Obeys (protocol svc) (fun t _ => t = s ∧ t.read = l) s
      (validateCollectorKyc collectorId) := by
  refine obeys_call.mpr ⟨trivial, fun collector => ?_, fun e => ⟨rfl, hs⟩⟩
  split
  · exact ⟨rfl, hs⟩
  · exact ⟨rfl, hs⟩

theorem obeys_onChainBalance (hs : s.read = l) (hshown : s.shown = 0)
    (hpayments : s.payments = none) (collector : Option User) :
    Obeys (protocol svc) (fun t x => t.read = l ∧ t.payments = none ∧
      ∀ balance, x = .ok balance → balance = parseCents t.shown) s (onChainBalance collector) := by
  have hzero : (0 : ℚ) = parseCents s.shown := by
    rw [hshown]
    simp [parseCents]
  unfold onChainBalance
  split
  · refine obeys_recover.mpr (obeys_call.mpr ⟨trivial, fun text => ?_, fun e => ?_⟩)
    · refine ⟨hs, hpayments, fun balance h => ?_⟩
      cases h
      rfl
    · refine ⟨hs, hpayments, fun balance h => ?_⟩
      cases h
      exact hzero
  · refine ⟨hs, hpayments, fun balance h => ?_⟩
    cases h
    exact hzero

theorem obeys_totalBalance (hs : s.read = l) (hshown : s.shown = 0)
    (hpayments : s.payments = none) (collectorId : String) :
    Obeys (protocol svc) (fun t x => t.read = l ∧
      ∀ total, x = .ok total → total = t.number) s (totalBalance collectorId) := by
  refine obeys_call.mpr ⟨trivial, fun collector => ?_, fun e => ⟨hs, fun total h => by cases h⟩⟩
  refine obeys_bind.mpr ((obeys_onChainBalance hs hshown hpayments collector).mono ?_ ?_)
  · rintro t balance ⟨ht, htpayments, hbalance⟩
    dsimp only
    split
    · refine obeys_call.mpr ⟨trivial, fun payments => ?_, fun e => ⟨ht, fun total h => by cases h⟩⟩
      refine ⟨ht, fun total h => ?_⟩
      cases h
      rfl
    · refine ⟨ht, fun total h => ?_⟩
      cases h
      rw [hbalance balance rfl, Stage.number, htpayments]
  · rintro t e ⟨ht, -, -⟩
    exact ⟨ht, fun total h => by cases h⟩

theorem obeys_validateCollectorSolvency (hs : s.read = l) (hshown : s.shown = 0)
    (hpayments : s.payments = none) (collectorId : String) (escrow : ℚ) :
    Obeys (protocol svc) (fun t x => t.read = l ∧
      ∀ y, x = .ok y → Covered t collectorId escrow) s
      (validateCollectorSolvency collectorId escrow) := by
  unfold validateCollectorSolvency
  split
  · exact ⟨hs, fun _ _ => .inl ‹_›⟩
  · refine obeys_bind.mpr ((obeys_totalBalance hs hshown hpayments collectorId).mono ?_ ?_)
    · rintro t total ⟨ht, htotal⟩
      refine obeys_call.mpr ⟨trivial, fun escrows => ?_, fun e => ⟨ht, fun y h => by cases h⟩⟩
      dsimp only
      split
      · exact ⟨ht, fun y h => by cases h⟩
      · rename_i hcheck
        refine ⟨ht, fun _ _ => .inr ⟨escrows, rfl, ?_⟩⟩
        rw [htotal total rfl] at hcheck
        exact hcheck
    · rintro t e ⟨ht, -⟩
      exact ⟨ht, fun y h => by cases h⟩

theorem within_accept {id userId : String} {row : CollectionRequest} (hs : s.read = .one id row)
    (hshown : s.shown = 0) (hpayments : s.payments = none) :
    Within svc (.one id row) s (accept svc id userId row) := by
  unfold accept
  split
  · rename_i htakeable
    split
    · exact within_throw hs _
    · rename_i centerId hcenter
      have hguard : Guard svc (.accept userId (requiredEscrow svc row)) row :=
        ⟨htakeable, by rw [hcenter]; rfl, rfl⟩
      refine obeys_bind.mpr ((obeys_validateCollectorKyc hs userId).mono ?_ fun _ _ h => h.2)
      rintro t - ⟨rfl, ht⟩
      refine obeys_bind.mpr ((obeys_validateCollectorSolvency ht hshown hpayments userId _).mono ?_
        fun _ _ h => h.1)
      rintro u x ⟨hu, hcovered⟩
      exact within_writeAndEmit hu (hcovered x rfl) hguard
  · exact within_throw hs _

theorem within_cancelByCollector {id userId : String} {row : CollectionRequest}
    (hs : s.read = .one id row) : Within svc (.one id row) s (cancelByCollector id userId row) := by
  unfold cancelByCollector
  split
  · exact within_writeAndEmit hs trivial ‹_›
  · exact within_throw hs _

theorem within_cancelByHousehold {id userId : String} {row : CollectionRequest}
    (hs : s.read = .one id row) : Within svc (.one id row) s (cancelByHousehold id userId row) := by
  unfold cancelByHousehold
  split
  · split
    · exact within_writeAndEmit hs trivial ⟨‹_›, ‹_›⟩
    · exact within_throw hs _
  · exact within_throw hs _

theorem follows_updateStatus {id userId : String} {role : BackOffice.Role}
    {status : RequestStatus} :
    Follows (protocol svc) .first (updateStatus svc id userId role status) := by
  refine follows_call trivial fun found => ?_
  cases found with
  | none => exact follows_throw _
  | some row =>
    refine Within.follows (l := .one id row) ?_
    dsimp only
    split
    · exact within_accept rfl rfl rfl
    · exact within_cancelByCollector rfl
    · exact within_cancelByHousehold rfl
    · exact within_throw rfl _

theorem follows_abandonCollectionRequest {id userId : String} :
    Follows (protocol svc) s (abandonCollectionRequest id userId) := by
  refine follows_of_found fun row t ht => ?_
  split
  · split
    · refine within_bind (within_checked ht trivial ⟨‹_›, ‹_›⟩) fun _ u hu => ?_
      refine within_bind (within_emit hu _ _ _) fun _ v hv => ?_
      exact within_bind (within_emit hv _ _ _) fun _ x hx => within_pure hx _
    · exact within_throw ht _
  · exact within_throw ht _

theorem follows_editCollectionRequest {householdUserId id : String}
    {dto : EditCollectionRequestDto} :
    Follows (protocol svc) s (editCollectionRequest householdUserId id dto) := by
  refine follows_call trivial fun found => ?_
  cases found with
  | none => exact follows_throw _
  | some request =>
    dsimp only
    split
    · split
      · refine follows_call trivial fun edited => ?_
        split
        · refine follows_call trivial fun updated => ?_
          cases updated with
          | none => exact follows_call trivial fun _ => follows_pure _
          | some row => exact follows_call trivial fun _ => follows_pure _
        · exact follows_throw _
      · exact follows_throw _
    · exact follows_throw _

/-! ### At the door -/

theorem within_penalize (hs : s.read = l) (household : Option User) :
    Within svc l s (penalize household) := by
  cases household with
  | none => exact within_pure hs _
  | some household => exact within_aside hs trivial

theorem within_findVault (hs : s.read = l) (user : Option User) :
    Within svc l s (findVault user) := by
  cases user with
  | none => exact within_pure hs _
  | some user => exact within_aside hs trivial

theorem within_compensate (hs : s.read = l) (vault : Option String)
    (collector : Option User) : Within svc l s (compensate svc vault collector) := by
  unfold compensate
  split
  · refine within_recover ?_
    split
    · exact within_throw hs _
    · exact within_aside hs trivial
  · exact within_pure hs _

theorem within_waitAtDoor (hs : s.read = l) (arrivedAt : Option ℕ) :
    Within svc l s (waitAtDoor svc arrivedAt) := by
  unfold waitAtDoor
  split
  · refine within_bind (within_aside hs trivial) fun now t ht => ?_
    split
    · exact within_throw ht _
    · exact within_pure ht _
  · exact within_pure hs _

theorem follows_reportNoShow {id userId : String} :
    Follows (protocol svc) s (reportNoShow svc id userId) := by
  refine follows_call trivial fun found => ?_
  cases found with
  | none => exact follows_throw _
  | some request =>
    refine Within.follows (l := .one id request.row) ?_
    dsimp only
    split
    · split
      · refine within_bind (within_waitAtDoor (l := .one id request.row) rfl _) fun _ t ht => ?_
        refine within_bind (within_checked ht trivial ⟨‹_›, ‹_›⟩) fun updated u hu => ?_
        refine within_bind (within_penalize hu _) fun _ v hv => ?_
        refine within_bind (within_findVault hv _) fun vault x hx => ?_
        refine within_bind (within_compensate hx _ _) fun _ y hy => ?_
        exact within_bind (within_emit hy _ _ _) fun _ z hz => within_pure hz _
      · exact within_throw rfl _
    · exact within_throw rfl _

theorem follows_rejectOnSite {id userId reason : String} :
    Follows (protocol svc) s (rejectOnSite id userId reason) := by
  refine follows_of_found fun row t ht => ?_
  split
  · split
    · split
      · exact within_throw ht _
      · exact within_writeAndEmit ht trivial ⟨‹_›, ‹_›⟩
    · exact within_throw ht _
  · exact within_throw ht _

/-! ### Creation -/

theorem within_uploadPhoto (hs : s.read = l) (file : Bool) :
    Within svc l s (uploadPhoto svc file) := by
  unfold uploadPhoto
  split
  · exact within_rescue (within_aside hs trivial) fun e t ht => within_throw ht _
  · exact within_pure hs _

theorem within_auctionExpiresAt (hs : s.read = l) (mode : AssignmentMode) :
    Within svc l s (auctionExpiresAt mode) := by
  cases mode with
  | automatic => exact within_pure hs _
  | auction => exact within_bind (within_aside hs trivial) fun now t ht => within_pure ht _

theorem within_cachePin (hs : s.read = l) (id pin : String) :
    Within svc l s (cachePin svc id pin) := by
  unfold cachePin
  split
  · exact within_aside hs trivial
  · exact within_pure hs _

theorem within_createRequest {draft : Draft} (hs : s.read = .noneOf draft.householdId)
    (h : draft.status = initialStatus draft.assignmentMode) :
    Within svc (.noneOf draft.householdId) s (call (.createRequest draft)) :=
  ⟨⟨h, hs⟩, fun _ => hs⟩

theorem within_publish (userId : String) (dto : CreateCollectionDto)
    (hs : s.read = .noneOf userId) :
    Within svc (.noneOf userId) s (publish svc userId dto) := by
  refine within_bind (within_aside hs trivial) fun drawn u hu => ?_
  refine within_bind (within_uploadPhoto hu _) fun _ v hv => ?_
  refine within_bind (within_aside hv trivial) fun household x hx => ?_
  refine within_bind (within_auctionExpiresAt hx _) fun expiresAt y hy => ?_
  refine within_bind (within_createRequest hy rfl) fun row z hz => ?_
  refine within_bind (within_cachePin hz _ _) fun _ z hz => ?_
  exact within_bind (within_emit hz _ _ _) fun _ z hz => within_pure hz _

theorem follows_create {userId : String} {dto : CreateCollectionDto} :
    Follows (protocol svc) s (create svc userId dto) := by
  refine follows_call trivial fun active => ?_
  cases active with
  | some row => exact follows_throw _
  | none =>
    dsimp only
    split
    · exact follows_throw _
    · exact (within_publish userId dto rfl).follows

/-! ### On the way -/

theorem within_cacheRoute (hs : s.read = l) (updated : CollectionRequest) :
    Within svc l s (cacheRoute svc updated) := by
  unfold cacheRoute
  split
  · refine within_bind (within_aside hs trivial) fun transport t ht => ?_
    exact within_recover (within_aside ht trivial)
  · exact within_pure hs _

theorem within_purgeRoutes (hs : s.read = l) (id : String) :
    Within svc l s (purgeRoutes svc id) := by
  unfold purgeRoutes
  split
  · refine within_bind (within_recover (within_aside hs trivial)) fun _ t ht => ?_
    refine within_bind (within_recover (within_aside ht trivial)) fun _ u hu => ?_
    exact within_recover (within_aside hu trivial)
  · exact within_pure hs _

theorem follows_startRoute {id userId : String} :
    Follows (protocol svc) s (startRoute svc id userId) := by
  refine follows_of_found fun row t ht => ?_
  split
  · split
    · exact within_pure ht _
    · refine within_bind (within_aside ht trivial) fun now u hu => ?_
      refine within_bind (within_checked hu trivial ⟨‹_›, ‹_›⟩) fun updated v hv => ?_
      refine within_bind (within_cacheRoute hv _) fun _ x hx => ?_
      exact within_bind (within_emit hx _ _ _) fun _ y hy => within_pure hy _
    · exact within_throw ht _
  · exact within_throw ht _

theorem follows_reachDestination {id userId : String} :
    Follows (protocol svc) s (reachDestination svc id userId) := by
  refine follows_of_found fun row t ht => ?_
  split
  · split
    · exact within_pure ht _
    · refine within_bind (within_aside ht trivial) fun now u hu => ?_
      refine within_bind (within_checked hu trivial ⟨‹_›, ‹_›⟩) fun updated v hv => ?_
      refine within_bind (within_purgeRoutes hv _) fun _ x hx => ?_
      refine within_bind (within_emit hx _ _ _) fun _ y hy => ?_
      exact within_bind (within_emit hy _ _ _) fun _ z hz => within_pure hz _
    · exact within_throw ht _
  · exact within_throw ht _

/-! ### Auctions and claims -/

namespace Auctions

open CollectionServices.CollectionAuctionService

theorem within_checkExpiry (hs : s.read = l) (auctionExpiresAt : Option ℕ) :
    Within svc l s (checkExpiry auctionExpiresAt) := by
  cases auctionExpiresAt with
  | none => exact within_pure hs _
  | some auctionExpiresAt =>
    refine within_bind (within_aside hs trivial) fun now t ht => ?_
    split
    · exact within_throw ht _
    · exact within_pure ht _

theorem within_effectiveRates (hs : s.read = l) (centerId : String)
    (proposedRates : NumberRecord) :
    Within svc l s (effectiveRates centerId proposedRates) := by
  unfold effectiveRates
  split
  · exact within_throw hs _
  · split
    · refine within_bind (within_aside hs trivial) fun priceList t ht => ?_
      split
      · exact within_throw ht _
      · exact within_pure ht _
    · exact within_pure hs _

theorem within_storeBid (hs : s.read = l) (centerId requestId : String) (offer : Offer) :
    Within svc l s (storeBid centerId requestId offer) := by
  refine within_bind (within_aside hs trivial) fun existing t ht => ?_
  cases existing with
  | none => exact within_aside ht trivial
  | some bid => exact within_aside ht trivial

theorem follows_submitBid {centerId requestId : String} {proposedRates : NumberRecord} :
    Follows (protocol svc) s (submitBid svc centerId requestId proposedRates) := by
  refine follows_of_found fun row t ht => ?_
  split
  · split
    · refine within_bind (within_checkExpiry ht _) fun _ u hu => ?_
      refine within_bind (within_effectiveRates hu _ _) fun rates v hv => ?_
      refine within_bind (within_storeBid hv _ _ _) fun bid x hx => ?_
      refine within_bind (within_emit hx _ _ _) fun _ y hy => ?_
      exact within_bind (within_emit hy _ _ _) fun _ z hz => within_pure hz _
    · exact within_throw ht _
  · exact within_throw ht _

theorem within_withdrawBid (hs : s.read = l) {centerId requestId : String}
    {bidId : Option String} : Within svc l s (withdrawBid centerId requestId bidId) := by
  refine within_bind (within_aside hs trivial) fun bid t ht => ?_
  cases bid with
  | none => exact within_throw ht _
  | some bid =>
    dsimp only
    split
    · exact within_aside ht trivial
    · exact within_throw ht _

theorem follows_assign {requestId : String} {selectedBid : AcopioBid}
    (hs : s.bid = some selectedBid) (hbid : selectedBid.requestId = requestId) :
    Follows (protocol svc) s (assign requestId selectedBid) := by
  refine follows_call trivial fun current => ?_
  cases current with
  | none => exact follows_throw _
  | some row =>
    dsimp only
    split
    · refine follows_call trivial fun others => follows_perform ?_
      exact ⟨⟨row, List.mem_singleton_self _, ‹_›⟩, hs, hbid, rfl⟩
    · exact follows_throw _

theorem follows_selectBid {householdId requestId bidId : String} :
    Follows (protocol svc) s (selectBid householdId requestId bidId) := by
  refine follows_call trivial fun found => ?_
  cases found with
  | none => exact follows_throw _
  | some row =>
    dsimp only
    split
    · split
      · refine follows_call trivial fun bid => ?_
        cases bid with
        | none => exact follows_throw _
        | some bid =>
          dsimp only
          split
          · split
            · refine follows_bind (follows_assign rfl ‹_›) fun updated t => ?_
              exact follows_call trivial fun _ => follows_call trivial fun _ => follows_pure _
            · exact follows_throw _
          · exact follows_throw _
      · exact follows_throw _
    · exact follows_throw _

theorem follows_claimAutomatic {centerId requestId : String} :
    Follows (protocol svc) s (claimAutomatic centerId requestId) := by
  refine follows_of_found fun row t ht => ?_
  split
  · split
    · split
      · exact within_throw ht _
      · refine within_bind (within_aside ht trivial) fun priceList u hu => ?_
        split
        · exact within_throw hu _
        · refine within_bind (within_checked hu trivial ⟨‹_›, ‹_›, ‹_›⟩) fun updated v hv => ?_
          exact within_bind (within_emit hv _ _ _) fun _ x hx => within_pure hx _
    · exact within_throw ht _
  · exact within_throw ht _

end Auctions

/-! ### Rows that a query chose -/

theorem within_queried {rows : List CollectionRequest} {row : CollectionRequest} {change : Change}
    (hs : s.read = .chosen rows) (hqueried : queried change = true) (hrow : row ∈ rows) :
    Within svc (.chosen rows) s (call (.writeRequest row.id change)) := by
  refine within_write hs ⟨?_, row, ?_, .inl ⟨hqueried, by rw [hs]; rfl⟩⟩
  · cases change <;> trivial
  · rw [Stage.found, hs]
    exact List.mem_map_of_mem (f := fun row : CollectionRequest => (row.id, row)) hrow

theorem within_expireAuction {rows : List CollectionRequest} {req : FoundAuction}
    {emit : CollectionRequest → Work Unit} (hs : s.read = .chosen rows) (hreq : req.row ∈ rows)
    (hemit : ∀ row t, t.read = .chosen rows → Within svc (.chosen rows) t (emit row)) :
    Within svc (.chosen rows) s (CollectionAuctionService.expireAuction req emit) := by
  unfold CollectionAuctionService.expireAuction
  split
  · exact within_pure hs _
  · refine within_bind (within_aside hs trivial) fun _ t ht => ?_
    exact within_bind (within_queried ht rfl hreq) fun updated u hu => hemit updated u hu

theorem follows_lifecycleFallbacks :
    Follows (protocol svc) s CollectionLifecycleService.checkAuctionFallbacks := by
  refine follows_call trivial fun now => follows_call trivial fun reqs => ?_
  refine Within.follows (within_forEach rfl fun req hreq t ht => ?_)
  exact within_bind (within_queried ht rfl (List.mem_map_of_mem hreq)) fun _ u hu =>
    within_pure hu _

theorem follows_auctionFallbacks :
    Follows (protocol svc) s CollectionAuctionService.checkAuctionFallbacks := by
  refine follows_call trivial fun now => follows_call trivial fun reqs => ?_
  refine Within.follows (within_forEach rfl fun req hreq t ht => ?_)
  exact within_expireAuction ht (List.mem_map_of_mem hreq) fun _ u hu => within_emit hu _ _ _

theorem follows_workerFallbacks :
    Follows (protocol svc) s CollectionsTimeoutWorker.processAuctionFallbacks := by
  refine follows_call trivial fun now => follows_call trivial fun reqs => ?_
  refine Within.follows (within_forEach rfl fun req hreq t ht => within_recover ?_)
  exact within_expireAuction ht (List.mem_map_of_mem hreq) fun _ u hu => within_pure hu _

theorem within_expireEach {rows : List CollectionRequest} {change : Change}
    (hs : s.read = .chosen rows) (hqueried : queried change = true) :
    Within svc (.chosen rows) s
      (CollectionsTimeoutWorker.expireEach (rows.map Request.id) change) := by
  refine within_forEach hs fun id hid t ht => within_recover ?_
  obtain ⟨row, hrow, rfl⟩ := List.mem_map.mp hid
  exact within_bind (within_queried ht hqueried hrow) fun _ u hu => within_pure hu _

theorem follows_pendingTimeouts :
    Follows (protocol svc) s CollectionsTimeoutWorker.processPendingTimeouts :=
  follows_call trivial fun _ => follows_call trivial fun _ => (within_expireEach rfl rfl).follows

theorem follows_acceptedInactivity :
    Follows (protocol svc) s CollectionsTimeoutWorker.processAcceptedInactivity :=
  follows_call trivial fun _ => follows_call trivial fun _ => (within_expireEach rfl rfl).follows

theorem follows_arrivedNoShowTimeouts :
    Follows (protocol svc) s CollectionsTimeoutWorker.processArrivedNoShowTimeouts := by
  refine follows_call trivial fun now => follows_call trivial fun reqs => ?_
  refine Within.follows (within_forEach rfl fun req hreq t ht => within_recover ?_)
  refine within_bind (within_queried ht rfl (List.mem_map_of_mem hreq)) fun _ u hu => ?_
  exact within_recover (within_penalize hu _)

theorem follows_program (svc : Service) (caller : Caller) :
    Follows (protocol svc) .first (program svc caller) := by
  cases caller with
  | create userId dto => exact follows_returning follows_create
  | updateStatus id userId role status => exact follows_returning follows_updateStatus
  | abandonCollectionRequest id userId =>
    exact follows_returning follows_abandonCollectionRequest
  | editCollectionRequest userId id dto => exact follows_returning follows_editCollectionRequest
  | reportNoShow id userId => exact follows_returning follows_reportNoShow
  | rejectOnSite id userId reason => exact follows_returning follows_rejectOnSite
  | lifecycleFallbacks => exact follows_returning follows_lifecycleFallbacks
  | startRoute id userId => exact follows_returning follows_startRoute
  | reachDestination id userId => exact follows_returning follows_reachDestination
  | submitBid centerId requestId rates => exact follows_returning Auctions.follows_submitBid
  | withdrawBid centerId requestId bidId =>
    exact follows_returning (Auctions.within_withdrawBid rfl).follows
  | selectBid householdId requestId bidId => exact follows_returning Auctions.follows_selectBid
  | claimAutomatic centerId requestId =>
    exact follows_returning Auctions.follows_claimAutomatic
  | auctionFallbacks => exact follows_returning follows_auctionFallbacks
  | pendingTimeouts => exact follows_returning follows_pendingTimeouts
  | workerFallbacks => exact follows_returning follows_workerFallbacks
  | acceptedInactivity => exact follows_returning follows_acceptedInactivity
  | arrivedNoShowTimeouts => exact follows_returning follows_arrivedNoShowTimeouts

end Livora.CollectionStages
