import Livora.CollectionRaces

/-! What collectors are shown of the requests, against what they may accept: the query around a
place of `findAvailable`, the listing of `findAll` without a filter, and the acceptance by a
collector whose papers are approved and who covers the collateral. -/

namespace Livora.CollectionListings

open EffectPrograms EffectPrograms.Action TransitionRuns CollectionBooks CollectionServices CollectionRaces
open CollectionServices.CollectionLifecycleService CollectionServices.CollectionEscrowService
open PinVerification (RequestStatus truthy)
open StoreBooks (storedAmount)

/-! ### The listings -/

/-- A page of a query. The database orders the rows it has found. -/
structure PageQuery where
  page : ℕ
  limit : ℕ
  order : List CollectionRequest → List CollectionRequest
  order_perm : ∀ rows, (order rows).Perm rows

def PageQuery.slice (query : PageQuery) (rows : List CollectionRequest) : List CollectionRequest :=
  ((query.order rows).drop ((query.page - 1) * query.limit)).take query.limit

/-- Nobody has taken the request, and a centre is to have it. -/
def unassigned (row : CollectionRequest) : Bool :=
  row.status == .pending && row.assignedCenterId.isSome && row.collectorId.isNone

/-- What a collector has on hand, or has been given. -/
def ownStatuses : List RequestStatus := [.accepted, .enRoute, .arrived, .auctionAssigned]

namespace CollectionsRepository

/-- `findAll` for a collector, without a status. -/
def findAll (w : World) (userId : String) (query : PageQuery) : List CollectionRequest :=
  query.slice (w.requests.filter fun row =>
    unassigned row || (row.collectorId == some userId && ownStatuses.contains row.status))

/-- `findAvailable` without a centre; `near` is the comparison of the distance with the radius. -/
def findAvailable (w : World) (near : CollectionRequest → Bool) (query : PageQuery) :
    List CollectionRequest :=
  query.slice (w.requests.filter fun row =>
    (w.findUser row.householdId).isSome && unassigned row && near row)

end CollectionsRepository

open CollectionsRepository

def Listed (w : World) (row : CollectionRequest) : Prop :=
  (∃ near query, near row = true ∧ row ∈ findAvailable w near query) ∨
    ∃ userId query, row ∈ findAll w userId query

/-! ### The acceptance -/

/-- The operation runs alone, each of its calls is answered, and `o` is what the outside puts into
it. -/
def alone (o : Outcome) (w : World) (i : Op) : Except Failure (Reply i) × World := w.serve i o

/-- The collector's papers are approved, and he covers the collateral of the request. -/
structure Eligible (svc : Service) (o : Outcome) (w : World) (userId : String)
    (row : CollectionRequest) :
    Prop where
  answered : o.delivery = .done
  kyc : (w.findUser userId).map User.kycStatus = some .approved
  solvent : (exec (alone o) w (validateCollectorSolvency userId (requiredEscrow svc row))).1 =
    .ok ()

def Accepted (svc : Service) (o : Outcome) (w : World) (userId : String) (row : CollectionRequest) :
    Prop :=
  ∃ view, (exec (alone o) w (updateStatus svc row.id userId .recolector .accepted)).1 = .ok view

/-- The request can be taken, has a centre, and its collateral fits the column. -/
def Acceptable (svc : Service) (row : CollectionRequest) : Prop :=
  Takeable row.status ∧ (truthy row.assignedCenterId).isSome ∧
    (storedAmount (requiredEscrow svc row)).isSome

instance (svc : Service) (row : CollectionRequest) : Decidable (Acceptable svc row) :=
  inferInstanceAs (Decidable (_ ∧ _ ∧ _))

variable {svc : Service} {o : Outcome} {w : World} {userId : String} {row : CollectionRequest}

/-! #### What is shown -/

theorem mem_slice {query : PageQuery} {rows : List CollectionRequest} (h : row ∈ query.slice rows) :
    row ∈ rows :=
  (query.order_perm rows).mem_iff.mp (List.mem_of_mem_drop (List.mem_of_mem_take h))

def wholePage (n : ℕ) : PageQuery := ⟨1, n, id, List.Perm.refl⟩

theorem mem_wholePage {rows : List CollectionRequest} :
    row ∈ (wholePage rows.length).slice rows ↔ row ∈ rows := by
  rw [PageQuery.slice, wholePage, Nat.sub_self, Nat.zero_mul, List.drop_zero]
  exact (congrArg (row ∈ ·) (List.take_length (l := rows))).to_iff

theorem listed_iff (hrow : row ∈ w.requests) : Listed w row ↔
    unassigned row = true ∨ row.collectorId ≠ none ∧ row.status ∈ ownStatuses := by
  constructor
  · rintro (⟨near, query, -, h⟩ | ⟨userId, query, h⟩)
    · have hfilter := (List.mem_filter.mp (mem_slice h)).2
      simp only [Bool.and_eq_true] at hfilter
      exact .inl hfilter.1.2
    · have hfilter := (List.mem_filter.mp (mem_slice h)).2
      simp only [Bool.or_eq_true, Bool.and_eq_true, beq_iff_eq, List.contains_iff_mem] at hfilter
      refine hfilter.imp_right ?_
      rintro ⟨hcollector, hstatus⟩
      exact ⟨by rw [hcollector]; exact Option.some_ne_none _, hstatus⟩
  · intro h
    refine .inr ⟨row.collectorId.getD "", wholePage _,
      mem_wholePage.mpr (List.mem_filter.mpr ⟨hrow, ?_⟩)⟩
    simp only [Bool.or_eq_true, Bool.and_eq_true, beq_iff_eq, List.contains_iff_mem]
    refine h.imp_right ?_
    rintro ⟨hcollector, hstatus⟩
    obtain ⟨k, hk⟩ := Option.ne_none_iff_exists'.mp hcollector
    exact ⟨by rw [hk]; rfl, hstatus⟩

/-! #### What may be accepted -/

/-- The checks of an acceptance read, and write nothing. -/
def Reading : Op → Prop
  | .findUser _ => True
  | .chainBalance _ => True
  | .completedPayments _ => True
  | .activeEscrows _ => True
  | _ => False

theorem after_same {i : Op} (h : w.effect o i = w) : (alone o w i).2 = w := by
  change w.after i o = w
  unfold World.after World.update
  split
  · exact h
  · rfl

theorem alone_reading {i : Op} (h : Reading i) : (alone o w i).2 = w := by
  cases i <;> first
    | exact False.elim h
    | exact after_same rfl

theorem only_validateCollectorSolvency (userId : String) (escrow : ℚ) :
    Only Reading (validateCollectorSolvency userId escrow) := by
  unfold validateCollectorSolvency
  split
  · exact only_pure _
  · refine only_bind ?_ fun total => ?_
    · refine only_bind (only_perform trivial) fun collector => ?_
      refine only_bind ?_ fun balance => ?_
      · unfold onChainBalance
        split
        · exact only_recover (only_bind (only_perform trivial) fun text => only_pure _)
        · exact only_pure _
      · split
        · exact only_bind (only_perform trivial) fun payments => only_pure _
        · exact only_pure _
    · refine only_bind (only_perform trivial) fun escrows => ?_
      dsimp only
      split
      · exact only_throw _
      · exact only_pure _

theorem exec_validateCollectorKyc (h : Eligible svc o w userId row) :
    exec (alone o) w (validateCollectorKyc userId) = (.ok (), w) := by
  have hfind : exec (alone o) w (call (.findUser userId)) = (.ok (w.findUser userId), w) := by
    refine Prod.ext ?_ (alone_reading trivial)
    change o.delivery.answer Failure.outside _ = _
    rw [h.answered]
    rfl
  unfold validateCollectorKyc
  rw [exec_bind_of_ok hfind, if_pos h.kyc]
  rfl

theorem exec_validateCollectorSolvency (h : Eligible svc o w userId row) :
    exec (alone o) w (validateCollectorSolvency userId (requiredEscrow svc row)) = (.ok (), w) :=
  Prod.ext h.solvent ((only_validateCollectorSolvency _ _).exec_world fun _ => alone_reading)

theorem exec_findRequest (h : o.delivery = .done) (hids : (w.requests.map Request.id).Nodup)
    (hrow : row ∈ w.requests) :
    exec (alone o) w (call (.findRequest row.id)) = (.ok (some row), w) := by
  refine Prod.ext ?_ (after_same rfl)
  change o.delivery.answer Failure.outside (w.findRequest row.id) = _
  rw [h, findRequest_of_mem hids hrow]
  rfl

theorem exec_accept_write (h : o.delivery = .done) (hids : (w.requests.map Request.id).Nodup)
    (hrow : row ∈ w.requests) (escrow : ℚ) :
    (∃ view, (exec (alone o) w (writeAndEmit row.id (.accept userId escrow))).1 = .ok view) ↔
      (storedAmount escrow).isSome := by
  unfold writeAndEmit
  cases hstored : storedAmount escrow with
  | none =>
    have hwrite : (exec (alone o) w (call (.writeRequest row.id (.accept userId escrow)))).1 =
        .error .outside := by
      change deliverSome o.delivery (w.changed row.id _) = _
      rw [World.changed, findRequest_of_mem hids hrow, Option.bind_some, Change.apply, hstored]
      rfl
    rw [exec_bind_of_error (Prod.ext hwrite rfl)]
    simp
  | some locked =>
    have hwrite : ∃ updated,
      (exec (alone o) w (call (.writeRequest row.id (.accept userId escrow)))).1 =
        .ok updated := by
      change ∃ updated, deliverSome o.delivery (w.changed row.id _) = _
      rw [World.changed, findRequest_of_mem hids hrow, Option.bind_some, Change.apply, hstored, h]
      exact ⟨_, rfl⟩
    obtain ⟨updated, hwrite⟩ := hwrite
    rw [exec_bind_of_ok (Prod.ext hwrite rfl)]
    refine iff_of_true ⟨updated.stripPin, ?_⟩ rfl
    refine exec_bind_eq_ok.mpr ⟨(), ?_, rfl⟩
    change o.delivery.answer Failure.outside () = _
    rw [h]
    rfl

theorem accepted_iff (hids : (w.requests.map Request.id).Nodup) (hrow : row ∈ w.requests)
    (h : Eligible svc o w userId row) : Accepted svc o w userId row ↔ Acceptable svc row := by
  unfold Accepted updateStatus withRequest
  rw [exec_bind_of_ok (exec_findRequest h.answered hids hrow)]
  dsimp only
  unfold accept
  split
  · rename_i htakeable
    split
    · rename_i hcenter
      refine iff_of_false ?_ ?_
      · rintro ⟨view, hview⟩
        cases hview
      · rintro ⟨-, hsome, -⟩
        rw [hcenter] at hsome
        cases hsome
    · rename_i centerId hcenter
      rw [exec_bind_of_ok (exec_validateCollectorKyc h),
        exec_bind_of_ok (exec_validateCollectorSolvency h), exec_accept_write h.answered hids hrow]
      rw [Acceptable, hcenter]
      exact ⟨fun hstored => ⟨htakeable, rfl, hstored⟩, fun hall => hall.2.2⟩
  · rename_i htakeable
    refine iff_of_false ?_ fun hall => htakeable hall.1
    rintro ⟨view, hview⟩
    cases hview

/-! ### Where they select the same -/

/-- Every acceptable request is shown to some collector, and every one that is shown and that nobody
has is acceptable. -/
structure Matched (svc : Service) (o : Outcome) (w : World) (userId : String)
    (row : CollectionRequest) :
    Prop where
  shown : Accepted svc o w userId row → Listed w row
  takeable : Listed w row → row.collectorId = none → Accepted svc o w userId row

/-- A request assigned from an auction has a collector; one that is pending has a collector only
while it has no centre; and what it asks in escrow fits the column. Each as far as nothing else
keeps the request from being accepted. -/
def Selectable (svc : Service) (row : CollectionRequest) : Prop :=
  (Acceptable svc row → (row.status = .pending ↔ row.collectorId = none)) ∧
    (unassigned row = true → Acceptable svc row)

instance (svc : Service) (row : CollectionRequest) : Decidable (Selectable svc row) :=
  inferInstanceAs (Decidable (_ ∧ _))

/-- The listings and the acceptance select the same exactly where the request is selectable. -/
theorem listed_iff_acceptable (hids : (w.requests.map Request.id).Nodup) (hrow : row ∈ w.requests)
    (h : Eligible svc o w userId row) : Matched svc o w userId row ↔ Selectable svc row := by
  have haccepted := accepted_iff hids hrow h
  have hlisted := listed_iff hrow
  constructor
  · rintro ⟨hshown, htakeable⟩
    constructor
    · intro hacceptable
      rcases hlisted.mp (hshown (haccepted.mpr hacceptable)) with hun | ⟨hcollector, hstatus⟩
      · simp only [unassigned, Bool.and_eq_true, beq_iff_eq, Option.isNone_iff_eq_none] at hun
        exact iff_of_true hun.1.1 hun.2
      · refine iff_of_false (fun hpending => ?_) hcollector
        rw [hpending] at hstatus
        exact absurd hstatus (by decide)
    · intro hun
      refine haccepted.mp (htakeable (hlisted.mpr (.inl hun)) ?_)
      simp only [unassigned, Bool.and_eq_true, Option.isNone_iff_eq_none] at hun
      exact hun.2
  · rintro ⟨hassigned, hfits⟩
    constructor
    · intro hacc
      have hacceptable := haccepted.mp hacc
      have hiff := hassigned hacceptable
      obtain ⟨htake, hcenter, -⟩ := hacceptable
      refine hlisted.mpr ?_
      rcases htake with hpending | hauction
      · refine .inl ?_
        obtain ⟨centerId, hsome⟩ := Option.isSome_iff_exists.mp hcenter
        have hcenter' := (Option.filter_eq_some_iff.mp hsome).1
        simp [unassigned, hpending, hcenter', hiff.mp hpending]
      · refine .inr ⟨fun hnone => ?_, ?_⟩
        · have hpending := hiff.mpr hnone
          rw [hauction] at hpending
          cases hpending
        · rw [hauction]
          decide
    · intro hlist hnone
      rcases hlisted.mp hlist with hun | ⟨hcollector, -⟩
      · exact haccepted.mpr (hfits hun)
      · exact absurd hnone hcollector

/-! ### A bid is selected -/

def answer : Outcome := { CollectionRaces.answer with id := "" }

theorem eligible_first {requests : List CollectionRequest} {bids : List AcopioBid}
    (h : (exec (alone answer) (sampleWorld requests bids)
      (validateCollectorSolvency "first" (requiredEscrow sampleService row))).1 = .ok ()) :
    Eligible sampleService answer (sampleWorld requests bids) "first" row :=
  ⟨rfl, rfl, h⟩

theorem listed_iff_acceptable_claimed :
    Matched sampleService answer (sampleWorld [sampleRow] []) "first" sampleRow ↔
      Selectable sampleService sampleRow :=
  listed_iff_acceptable (by decide) (List.mem_singleton_self _) (eligible_first (by decide +kernel))

def offeredBid : AcopioBid := ⟨"bid", "request", "center", [], 20, 5, .pending⟩

def selection : List RaceEvent := .start 0 (.selectBid "household" "request" "bid") :: answered 0 7

def auctioned : World :=
  sampleWorld [{ sampleRow with
    status := .auctionActive, assignmentMode := .auction, assignedCenterId :=
      none, agreedRates := none
    auctionExpiresAt := some (minutes 70) }] [offeredBid]

def assignedRow : CollectionRequest :=
  { sampleRow with
    status := .auctionAssigned, assignmentMode := .auction, assignedCenterId := some "center"
    agreedRates := some [], auctionExpiresAt := some (minutes 70), updatedAt :=
      minutes 60, auctioned := true }

/-- A request whose household has selected a bid may be accepted, and no collector is shown it. -/
theorem auctioned_never_listed : ∃ c,
    run (system sampleService).step (quiescent auctioned) selection = some c ∧
    c.world.requests = [assignedRow] ∧ Accepted sampleService answer c.world "first" assignedRow ∧
    ¬Listed c.world assignedRow ∧ ¬Matched sampleService answer c.world "first" assignedRow := by
  have hrun : (run (system sampleService).step (quiescent auctioned) selection).any (fun c =>
      c.world.requests == [assignedRow] && ((exec (alone answer) c.world
        (updateStatus sampleService "request" "first" .recolector .accepted)).1).toOption.isSome) =
          true := by
    decide +kernel
  obtain ⟨c, hc, htest⟩ := (Option.any_eq_true _ _).mp hrun
  simp only [Bool.and_eq_true, beq_iff_eq] at htest
  obtain ⟨hrequests, hok⟩ := htest
  have haccepted : Accepted sampleService answer c.world "first" assignedRow := by
    obtain ⟨view, hview⟩ := Option.isSome_iff_exists.mp hok
    refine ⟨view, ?_⟩
    change (exec (alone answer) c.world
      (updateStatus sampleService "request" "first" .recolector .accepted)).1 = _
    revert hview
    cases (exec (alone answer) c.world
      (updateStatus sampleService "request" "first" .recolector .accepted)).1 with
    | error e => exact fun h => by cases h
    | ok v => exact fun h => congrArg Except.ok (Option.some.inj h)
  have hunlisted : ¬Listed c.world assignedRow := by
    rw [listed_iff (by rw [hrequests]; exact List.mem_singleton_self _)]
    decide
  exact ⟨c, hc, hrequests, haccepted, hunlisted, fun h => hunlisted (h.shown haccepted)⟩

end Livora.CollectionListings
