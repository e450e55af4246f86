import Livora.CollectionRaces

/-! An auction that has run out, as the three copies of its fallback leave it, each running alone:
that of `CollectionAuctionService`, that of `CollectionLifecycleService` and that of
`CollectionsTimeoutWorker`. Two of them look at the bids and expire the open ones; the one of the
lifecycle does neither. -/

namespace Livora.AuctionFallbacks

open EffectPrograms EffectPrograms.Action CollectionBooks CollectionServices CollectionRaces

/-! ### The rows of one request -/

structure Rows where
  request : Option CollectionRequest
  bids : List AcopioBid
deriving DecidableEq

def rowsOf (w : World) (id : String) : Rows := ⟨w.findRequest id, w.bidsOf id⟩

def fallen (now : ℕ) (row : CollectionRequest) : CollectionRequest :=
  { row with status := .pending, assignmentMode := .automatic, updatedAt := now }

def expired (bid : AcopioBid) : AcopioBid :=
  if bid.status = .pending then { bid with status := .expired } else bid

def hasAcceptedBid (bids : List AcopioBid) : Bool := bids.any fun b => b.status == .accepted

def fallback (now : ℕ) (rows : Rows) : Rows :=
  if hasAcceptedBid rows.bids then rows
  else ⟨rows.request.map (fallen now), rows.bids.map expired⟩

def fallbackUnseen (now : ℕ) (rows : Rows) : Rows := ⟨rows.request.map (fallen now), rows.bids⟩

/-! ### One auction -/

section Writes

variable {w : World} {id x : String}

theorem findRequest_revert (w : World) (id x : String) :
    (w.writeRequest id .revertAuction).findRequest x =
      if x = id then (w.findRequest id).map (fallen w.now) else w.findRequest x := by
  unfold World.writeRequest World.changed
  cases hfound : w.findRequest id with
  | none =>
    change w.findRequest x = _
    split
    · rename_i hx
      rw [hx]
      exact hfound
    · rfl
  | some row =>
    exact findRequest_set hfound rfl

theorem bids_writeRequest {change : Change} : (w.writeRequest id change).bids = w.bids := by
  unfold World.writeRequest
  split <;> rfl

theorem now_writeRequest {change : Change} : (w.writeRequest id change).now = w.now := by
  unfold World.writeRequest
  split <;> rfl

theorem rowsOf_revert (w : World) (id x : String) : rowsOf (w.writeRequest id .revertAuction) x =
    if x = id then fallbackUnseen w.now (rowsOf w x) else rowsOf w x := by
  unfold rowsOf fallbackUnseen World.bidsOf
  rw [findRequest_revert, bids_writeRequest]
  split
  · rename_i hx
    rw [hx]
  · rfl

theorem bidsOf_expireBids (w : World) (id x : String) : (w.expireBids id).bidsOf x =
    if x = id then (w.bidsOf x).map expired else w.bidsOf x := by
  have hrequest (b : AcopioBid) : (if b.requestId = id ∧ b.status = .pending then
      { b with status := .expired } else b).requestId = b.requestId := by
    split <;> rfl
  unfold World.bidsOf World.expireBids
  rw [List.filter_map]
  have hpred : ((fun b : AcopioBid => b.requestId == x) ∘ fun b : AcopioBid =>
      if b.requestId = id ∧ b.status = .pending then { b with status := .expired } else b) =
        fun b => b.requestId == x := by
    funext b
    rw [Function.comp_apply, hrequest]
  rw [hpred]
  split
  · rename_i hx
    refine List.map_congr_left fun b hb => ?_
    have hb' : b.requestId = id := by simpa [hx] using (List.mem_filter.mp hb).2
    simp only [hb', true_and, expired]
  · rename_i hx
    refine (List.map_congr_left fun b hb => ?_).trans (List.map_id _)
    have hb' : b.requestId ≠ id := by
      have hbx : b.requestId = x := by simpa using (List.mem_filter.mp hb).2
      rw [hbx]
      exact hx
    exact if_neg fun h => hb' h.1

/-- The bids of an auction that is over, and then its row. -/
def revertWithBids (w : World) (id : String) : World :=
  (w.expireBids id).writeRequest id .revertAuction

theorem rowsOf_revertWithBids (w : World) (id x : String) : rowsOf (revertWithBids w id) x =
    if x = id then ⟨(w.findRequest x).map (fallen w.now),
      (w.bidsOf x).map expired⟩ else rowsOf w x := by
  unfold revertWithBids
  rw [rowsOf_revert]
  have hbids := bidsOf_expireBids w id x
  split
  · rename_i hx
    rw [if_pos hx] at hbids
    unfold fallbackUnseen rowsOf
    rw [hbids]
    rfl
  · rename_i hx
    rw [if_neg hx] at hbids
    unfold rowsOf
    rw [hbids]
    rfl

end Writes

/-! ### The loop over the auctions -/

theorem rowsOf_foldl {next : World → FoundAuction → World} {f : FoundAuction → ℕ → Rows → Rows}
    (hnow : ∀ w req, (next w req).now = w.now)
    (hnext : ∀ w req x, rowsOf (next w req) x = if x = req.row.id then f req w.now
      (rowsOf w x) else rowsOf w x)
    {reqs : List FoundAuction} (hids : (reqs.map fun req => req.row.id).Nodup) (w : World) :
    (∀ req ∈ reqs, rowsOf (reqs.foldl next w) req.row.id = f req w.now (rowsOf w req.row.id)) ∧
    ∀ x, (∀ req ∈ reqs, req.row.id ≠ x) → rowsOf (reqs.foldl next w) x = rowsOf w x := by
  induction reqs generalizing w with
  | nil => exact ⟨fun req hreq => absurd hreq List.not_mem_nil, fun x _ => rfl⟩
  | cons first rest ih =>
    obtain ⟨hfirst, hrest⟩ := List.nodup_cons.mp hids
    obtain ⟨hlater, hother⟩ := ih hrest (next w first)
    have hne : ∀ req ∈ rest, req.row.id ≠ first.row.id := fun req hreq h =>
      hfirst (List.mem_map.mpr ⟨req, hreq, h⟩)
    constructor
    · intro req hreq
      rcases List.mem_cons.mp hreq with rfl | hreq
      · rw [List.foldl_cons, hother _ hne, hnext, if_pos rfl]
      · rw [List.foldl_cons, hlater req hreq, hnow, hnext, if_neg (hne req hreq)]
    · intro x hx
      rw [List.foldl_cons, hother x fun req hreq => hx req (List.mem_cons_of_mem _ hreq), hnext,
        if_neg (Ne.symm (hx first List.mem_cons_self))]

theorem exec_forEach {serve : World → (i : Op) → Except Failure (Reply i) × World}
    {I : World → Prop} {body : FoundAuction → Work Unit} {next : World → FoundAuction → World}
    {reqs : List FoundAuction}
    (hbody : ∀ w, I w → ∀ req ∈ reqs, exec serve w (body req) = (.ok (), next w req) ∧
      I (next w req))
    {w : World} (hw : I w) : exec serve w (forEach reqs body) = (.ok (), reqs.foldl next w) := by
  induction reqs generalizing w with
  | nil => rfl
  | cons first rest ih =>
    obtain ⟨hfirst, hI⟩ := hbody w hw first List.mem_cons_self
    rw [forEach, exec_bind_of_ok hfirst, List.foldl_cons]
    exact ih (fun w hw req hreq => hbody w hw req (List.mem_cons_of_mem _ hreq)) hI

/-! ### The three copies -/

def answer : Outcome := { CollectionRaces.answer with id := "" }

def alone (w : World) (i : Op) : Except Failure (Reply i) × World := w.serve i answer

def leaves (a : Work Unit) (w : World) : World := (exec alone w a).2

section Copies

variable {w : World} {reqs : List FoundAuction}

def found (w : World) (rows : List CollectionRequest) : List FoundAuction :=
  rows.map fun row => ⟨row, w.bidsOf row.id⟩

theorem ids_found (w : World) (rows : List CollectionRequest) :
    (found w rows).map (fun req => req.row.id) = rows.map Request.id := by
  rw [found, List.map_map]
  rfl

def Present (reqs : List FoundAuction) (w : World) : Prop :=
  ∀ req ∈ reqs, (w.findRequest req.row.id).isSome

theorem present_found (hids : (w.requests.map Request.id).Nodup) {rows : List CollectionRequest}
    (hrows : rows ⊆ w.requests) : Present (found w rows) w := by
  intro req hreq
  obtain ⟨row, hrow, rfl⟩ := List.mem_map.mp hreq
  rw [findRequest_of_mem hids (hrows hrow)]
  rfl

theorem present_revert (h : Present reqs w) (id : String) :
    Present reqs (w.writeRequest id .revertAuction) := by
  intro req hreq
  rw [findRequest_revert]
  split
  · rename_i hid
    rw [Option.isSome_map, ← hid]
    exact h req hreq
  · exact h req hreq

theorem exec_revert {id : String} (h : (w.findRequest id).isSome) :
    ∃ row, exec alone w (call (.writeRequest id .revertAuction)) =
      (.ok row, w.writeRequest id .revertAuction) := by
  obtain ⟨row, hrow⟩ := Option.isSome_iff_exists.mp h
  refine ⟨fallen w.now row, Prod.ext ?_ rfl⟩
  change deliverSome .done ((w.findRequest id).bind _) = _
  rw [hrow]
  rfl

theorem exec_expireAuction {req : FoundAuction} {emit : CollectionRequest → Work Unit}
    (h : (w.findRequest req.row.id).isSome)
    (hemit : ∀ w row, exec alone w (emit row) = (.ok (), w)) :
    exec alone w (CollectionAuctionService.expireAuction req emit) =
      (.ok (), if hasAcceptedBid req.bids then w else revertWithBids w req.row.id) := by
  unfold CollectionAuctionService.expireAuction
  split
  · rename_i haccepted
    have haccepted' : hasAcceptedBid req.bids = true := haccepted
    rw [if_pos haccepted']
    rfl
  · rename_i haccepted
    have haccepted' : ¬hasAcceptedBid req.bids = true := haccepted
    rw [if_neg haccepted']
    have hexpired : exec alone w (call (.expireBids req.row.id)) =
        (.ok (), w.expireBids req.row.id) := rfl
    rw [exec_bind_of_ok hexpired]
    obtain ⟨row, hrow⟩ := exec_revert (w := w.expireBids req.row.id) h
    rw [exec_bind_of_ok hrow]
    exact hemit _ row

def lookAndRevert (w : World) (req : FoundAuction) : World :=
  if hasAcceptedBid req.bids then w else revertWithBids w req.row.id

theorem rowsOf_lookAndRevert (w : World) (req : FoundAuction) (x : String) :
    rowsOf (lookAndRevert w req) x = if x = req.row.id then
      (if hasAcceptedBid req.bids then rowsOf w x
        else ⟨(w.findRequest x).map (fallen w.now), (w.bidsOf x).map expired⟩) else rowsOf w x := by
  unfold lookAndRevert
  split
  · rw [ite_self]
  · exact rowsOf_revertWithBids w req.row.id x

theorem now_lookAndRevert (w : World) (req : FoundAuction) : (lookAndRevert w req).now = w.now := by
  unfold lookAndRevert
  split
  · rfl
  · exact now_writeRequest

theorem present_lookAndRevert (h : Present reqs w) (req : FoundAuction) :
    Present reqs (lookAndRevert w req) := by
  unfold lookAndRevert
  split
  · exact h
  · exact present_revert (w := w.expireBids req.row.id) h _

theorem rowsOf_loop (hids : (w.requests.map Request.id).Nodup) {rows : List CollectionRequest}
    (hrows : rows.Sublist w.requests) :
    (∀ row ∈ rows, rowsOf ((found w rows).foldl lookAndRevert w) row.id =
      fallback w.now (rowsOf w row.id)) ∧
    ∀ x, (∀ row ∈ rows, row.id ≠ x) → rowsOf ((found w rows).foldl lookAndRevert w) x =
      rowsOf w x := by
  have hnodup : ((found w rows).map fun req => req.row.id).Nodup := by
    rw [ids_found]
    exact hids.sublist (hrows.map _)
  obtain ⟨hfound, hother⟩ :=
    rowsOf_foldl (f := fun req now rows => if hasAcceptedBid req.bids then rows
    else ⟨rows.request.map (fallen now),
      rows.bids.map expired⟩) now_lookAndRevert rowsOf_lookAndRevert hnodup w
  constructor
  · intro row hrow
    exact hfound ⟨row, w.bidsOf row.id⟩ (List.mem_map.mpr ⟨row, hrow, rfl⟩)
  · intro x hx
    refine hother x fun req hreq => ?_
    obtain ⟨row, hrow, rfl⟩ := List.mem_map.mp hreq
    exact hx row hrow

theorem exec_lookingLoop (hids : (w.requests.map Request.id).Nodup) {rows : List CollectionRequest}
    (hrows : rows.Sublist w.requests) {body : FoundAuction → Work Unit}
    (hbody : ∀ w req, (w.findRequest req.row.id).isSome →
      exec alone w (body req) = (.ok (), lookAndRevert w req)) :
    exec alone w (forEach (found w rows) body) = (.ok (), (found w rows).foldl lookAndRevert w) :=
  exec_forEach (I := Present (found w rows))
    (fun _ hw req hreq => ⟨hbody _ req (hw req hreq), present_lookAndRevert hw req⟩)
    (present_found hids hrows.subset)

theorem leaves_auction (hids : (w.requests.map Request.id).Nodup) :
    leaves CollectionAuctionService.checkAuctionFallbacks w =
      (found w (w.expiredAuctions w.now)).foldl lookAndRevert w := by
  refine congrArg Prod.snd (exec_lookingLoop hids List.filter_sublist fun w req h => ?_)
  exact exec_expireAuction h fun _ _ => rfl

theorem leaves_worker (hids : (w.requests.map Request.id).Nodup) :
    leaves CollectionsTimeoutWorker.processAuctionFallbacks w =
      (found w ((w.expiredAuctions w.now).take 50)).foldl lookAndRevert w := by
  refine congrArg Prod.snd
    (exec_lookingLoop hids ((List.take_sublist _ _).trans List.filter_sublist) fun w req h => ?_)
  rw [exec_recover, exec_expireAuction h fun _ _ => rfl]
  rfl

theorem rowsOf_lifecycle (hids : (w.requests.map Request.id).Nodup) {row : CollectionRequest}
    (hrow : row ∈ w.expiredAuctions w.now) :
    rowsOf (leaves CollectionLifecycleService.checkAuctionFallbacks w) row.id =
      fallbackUnseen w.now (rowsOf w row.id) := by
  have hloop : exec alone w (forEach (found w (w.expiredAuctions w.now)) fun req => do
      let _ ← call (.writeRequest req.row.id .revertAuction)
      pure ()) = (.ok (), (found w (w.expiredAuctions w.now)).foldl
        (fun w req => w.writeRequest req.row.id .revertAuction) w) := by
    refine exec_forEach (I := Present (found w (w.expiredAuctions w.now))) (fun w hw req hreq => ?_)
      (present_found hids List.filter_sublist.subset)
    obtain ⟨row, hrow⟩ := exec_revert (hw req hreq)
    rw [exec_bind_of_ok hrow]
    exact ⟨rfl, present_revert hw _⟩
  have hnodup : ((found w (w.expiredAuctions w.now)).map fun req => req.row.id).Nodup := by
    rw [ids_found]
    exact hids.sublist (List.filter_sublist.map _)
  have hnow : ∀ (w : World) (req : FoundAuction), (w.writeRequest req.row.id .revertAuction).now =
      w.now :=
    fun _ _ => now_writeRequest
  obtain ⟨hfound, -⟩ := rowsOf_foldl (f := fun _ now rows => fallbackUnseen now rows) hnow
    (fun w req x => rowsOf_revert w req.row.id x) hnodup w
  exact (congrArg (fun t => rowsOf t.2 row.id) hloop).trans
    (hfound ⟨row, w.bidsOf row.id⟩ (List.mem_map.mpr ⟨row, hrow, rfl⟩))

end Copies

/-! ### Where they agree -/

/-- The three copies leave the same rows of a request, those of an auction without a winner. -/
structure Agree (w : World) (id : String) : Prop where
  auction : rowsOf (leaves CollectionAuctionService.checkAuctionFallbacks w) id =
    fallback w.now (rowsOf w id)
  lifecycle : rowsOf (leaves CollectionLifecycleService.checkAuctionFallbacks w) id =
    fallback w.now (rowsOf w id)
  worker : rowsOf (leaves CollectionsTimeoutWorker.processAuctionFallbacks w) id =
    fallback w.now (rowsOf w id)

variable {w : World} {row : CollectionRequest}

theorem fallbackUnseen_eq_iff {rows : Rows} {now : ℕ} (hrow : rows.request = some row)
    (hactive : row.status = .auctionActive) : fallbackUnseen now rows = fallback now rows ↔
      ∀ b ∈ rows.bids, b.status ≠ .accepted ∧ b.status ≠ .pending := by
  unfold fallbackUnseen fallback
  split
  · rename_i haccepted
    obtain ⟨b, hb, hstatus⟩ := List.any_eq_true.mp haccepted
    refine iff_of_false (fun h => ?_) fun h => (h b hb).1 (by simpa using hstatus)
    have hrequest := congrArg Rows.request h
    rw [hrow, Option.map_some, Option.some.injEq] at hrequest
    have hstatus := congrArg Request.status hrequest
    rw [hactive] at hstatus
    cases hstatus
  · rename_i hnone
    have hnone' : ∀ b ∈ rows.bids, b.status ≠ .accepted := fun b hb h =>
      hnone (List.any_eq_true.mpr ⟨b, hb, by simp [h]⟩)
    rw [Rows.mk.injEq, and_iff_right rfl]
    constructor
    · intro h b hb
      refine ⟨hnone' b hb, fun hpending => ?_⟩
      have hfixed : expired b = b := by
        have hmap : rows.bids.map expired = rows.bids.map id := by rw [List.map_id]; exact h.symm
        exact List.map_inj_left.mp hmap b hb
      have hstatus := congrArg AcopioBid.status hfixed
      rw [expired, if_pos hpending, hpending] at hstatus
      cases hstatus
    · intro h
      have hmap : rows.bids.map expired = rows.bids.map id :=
        List.map_congr_left fun b hb => if_neg (h b hb).2
      rw [hmap, List.map_id]

/-- The three copies agree on an auction that has run out exactly where it is one of those that the
worker takes up in one turn and none of its bids is accepted or open. -/
theorem fallbacks_agree_iff (hids : (w.requests.map Request.id).Nodup)
    (hrow : row ∈ w.expiredAuctions w.now) : Agree w row.id ↔
      row ∈ (w.expiredAuctions w.now).take 50 ∧
        ∀ b ∈ w.bidsOf row.id, b.status ≠ .accepted ∧ b.status ≠ .pending := by
  have hmem : row ∈ w.requests := (List.mem_filter.mp hrow).1
  have hactive : row.status = .auctionActive := by
    have h := (List.mem_filter.mp hrow).2
    simp only [Bool.and_eq_true, beq_iff_eq] at h
    exact h.1
  have hfound : (rowsOf w row.id).request = some row := findRequest_of_mem hids hmem
  have hunseen : fallbackUnseen w.now (rowsOf w row.id) = fallback w.now (rowsOf w row.id) ↔
      ∀ b ∈ w.bidsOf row.id, b.status ≠ .accepted ∧ b.status ≠ .pending :=
    fallbackUnseen_eq_iff hfound hactive
  have hexpired : (w.expiredAuctions w.now).Sublist w.requests := List.filter_sublist
  have hauction := (rowsOf_loop hids hexpired).1 row hrow
  have hworker := rowsOf_loop hids ((List.take_sublist 50 _).trans hexpired)
  rw [← leaves_auction hids] at hauction
  rw [← leaves_worker hids] at hworker
  constructor
  · intro h
    have hbids := hunseen.mp ((rowsOf_lifecycle hids hrow).symm.trans h.lifecycle)
    refine ⟨?_, hbids⟩
    by_contra hlate
    have hother : ∀ r ∈ (w.expiredAuctions w.now).take 50, r.id ≠ row.id := by
      intro r hr hid
      have hr' : r ∈ w.requests := (List.mem_filter.mp (List.mem_of_mem_take hr)).1
      exact hlate (List.inj_on_of_nodup_map hids hr' hmem hid ▸ hr)
    have hsame : rowsOf w row.id = fallbackUnseen w.now (rowsOf w row.id) :=
      (hworker.2 row.id hother).symm.trans (h.worker.trans (hunseen.mpr hbids).symm)
    have hrequest := congrArg Rows.request hsame
    rw [fallbackUnseen, hfound, Option.map_some, Option.some.injEq] at hrequest
    have hstatus := congrArg Request.status hrequest
    rw [hactive] at hstatus
    cases hstatus
  · rintro ⟨htaken, hbids⟩
    exact ⟨hauction, (rowsOf_lifecycle hids hrow).trans (hunseen.mpr hbids), hworker.1 row htaken⟩

/-! ### An auction with one bid -/

def auctionRow : CollectionRequest :=
  { sampleRow with
    status := .auctionActive, assignmentMode := .auction, assignedCenterId :=
      none, agreedRates := none
    auctionExpiresAt := some 0 }

def bidOf (status : BidStatus) : AcopioBid := ⟨"bid", "request", "center", [], 20, 5, status⟩

theorem fallbacks_agree_withdrawn : Agree (sampleWorld [auctionRow] [bidOf .withdrawn]) "request" ↔
    auctionRow ∈
      ((sampleWorld [auctionRow] [bidOf .withdrawn]).expiredAuctions (minutes 60)).take 50 ∧
      ∀ b ∈ (sampleWorld [auctionRow] [bidOf .withdrawn]).bidsOf "request",
        b.status ≠ .accepted ∧ b.status ≠ .pending := by
  have hrow : auctionRow ∈ (sampleWorld [auctionRow] [bidOf .withdrawn]).expiredAuctions
    (minutes 60) := by
    decide +kernel
  exact fallbacks_agree_iff (by decide) hrow

/-- The bid is still open after the fallback of the lifecycle, and expired after the others. -/
theorem bid_left_open :
    auctionRow ∈ (sampleWorld [auctionRow] [bidOf .pending]).expiredAuctions (minutes 60) ∧
    (leaves CollectionLifecycleService.checkAuctionFallbacks
      (sampleWorld [auctionRow] [bidOf .pending])).bidsOf "request" = [bidOf .pending] ∧
    (leaves CollectionAuctionService.checkAuctionFallbacks
      (sampleWorld [auctionRow] [bidOf .pending])).bidsOf "request" = [bidOf .expired] ∧
    ¬Agree (sampleWorld [auctionRow] [bidOf .pending]) "request" := by
  have hopen : (leaves CollectionLifecycleService.checkAuctionFallbacks
      (sampleWorld [auctionRow] [bidOf .pending])).bidsOf "request" = [bidOf .pending] := by
        decide +kernel
  have hclosed : (fallback (minutes 60)
    (rowsOf (sampleWorld [auctionRow] [bidOf .pending]) "request")).bids =
      [bidOf .expired] := by decide +kernel
  refine ⟨by decide +kernel, hopen, by decide +kernel, fun h => ?_⟩
  have hbids : [bidOf .pending] = [bidOf .expired] :=
    hopen.symm.trans ((congrArg Rows.bids h.lifecycle).trans hclosed)
  exact absurd hbids (by decide)

end Livora.AuctionFallbacks
