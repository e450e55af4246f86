import Livora.CollectionRaces

/-! The bids on the requests. A request that was assigned from an auction has one accepted
bid, the one it was assigned to, and no open one, as long as nobody bids on it after
that and the selection finds the bids as it has read them. -/

namespace Livora.AuctionBids

open TransitionRuns EffectPrograms ProgramPools ProgramPools.System
open CollectionBooks CollectionBooks.World CollectionServices CollectionStages CollectionRaces
open RewardStrategies (NumberRecord)
open PinVerification (RequestStatus)

variable {svc : Service} {c c' : Race} {e : RaceEvent} {j : ℕ} {o : Outcome}

/-! ### The bids of one request -/

def Closed (status : BidStatus) : Prop := status ≠ .accepted ∧ status ≠ .pending

instance (status : BidStatus) : Decidable (Closed status) :=
  inferInstanceAs (Decidable (_ ∧ _))

theorem closed_rejected : Closed .rejected := by decide

structure Won (bids : List AcopioBid) (row : CollectionRequest) (bid : AcopioBid) : Prop where
  mem : bid ∈ bids
  request : bid.requestId = row.id
  accepted : bid.status = .accepted
  center : row.assignedCenterId = some bid.centerId
  rates : row.agreedRates = some bid.proposedRates
  others : ∀ b ∈ bids, b.requestId = row.id → b.id ≠ bid.id → Closed b.status

def Settled (bids : List AcopioBid) (row : CollectionRequest) : Prop := ∃ bid, Won bids row bid

section Settled

variable {bids : List AcopioBid} {row row' : CollectionRequest}

theorem Settled.of_row (h : Settled bids row) (hid : row'.id = row.id)
    (hcenter : row'.assignedCenterId = row.assignedCenterId)
    (hrates : row'.agreedRates = row.agreedRates) : Settled bids row' := by
  obtain ⟨bid, hwon⟩ := h
  exact ⟨bid, hwon.mem, hwon.request.trans hid.symm, hwon.accepted, hcenter.trans hwon.center,
    hrates.trans hwon.rates, fun b hb hrequest => hwon.others b hb (hrequest.trans hid)⟩

theorem Settled.map {f : AcopioBid → AcopioBid} (h : Settled bids row)
    (hkeys : ∀ b, (f b).id = b.id ∧ (f b).requestId = b.requestId)
    (hsame : ∀ b ∈ bids, b.requestId = row.id → b.status = .accepted → f b = b)
    (hclosed : ∀ b ∈ bids, b.requestId = row.id → Closed b.status → Closed (f b).status) :
    Settled (bids.map f) row := by
  obtain ⟨bid, hwon⟩ := h
  have hbid := hsame bid hwon.mem hwon.request hwon.accepted
  refine ⟨bid, ?_, hwon.request, hwon.accepted, hwon.center, hwon.rates, ?_⟩
  · exact List.mem_map.mpr ⟨bid, hwon.mem, hbid⟩
  · intro b hb hrequest hne
    obtain ⟨old, hold, rfl⟩ := List.mem_map.mp hb
    rw [(hkeys old).2] at hrequest
    rw [(hkeys old).1] at hne
    exact hclosed old hold hrequest (hwon.others old hold hrequest hne)

theorem Settled.append {bid : AcopioBid} (h : Settled bids row) (hbid : bid.requestId ≠ row.id) :
    Settled (bids ++ [bid]) row := by
  obtain ⟨winner, hwon⟩ := h
  refine ⟨winner, List.mem_append_left _ hwon.mem, hwon.request, hwon.accepted, hwon.center,
    hwon.rates, fun b hb hrequest => ?_⟩
  rcases List.mem_append.mp hb with hb | hb
  · exact hwon.others b hb hrequest
  · obtain rfl := List.mem_singleton.mp hb
    exact absurd hrequest hbid

theorem Settled.exactly_one (hkeys : (bids.map AcopioBid.id).Nodup) (h : Settled bids row) :
    ∃ bid, bids.filter (fun b => b.requestId == row.id && b.status == .accepted) = [bid] ∧
      row.assignedCenterId = some bid.centerId ∧ row.agreedRates = some bid.proposedRates ∧
      ∀ b ∈ bids, b.requestId = row.id → b.status ≠ .pending := by
  obtain ⟨bid, hwon⟩ := h
  refine ⟨bid, ?_, hwon.center, hwon.rates, fun b hb hrequest => ?_⟩
  · have hall : ∀ b ∈ bids.filter fun b => b.requestId == row.id && b.status == .accepted,
        b = bid := by
      intro b hb
      obtain ⟨hmem, hb⟩ := List.mem_filter.mp hb
      simp only [Bool.and_eq_true, beq_iff_eq] at hb
      by_contra hne
      have hid : b.id ≠ bid.id := fun hid =>
        hne (List.inj_on_of_nodup_map hkeys hmem hwon.mem hid)
      exact (hwon.others b hmem hb.1 hid).1 hb.2
    have hmem : bid ∈ bids.filter fun b => b.requestId == row.id && b.status == .accepted := by
      simp [hwon.mem, hwon.request, hwon.accepted]
    refine List.perm_singleton.mp ((List.perm_ext_iff_of_nodup
      ((List.Nodup.of_map _ hkeys).filter _) (List.nodup_singleton bid)).mpr fun b => ?_)
    exact ⟨fun hb => List.mem_singleton.mpr (hall b hb), fun hb => List.mem_singleton.mp hb ▸ hmem⟩
  · by_cases hid : b.id = bid.id
    · rw [List.inj_on_of_nodup_map hkeys hb hwon.mem hid, hwon.accepted]
      decide
    · exact (hwon.others b hb hrequest hid).2

end Settled

/-! ### What a call does to the bids -/

inductive BidEffect (w : World) (i : Op) (w' : World) : Prop where
  | same (h : w'.bids = w.bids) (hselect : ∀ id bid others row,
      i = .commitSelection id bid others → w.selected id bid ≠ some row)
  | replace (bidId : String) (old bid : AcopioBid) (hfound : w.findBidById bidId = some old)
      (hid : bid.id = old.id) (hrequest : bid.requestId = old.requestId)
      (hcenter : bid.centerId = old.centerId)
      (hcall : (∃ offer, i = .updateBid bidId offer) ∨
        i = .withdrawBid bidId ∧ bid.status = .withdrawn)
      (h : w'.bids = (w.setBid bid).bids)
  | insert (requestId centerId : String) (offer : Offer) (bid : AcopioBid)
      (hcall : i = .createBid requestId centerId offer) (hfresh : w.findBidById bid.id = none)
      (hrequest : bid.requestId = requestId) (h : w'.bids = w.bids ++ [bid])
  | expire (requestId : String) (hcall : i = .expireBids requestId)
      (h : w'.bids = (w.expireBids requestId).bids)
  | select (id : String) (bid : AcopioBid) (others : List String) (row : CollectionRequest)
      (hcall : i = .commitSelection id bid others) (hselected : w.selected id bid = some row)
      (h : w'.bids = w.bids.map (selectAmong bid.id others))
      (hrequests : w'.requests = (w.setRequest row).requests)

section BidEffect

variable {w w' : World} {i : Op} {row : CollectionRequest}

theorem bidEffect_of_same (h : w'.bids = w.bids)
    (hi : ∀ id bid others, i ≠ .commitSelection id bid others) : BidEffect w i w' :=
  .same h fun id bid others _ hcall _ => hi id bid others hcall

theorem bidEffect_updateBid {bidId : String} {offer : Offer} :
    BidEffect w (.updateBid bidId offer) (w.updateBid bidId offer) := by
  unfold World.updateBid
  cases hreoffered : w.reoffered bidId offer with
  | none => exact bidEffect_of_same rfl fun _ _ _ h => by cases h
  | some bid =>
    obtain ⟨old, hold, hbid⟩ := Option.bind_eq_some_iff.mp hreoffered
    obtain ⟨hid, hrequest, hcenter, -, -⟩ := Offer.bid_eq hbid
    exact .replace bidId old bid hold hid hrequest hcenter (.inl ⟨offer, rfl⟩) rfl

theorem bidEffect_withdrawBid {bidId : String} :
    BidEffect w (.withdrawBid bidId) (w.withdrawBid bidId) := by
  unfold World.withdrawBid
  cases hfound : w.findBidById bidId with
  | none => exact bidEffect_of_same rfl fun _ _ _ h => by cases h
  | some bid =>
    exact .replace bidId bid { bid with status := .withdrawn } hfound rfl rfl rfl
      (.inr ⟨rfl, rfl⟩) rfl

theorem bidEffect_createBid {id requestId centerId : String} {offer : Offer} :
    BidEffect w (.createBid requestId centerId offer)
    (w.createBid id requestId centerId offer) := by
  unfold World.createBid
  cases hoffered : w.offered id requestId centerId offer with
  | none => exact bidEffect_of_same rfl fun _ _ _ h => by cases h
  | some bid =>
    unfold World.offered at hoffered
    split at hoffered
    · cases hoffered
    · rename_i hfresh
      obtain ⟨hid, hrequest, -, -, -⟩ := Offer.bid_eq hoffered
      exact .insert requestId centerId offer bid rfl (by simpa [hid] using hfresh) hrequest rfl

theorem bidEffect_commitSelection {id : String} {bid : AcopioBid} {others : List String} :
    BidEffect w (.commitSelection id bid others) (w.commitSelection id bid others) := by
  unfold World.commitSelection
  cases hselected : w.selected id bid with
  | none =>
    refine .same rfl fun id bid others row h hrow => ?_
    cases h
    rw [hselected] at hrow
    cases hrow
  | some row => exact .select id bid others row rfl hselected rfl rfl

theorem bids_writeRequest {id : String} {change : Change} :
    (w.writeRequest id change).bids = w.bids := by
  unfold World.writeRequest
  split <;> rfl

theorem bids_editRequest {id householdId : String} {itemsEstimated : NumberRecord}
    {description : Option String} :
    (w.editRequest id householdId itemsEstimated description).bids = w.bids := by
  unfold World.editRequest
  split <;> rfl

theorem bids_createRequest {id : String} {draft : Draft} :
    (w.createRequest id draft).bids = w.bids := by
  unfold World.createRequest
  split <;> rfl

theorem bidEffect_effect : BidEffect w i (w.effect o i) := by
  cases i with
  | updateBid bidId offer => exact bidEffect_updateBid
  | withdrawBid bidId => exact bidEffect_withdrawBid
  | createBid requestId centerId offer => exact bidEffect_createBid
  | expireBids requestId => exact .expire requestId rfl rfl
  | commitSelection id bid others => exact bidEffect_commitSelection
  | writeRequest id change =>
    exact bidEffect_of_same bids_writeRequest fun _ _ _ h => by cases h
  | editRequest id householdId items description =>
    exact bidEffect_of_same bids_editRequest fun _ _ _ h => by cases h
  | createRequest draft => exact bidEffect_of_same bids_createRequest fun _ _ _ h => by cases h
  | purgeRoute id key => cases key <;> exact bidEffect_of_same rfl fun _ _ _ h => by cases h
  | _ => exact bidEffect_of_same rfl fun _ _ _ h => by cases h

/-! ### What stays of a bid -/

theorem mem_of_findBidById {bidId : String} {bid : AcopioBid}
    (h : w.findBidById bidId = some bid) : bid ∈ w.bids ∧ bid.id = bidId :=
  ⟨List.mem_of_find?_eq_some h, by simpa using List.find?_some h⟩

theorem not_mem_keys {bidId : String} (h : w.findBidById bidId = none) :
    bidId ∉ w.bids.map AcopioBid.id := by
  intro hid
  obtain ⟨b, hb, rfl⟩ := List.mem_map.mp hid
  simpa using List.find?_eq_none.mp h b hb

/-- The bid is in the table, perhaps with other figures and another status. -/
def Stands (w : World) (bid : AcopioBid) : Prop :=
  ∃ b ∈ w.bids, b.id = bid.id ∧ b.requestId = bid.requestId ∧ b.centerId = bid.centerId

structure Renames (f : AcopioBid → AcopioBid) : Prop where
  id : ∀ b, (f b).id = b.id
  request : ∀ b, (f b).requestId = b.requestId
  center : ∀ b, (f b).centerId = b.centerId

theorem renames_expireBids (requestId : String) : Renames fun b =>
    if b.requestId = requestId ∧ b.status = .pending then { b with status := .expired } else b := by
  constructor <;> intro b <;> split <;> rfl

theorem renames_selectAmong (bidId : String) (others : List String) :
    Renames (selectAmong bidId others) := by
  constructor <;> intro b <;> unfold selectAmong <;> split <;> try rfl
  all_goals split <;> rfl

theorem keys_map {f : AcopioBid → AcopioBid} (hf : Renames f) (l : List AcopioBid) :
    (l.map f).map AcopioBid.id = l.map AcopioBid.id := by
  rw [List.map_map]
  exact List.map_congr_left fun b _ => hf.id b

theorem stands_map {f : AcopioBid → AcopioBid} (hf : Renames f) (h : w'.bids = w.bids.map f)
    {bid : AcopioBid} (hbid : Stands w bid) : Stands w' bid := by
  obtain ⟨b, hb, hid, hrequest, hcenter⟩ := hbid
  refine ⟨f b, h ▸ List.mem_map_of_mem hb, (hf.id b).trans hid, (hf.request b).trans hrequest,
    (hf.center b).trans hcenter⟩

theorem setBid_eq {bid old : AcopioBid} (hkeys : (w.bids.map AcopioBid.id).Nodup)
    (hold : old ∈ w.bids) (hid : bid.id = old.id) :
    (w.setBid bid).bids = w.bids.map fun b => if b = old then bid else b := by
  refine List.map_congr_left fun b hb => ?_
  by_cases heq : b = old
  · rw [if_pos heq, heq, if_pos hid.symm]
  · rw [if_neg heq, if_neg fun h => heq (List.inj_on_of_nodup_map hkeys hb hold (h.trans hid))]

theorem renames_replaced {bid old : AcopioBid} (hid : bid.id = old.id)
    (hrequest : bid.requestId = old.requestId) (hcenter : bid.centerId = old.centerId) :
    Renames fun b => if b = old then bid else b := by
  constructor <;> intro b <;> split
  · rename_i h
    rw [hid, h]
  · rfl
  · rename_i h
    rw [hrequest, h]
  · rfl
  · rename_i h
    rw [hcenter, h]
  · rfl

theorem BidEffect.grows (h : BidEffect w i w') (hkeys : (w.bids.map AcopioBid.id).Nodup) :
    (∃ f, Renames f ∧ w'.bids = w.bids.map f) ∨
      ∃ bid, w.findBidById bid.id = none ∧ w'.bids = w.bids ++ [bid] := by
  cases h with
  | same h => exact .inl ⟨id, ⟨fun _ => rfl, fun _ => rfl, fun _ => rfl⟩, by rw [h, List.map_id]⟩
  | replace bidId old bid hfound hid hrequest hcenter hcall h =>
    obtain ⟨hold, -⟩ := mem_of_findBidById hfound
    exact .inl ⟨_, renames_replaced hid hrequest hcenter, h.trans (setBid_eq hkeys hold hid)⟩
  | insert requestId centerId offer bid hcall hfresh hrequest h => exact .inr ⟨bid, hfresh, h⟩
  | expire requestId hcall h => exact .inl ⟨_, renames_expireBids requestId, h⟩
  | select id bid others row hcall hselected h hrequests =>
    exact .inl ⟨_, renames_selectAmong bid.id others, h⟩

theorem BidEffect.keys (h : BidEffect w i w') (hkeys : (w.bids.map AcopioBid.id).Nodup) :
    (w'.bids.map AcopioBid.id).Nodup := by
  rcases h.grows hkeys with ⟨f, hf, h⟩ | ⟨bid, hfresh, h⟩
  · rwa [h, keys_map hf]
  · rw [h, List.map_append]
    refine List.nodup_append.mpr ⟨hkeys, List.nodup_singleton _, ?_⟩
    intro x hx y hy hxy
    obtain rfl := List.mem_singleton.mp hy
    exact not_mem_keys hfresh (hxy ▸ hx)

theorem BidEffect.stands (h : BidEffect w i w') (hkeys : (w.bids.map AcopioBid.id).Nodup)
    {bid : AcopioBid} (hbid : Stands w bid) : Stands w' bid := by
  rcases h.grows hkeys with ⟨f, hf, h⟩ | ⟨new, -, h⟩
  · exact stands_map hf h hbid
  · obtain ⟨b, hb, hsame⟩ := hbid
    exact ⟨b, h ▸ List.mem_append_left _ hb, hsame⟩

end BidEffect

/-! ### In time -/

def Open (w : World) (id : String) : Prop := ∀ row ∈ w.findRequest id, row.auctioned = false

instance (w : World) (id : String) : Decidable (Open w id) :=
  inferInstanceAs (Decidable (∀ row ∈ w.findRequest id, _))

inductive Bidding where
  | update (bidId : String)
  | create (requestId : String)
  | withdraw (bidId : String)
  | select (requestId : String) (bid : AcopioBid) (others : List String)
  | claim (requestId : String)

def bidding? : Op → Option Bidding
  | .updateBid bidId _ => some (.update bidId)
  | .createBid requestId _ _ => some (.create requestId)
  | .withdrawBid bidId => some (.withdraw bidId)
  | .commitSelection requestId bid others => some (.select requestId bid others)
  | .writeRequest requestId (.claimAutomatic _ _) => some (.claim requestId)
  | _ => none

/-- A bid comes in, or a centre claims, while the request is not assigned from an auction; the bid
that won is not withdrawn; a selection finds the rates it has read, and no open bid that it has
not. -/
def InTime (w : World) : Bidding → Prop
  | .update bidId => ∀ bid ∈ w.findBidById bidId, Open w bid.requestId
  | .create requestId => Open w requestId
  | .withdraw bidId =>
    ∀ bid ∈ w.findBidById bidId, bid.status = .accepted → Open w bid.requestId
  | .select requestId bid others =>
    (∀ b ∈ w.findBidById bid.id, b.proposedRates = bid.proposedRates) ∧
      ∀ b ∈ w.bids, b.requestId = requestId → b.id = bid.id ∨ b.id ∈ others ∨ Closed b.status
  | .claim requestId => Open w requestId

instance (w : World) : (b : Bidding) → Decidable (InTime w b)
  | .update bidId => inferInstanceAs (Decidable (∀ bid ∈ w.findBidById bidId, _))
  | .create requestId => inferInstanceAs (Decidable (Open w requestId))
  | .withdraw bidId => inferInstanceAs (Decidable (∀ bid ∈ w.findBidById bidId, _ → _))
  | .select _ bid _ =>
    inferInstanceAs (Decidable ((∀ b ∈ w.findBidById bid.id, _) ∧ ∀ b ∈ w.bids, _ → _))
  | .claim requestId => inferInstanceAs (Decidable (Open w requestId))

def applied (c : Race) : RaceEvent → Option Op
  | .advance j o => if o.delivery.applied then pending c j else none
  | _ => none

def Orderly (c : Race) (e : RaceEvent) : Prop :=
  ∀ b ∈ (applied c e).bind bidding?, InTime c.world b

instance (c : Race) (e : RaceEvent) : Decidable (Orderly c e) :=
  inferInstanceAs (Decidable (∀ b ∈ (applied c e).bind bidding?, _))

/-! ### What a run keeps -/

/-- The requests assigned from an auction are settled, and what the programs have read of the bids
still stands. -/
structure Sound (w : World) (st : ℕ → Option Stage) : Prop where
  ids : (w.requests.map Request.id).Nodup
  keys : (w.bids.map AcopioBid.id).Nodup
  assigned : ∀ r ∈ w.requests, r.status = .auctionAssigned → r.auctioned = true
  settled : ∀ r ∈ w.requests, r.auctioned = true → Settled w.bids r
  bid : ∀ j s, st j = some s → ∀ bid ∈ s.bid, Stands w bid
  others : ∀ j s, st j = some s → ∀ read ∈ s.others, ∀ id ∈ read.2.2,
    ∃ b ∈ w.bids, b.id = id ∧ b.requestId = read.1

section Settling

variable {w w' : World} {i : Op} {row : CollectionRequest}

theorem not_open {id : String} (hids : (w.requests.map Request.id).Nodup) (hrow : row ∈ w.requests)
    (hauctioned : row.auctioned = true) (h : Open w id) : id ≠ row.id := by
  rintro rfl
  rw [h row (findRequest_of_mem hids hrow)] at hauctioned
  cases hauctioned

/-- The bids that were read beside the selected one are on the request, and so is that one. -/
def Selectable (w : World) (id : String) (bid : AcopioBid) (others : List String) : Prop :=
  bid.requestId = id ∧ Stands w bid ∧ ∀ x ∈ others, ∃ b ∈ w.bids, b.id = x ∧ b.requestId = id

theorem BidEffect.settled (h : BidEffect w i w') (hids : (w.requests.map Request.id).Nodup)
    (hkeys : (w.bids.map AcopioBid.id).Nodup) (hC : ∀ b ∈ bidding? i, InTime w b)
    (hselect : ∀ id bid others, i = .commitSelection id bid others → Selectable w id bid others ∧
      (∀ r, w.selected id bid = some r → row.id ≠ id))
    (hrow : row ∈ w.requests) (hauctioned : row.auctioned = true) (hrow' : Settled w.bids row) :
    Settled w'.bids row := by
  have same_bid {b old : AcopioBid} (hb : b ∈ w.bids) (hold : old ∈ w.bids) (hid : b.id = old.id) :
      b = old := List.inj_on_of_nodup_map hkeys hb hold hid
  cases h with
  | same h => rwa [h]
  | replace bidId old bid hfound hid hrequest hcenter hcall h =>
    obtain ⟨hold, -⟩ := mem_of_findBidById hfound
    have hf := renames_replaced hid hrequest hcenter
    rw [h, setBid_eq hkeys hold hid]
    refine hrow'.map (fun b => ⟨hf.id b, hf.request b⟩) (fun b hb hb' haccepted => ?_)
      fun b hb hb' hclosed => ?_
    · -- the accepted bid is neither brought up to date nor withdrawn
      refine if_neg fun heq => ?_
      subst heq
      rcases hcall with ⟨offer, rfl⟩ | ⟨rfl, -⟩
      · exact not_open hids hrow hauctioned (hC _ rfl b hfound) hb'
      · exact not_open hids hrow hauctioned (hC _ rfl b hfound haccepted) hb'
    · split
      · rename_i heq
        subst heq
        rcases hcall with ⟨offer, rfl⟩ | ⟨rfl, hstatus⟩
        · exact absurd hb' (not_open hids hrow hauctioned (hC _ rfl b hfound))
        · rw [hstatus]
          decide
      · exact hclosed
  | insert requestId centerId offer bid hcall hfresh hrequest h =>
    subst hcall
    rw [h]
    exact hrow'.append (hrequest ▸ not_open hids hrow hauctioned (hC _ rfl))
  | expire requestId hcall h =>
    have hf := renames_expireBids requestId
    rw [h]
    refine hrow'.map (fun b => ⟨hf.id b, hf.request b⟩) (fun b hb hb' haccepted => ?_)
      fun b hb hb' hclosed => ?_
    · simp [haccepted]
    · rw [if_neg fun h => hclosed.2 h.2]
      exact hclosed
  | select id bid others row' hcall hselected h hrequests =>
    obtain ⟨⟨hbid, ⟨b₀, hb₀, hid₀, hrequest₀, -⟩, hothers⟩, hne⟩ := hselect id bid others hcall
    have hne := hne row' hselected
    have hf := renames_selectAmong bid.id others
    have hsame : ∀ b ∈ w.bids, b.requestId = row.id → selectAmong bid.id others b = b := by
      intro b hb hb'
      have hwinner : b.id ≠ bid.id := by
        intro heq
        rw [same_bid hb hb₀ (heq.trans hid₀.symm), hrequest₀, hbid] at hb'
        exact hne hb'.symm
      have hother : b.id ∉ others := by
        intro hmem
        obtain ⟨b', hb'', hid', hrequest'⟩ := hothers _ hmem
        rw [← same_bid hb'' hb hid', hrequest'] at hb'
        exact hne hb'.symm
      rw [selectAmong, if_neg hwinner, if_neg hother]
    rw [h]
    refine hrow'.map (fun b => ⟨hf.id b, hf.request b⟩) (fun b hb hb' _ => hsame b hb hb')
      fun b hb hb' hclosed => ?_
    rw [hsame b hb hb']
    exact hclosed

theorem settled_selected {id : String} {bid : AcopioBid} {others : List String}
    (hkeys : (w.bids.map AcopioBid.id).Nodup) (hselectable : Selectable w id bid others)
    (hC : InTime w (.select id bid others)) (hselected : w.selected id bid = some row) :
    Settled (w.bids.map (selectAmong bid.id others)) row := by
  obtain ⟨hbid, ⟨b₀, hb₀, hid₀, hrequest₀, hcenter₀⟩, -⟩ := hselectable
  obtain ⟨b, hfound, hchanged⟩ := Option.bind_eq_some_iff.mp hselected
  obtain ⟨old, hold, happly⟩ := Option.bind_eq_some_iff.mp hchanged
  obtain ⟨hb, hid⟩ := mem_of_findBidById hfound
  obtain rfl := List.inj_on_of_nodup_map hkeys hb hb₀ (hid.trans hid₀.symm)
  have hrates := hC.1 b hfound
  have hrow : row.id = id := (Change.apply_id happly).trans (id_of_findRequest hold)
  have hf := renames_selectAmong bid.id others
  cases happly
  refine ⟨{ b with status := .accepted }, ?_, ?_, rfl, ?_, ?_, ?_⟩
  · exact List.mem_map.mpr ⟨b, hb, by rw [selectAmong, if_pos hid]⟩
  · exact (hrequest₀.trans hbid).trans hrow.symm
  · exact congrArg some hcenter₀.symm
  · exact congrArg some hrates.symm
  · intro x hx hrequest hne
    obtain ⟨b', hb', rfl⟩ := List.mem_map.mp hx
    rw [hf.request, hrow] at hrequest
    rw [hf.id] at hne
    have hwinner : b'.id ≠ bid.id := fun h => hne (h.trans hid.symm)
    unfold selectAmong
    rw [if_neg hwinner]
    rcases hC.2 b' hb' hrequest with h | hmem | hclosed
    · exact absurd h hwinner
    · rw [if_pos hmem]
      exact closed_rejected
    · split
      · exact closed_rejected
      · exact hclosed

end Settling

/-! ### The requests -/

/-- What is kept of each request, with the bids as they stand. -/
def Fair (bids : List AcopioBid) (row : CollectionRequest) : Prop :=
  (row.status = .auctionAssigned → row.auctioned = true) ∧
    (row.auctioned = true → Settled bids row)

theorem fair_of_row {bids : List AcopioBid} {row row' : CollectionRequest} (h : Fair bids row)
    (hid : row'.id = row.id) (hcenter : row'.assignedCenterId = row.assignedCenterId)
    (hrates : row'.agreedRates = row.agreedRates) (hauctioned : row'.auctioned = row.auctioned)
    (hstatus : row'.status ≠ .auctionAssigned ∨ row'.status = row.status) : Fair bids row' := by
  refine ⟨fun hs => ?_, fun ha => (h.2 (hauctioned ▸ ha)).of_row hid hcenter hrates⟩
  rw [hauctioned]
  exact h.1 ((hstatus.resolve_left fun hne => hne hs).symm.trans hs)

theorem fair_of_unauctioned {bids : List AcopioBid} {row : CollectionRequest}
    (hauctioned : row.auctioned = false) (hstatus : row.status ≠ .auctionAssigned) :
    Fair bids row :=
  ⟨fun hs => absurd hs hstatus, fun ha => by rw [hauctioned] at ha; cases ha⟩

theorem fair_change {bids : List AcopioBid} {change : Change} {row row' : CollectionRequest}
    {now : ℕ} (hselect : ∀ k rates, change ≠ .selectBid k rates)
    (hclaim : ∀ k rates, change = .claimAutomatic k rates → row.auctioned = false)
    (happly : change.apply now row = some row') (h : Fair bids row) : Fair bids row' := by
  cases change with
  | accept collectorId escrow =>
    obtain ⟨escrowLocked, -, rfl⟩ := Option.map_eq_some_iff.mp happly
    exact fair_of_row h rfl rfl rfl rfl (.inl (by simp))
  | selectBid k rates => exact absurd rfl (hselect k rates)
  | claimAutomatic k rates =>
    have hopen := hclaim k rates rfl
    cases happly
    refine fair_of_unauctioned hopen fun hs => ?_
    rw [h.1 hs] at hopen
    cases hopen
  | cancelByCollector userId => cases happly; exact fair_of_unauctioned rfl (by simp)
  | cancelByHousehold userId => cases happly; exact fair_of_unauctioned rfl (by simp)
  | pendingTimeout => cases happly; exact fair_of_unauctioned rfl (by simp)
  | _ => cases happly; exact fair_of_row h rfl rfl rfl rfl (.inl (by simp))

section Calls

variable {s : Stage} {i : Op}

theorem applied_advance (happlied : o.delivery.applied = true) (hi : pending c j = some i) :
    applied c (.advance j o) = some i := by
  rw [applied, if_pos happlied, hi]

theorem selectable {id : String} {bid : AcopioBid} {others : List String}
    (hsound : Sound c.world (stages c)) (hs : stages c j = some s)
    (hallowed : Allowed svc s (.commitSelection id bid others)) :
    Selectable c.world id bid others := by
  obtain ⟨-, hbid, hrequest, hothers⟩ := hallowed
  exact ⟨hrequest, hsound.bid j s hs bid hbid, fun x hx => hsound.others j s hs _ hothers x hx⟩

theorem id_of_selected {w : World} {id : String} {bid : AcopioBid} {row : CollectionRequest}
    (h : w.selected id bid = some row) : row.id = id := by
  obtain ⟨b, -, hchanged⟩ := Option.bind_eq_some_iff.mp h
  obtain ⟨old, hold, happly⟩ := Option.bind_eq_some_iff.mp hchanged
  exact (Change.apply_id happly).trans (id_of_findRequest hold)

theorem auctioned_selected {w : World} {id : String} {bid : AcopioBid} {row : CollectionRequest}
    (h : w.selected id bid = some row) : row.auctioned = true := by
  obtain ⟨b, -, hchanged⟩ := Option.bind_eq_some_iff.mp h
  obtain ⟨old, -, happly⟩ := Option.bind_eq_some_iff.mp hchanged
  cases happly
  rfl

theorem fair_call {w : World} (hsound : Sound c.world (stages c))
    (hi : pending c j = some i) (hallowed : Allowed svc s i)
    (hC : ∀ b ∈ bidding? i, InTime c.world b) (hbids : BidEffect c.world i w)
    (hselect : ∀ id bid others, i ≠ .commitSelection id bid others)
    (h : Effect c (.advance j o) w) : ∀ r ∈ w.requests, Fair w.bids r := by
  have hbefore : ∀ r ∈ c.world.requests, Fair w.bids r := fun r hr =>
    ⟨hsound.assigned r hr, fun hauctioned => hbids.settled hsound.ids hsound.keys hC
      (fun id bid others hcall => absurd hcall (hselect id bid others))
      hr hauctioned (hsound.settled r hr hauctioned)⟩
  refine h.rows hbefore (fun t ht row' happly hrow => ?_) ?_ (fun draft id now hcreates => ?_) ?_
  · obtain ⟨hwrites, hfound⟩ := mem_written ht
    obtain ⟨i', hi', hchange⟩ := writes_advance hwrites
    cases hi.symm.trans hi'
    unfold CollectionRaces.change? at hchange
    split at hchange
    · cases hchange
      refine fair_change (fun k rates hk => ?_) (fun k rates hk => ?_) happly hrow
      · have hbacked := hallowed.1
        rw [hk] at hbacked
        exact hbacked
      · rw [hk] at hC
        exact hC _ rfl _ hfound
    · exact absurd rfl (hselect _ _ _)
    · cases hchange
  · exact fun row items description now hpending hrow =>
      fair_of_row hrow rfl rfl rfl rfl (.inr rfl)
  · cases hi.symm.trans (creates_advance hcreates)
    refine fair_of_unauctioned rfl fun hstatus => ?_
    have hinitial : draft.status = CollectionLifecycleService.initialStatus draft.assignmentMode :=
      hallowed.1
    rw [show draft.status = .auctionAssigned from hstatus] at hinitial
    revert hinitial
    cases draft.assignmentMode <;> decide
  · exact fun id row batchId weights now _ _ hverify hrow =>
      fair_of_row hrow rfl rfl rfl rfl (.inl (by simp))

theorem fair_selection {id : String} {bid : AcopioBid} {others : List String}
    (hsound : Sound c.world (stages c)) (hselectable : Selectable c.world id bid others)
    (hC : InTime c.world (.select id bid others)) :
    ∀ r ∈ (c.world.commitSelection id bid others).requests,
      Fair (c.world.commitSelection id bid others).bids r := by
  have hbids : BidEffect c.world (.commitSelection id bid others)
    (c.world.commitSelection id bid others) := bidEffect_commitSelection
  have hother : ∀ r ∈ c.world.requests, (∀ row, c.world.selected id bid = some row → r.id ≠ id) →
      Fair (c.world.commitSelection id bid others).bids r := fun r hr hne =>
    ⟨hsound.assigned r hr, fun hauctioned => hbids.settled hsound.ids hsound.keys
      (fun b hb => by cases hb; exact hC)
      (fun id' bid' others' hcall => by cases hcall; exact ⟨hselectable, hne⟩)
      hr hauctioned (hsound.settled r hr hauctioned)⟩
  intro r hr
  cases hselected : c.world.selected id bid with
  | none =>
    simp only [World.commitSelection, hselected] at hr
    exact hother r hr (by simp [hselected])
  | some row =>
    have hbids : (c.world.commitSelection id bid others).bids =
        c.world.bids.map (selectAmong bid.id others) := by
      rw [World.commitSelection, hselected]
    simp only [World.commitSelection, hselected] at hr
    rcases replaced_or_other hr with heq | ⟨hmem, hne⟩
    · rw [heq, hbids]
      exact ⟨fun _ => auctioned_selected hselected,
        fun _ => settled_selected hsound.keys hselectable hC hselected⟩
    · rw [id_of_selected hselected] at hne
      exact hother r hmem fun _ _ => hne

/-! ### What a stage has read -/

theorem bid_aside (hi : ∀ bidId, i ≠ .findBidById bidId) (r : Except Failure (Reply i)) :
    (next s i r).bid = s.bid := by
  cases i <;> first
    | exact absurd rfl (hi _)
    | rfl
    | (cases r <;> rfl)
    | (rcases r with _ | _ | _ <;> rfl)

theorem others_aside (hi : ∀ id bidId, i ≠ .otherBids id bidId) (r : Except Failure (Reply i)) :
    (next s i r).others = s.others := by
  cases i <;> first
    | exact absurd rfl (hi _ _)
    | rfl
    | (cases r <;> rfl)
    | (rcases r with _ | _ | _ <;> rfl)

theorem bid_reply {w : World} {bid : AcopioBid} (h : bid ∈ (next s i (w.reply i o)).bid) :
    bid ∈ s.bid ∨ bid ∈ w.bids := by
  by_cases hi : ∀ bidId, i ≠ .findBidById bidId
  · rw [bid_aside hi] at h
    exact .inl h
  · obtain ⟨bidId, hi⟩ := not_forall.mp hi
    obtain rfl := not_not.mp hi
    cases hreply : w.reply (.findBidById bidId) o with
    | error failure => rw [hreply] at h; exact .inl h
    | ok answer =>
      rw [hreply] at h
      obtain ⟨-, hfound⟩ := PinVerification.Delivery.answer_ok hreply
      cases answer with
      | none => exact .inl h
      | some found =>
        cases h
        exact .inr (mem_of_findBidById hfound).1

theorem others_reply {w : World} {read : String × String × List String}
    (h : read ∈ (next s i (w.reply i o)).others) :
    read ∈ s.others ∨ ∀ id ∈ read.2.2, ∃ b ∈ w.bids, b.id = id ∧ b.requestId = read.1 := by
  by_cases hi : ∀ id bidId, i ≠ .otherBids id bidId
  · rw [others_aside hi] at h
    exact .inl h
  · obtain ⟨id, hi⟩ := not_forall.mp hi
    obtain ⟨bidId, hi⟩ := not_forall.mp hi
    obtain rfl := not_not.mp hi
    cases hreply : w.reply (.otherBids id bidId) o with
    | error failure => rw [hreply] at h; exact .inl h
    | ok answer =>
      rw [hreply] at h
      obtain ⟨-, rfl⟩ := PinVerification.Delivery.answer_ok hreply
      cases h
      right
      intro x hx
      obtain ⟨b, hb, rfl⟩ := List.mem_map.mp hx
      obtain ⟨hmem, hb⟩ := List.mem_filter.mp hb
      simp only [Bool.and_eq_true, beq_iff_eq] at hb
      exact ⟨b, hmem, rfl, hb.1⟩

/-! ### Every run -/

theorem stands_self {w : World} {bid : AcopioBid} (h : bid ∈ w.bids) : Stands w bid :=
  ⟨bid, h, rfl, rfl, rfl⟩

theorem Sound.tables {w w' : World} {st : ℕ → Option Stage} (h : Sound w st)
    (hids : (w'.requests.map Request.id).Nodup) (hkeys : (w'.bids.map AcopioBid.id).Nodup)
    (hfair : ∀ r ∈ w'.requests, Fair w'.bids r) (hstands : ∀ bid, Stands w bid → Stands w' bid) :
    Sound w' st where
  ids := hids
  keys := hkeys
  assigned r hr := (hfair r hr).1
  settled r hr := (hfair r hr).2
  bid j s hs bid hbid := hstands bid (h.bid j s hs bid hbid)
  others j s hs read hread id hid := by
    obtain ⟨b, hb, hb', hrequest⟩ := h.others j s hs read hread id hid
    obtain ⟨b', hmem, hid', hrequest', -⟩ := hstands b (stands_self hb)
    exact ⟨b', hmem, hid'.trans hb', hrequest'.trans hrequest⟩

theorem Sound.update {w : World} {st : ℕ → Option Stage} {t : Option Stage} (h : Sound w st)
    (ht : ∀ s, t = some s → (∀ bid ∈ s.bid, Stands w bid) ∧ ∀ read ∈ s.others, ∀ id ∈ read.2.2,
      ∃ b ∈ w.bids, b.id = id ∧ b.requestId = read.1) : Sound w (Function.update st j t) := by
  refine { h with bid := fun j' s hs => ?_, others := fun j' s hs => ?_ }
  · by_cases hj : j' = j
    · subst hj
      rw [Function.update_self] at hs
      exact (ht s hs).1
    · rw [Function.update_of_ne hj] at hs
      exact h.bid j' s hs
  · by_cases hj : j' = j
    · subst hj
      rw [Function.update_self] at hs
      exact (ht s hs).2
    · rw [Function.update_of_ne hj] at hs
      exact h.others j' s hs

theorem sound_after (hsound : Sound c.world (stages c)) (hs : stages c j = some s)
    (hi : pending c j = some i) (hallowed : Allowed svc s i) (hC : Orderly c (.advance j o)) :
    Sound (c.world.after i o) (stages c) := by
  have heffect : Effect c (.advance j o) (c.world.after i o) := effect_advance hi
  have hids := heffect.ids hsound.ids
  revert heffect hids
  unfold World.after World.update
  split
  · rename_i happlied
    intro heffect hids
    have hC : ∀ b ∈ bidding? i, InTime c.world b := by
      rw [Orderly, applied_advance happlied hi] at hC
      exact hC
    have hbids : BidEffect c.world i (c.world.effect o i) := bidEffect_effect
    refine hsound.tables hids (hbids.keys hsound.keys) ?_ fun bid => hbids.stands hsound.keys
    by_cases hselect : ∀ id bid others, i ≠ .commitSelection id bid others
    · exact fair_call hsound hi hallowed hC hbids hselect heffect
    · obtain ⟨id, hselect⟩ := not_forall.mp hselect
      obtain ⟨bid, hselect⟩ := not_forall.mp hselect
      obtain ⟨others, hselect⟩ := not_forall.mp hselect
      obtain rfl := not_not.mp hselect
      exact fair_selection hsound (selectable hsound hs hallowed) (hC _ rfl)
  · exact fun _ _ => hsound

theorem stands_after {w : World} (hkeys : (w.bids.map AcopioBid.id).Nodup) {bid : AcopioBid}
    (h : Stands w bid) : Stands (w.after i o) bid := by
  unfold World.after World.update
  split
  · exact (bidEffect_effect (o := o)).stands hkeys h
  · exact h

theorem sound_call (hsound : Sound c.world (stages c)) (hs : stages c j = some s)
    (hi : pending c j = some i) (hallowed : Allowed svc s i) (hC : Orderly c (.advance j o)) :
    Sound (c.world.after i o)
      (Function.update (stages c) j (some (next s i (c.world.reply i o)))) := by
  have hafter := sound_after hsound hs hi hallowed hC
  -- what is read is what stands before the call
  have hread : Sound c.world
      (Function.update (stages c) j (some (next s i (c.world.reply i o)))) := by
    refine hsound.update ?_
    rintro s' hs'
    cases hs'
    refine ⟨fun bid hbid => ?_, fun read hread => ?_⟩
    · exact (bid_reply hbid).elim (hsound.bid j s hs bid) stands_self
    · exact (others_reply hread).elim (hsound.others j s hs read) fun h => h
  exact hread.tables hafter.ids hafter.keys
    (fun r hr => ⟨hafter.assigned r hr, hafter.settled r hr⟩) fun _ => stands_after hsound.keys

theorem bids_outside {w w' : World} {d : Outside} (h : outside w d = some w') :
    w'.bids = w.bids := by
  cases d with
  | pass ms => cases h; rfl
  | amend around => cases h; rfl
  | complete id targetBatchId actualWeights =>
    cases h
    unfold World.completeRequest
    split
    · split <;> rfl
    · rfl

theorem sound_outside {d : Outside} {w : World} {st : ℕ → Option Stage} (hsound : Sound c.world st)
    (h : outside c.world d = some w) : Sound w st := by
  have heffect := effect_outside h
  have hbids := bids_outside h
  refine hsound.tables (heffect.ids hsound.ids) (hbids ▸ hsound.keys) ?_ fun bid hbid => ?_
  · rw [hbids]
    refine heffect.rows (fun r hr => ⟨hsound.assigned r hr, hsound.settled r hr⟩)
      (fun t ht => ?_) ?_ (fun draft id now hcreates => ?_) ?_
    · cases (mem_written ht).1
    · exact fun row items description now hpending hrow =>
        fair_of_row hrow rfl rfl rfl rfl (.inr rfl)
    · cases hcreates
    · exact fun id row batchId weights now _ _ hverify hrow =>
        fair_of_row hrow rfl rfl rfl rfl (.inl (by simp))
  · unfold Stands
    rwa [hbids]

end Calls

theorem run_sound {es : List RaceEvent} (hd : (system svc).Disciplined c)
    (hsound : Sound c.world (stages c)) (hC : Along (system svc).step Orderly c es)
    (hrun : run (system svc).step c es = some c') : Sound c'.world (stages c') := by
  refine run_stages (S := system svc) (I := Sound) (C := Orderly)
    (fun caller => follows_program svc caller) ?_ ?_ ?_ ?_ hd hsound hC hrun
  · intro w st j hsound hj
    refine hsound.update fun s hs => ?_
    cases hs
    exact ⟨fun bid hbid => (by cases hbid), fun read hread => (by cases hread)⟩
  · exact fun c j o s i hsound hs hi hallowed hC => sound_call hsound hs hi hallowed hC
  · intro c j hsound _
    exact hsound.update fun s hs => by cases hs
  · exact fun c d w hsound _ hw => sound_outside hsound hw

structure Opening (w : World) : Prop where
  ids : (w.requests.map Request.id).Nodup
  keys : (w.bids.map AcopioBid.id).Nodup
  fair : ∀ r ∈ w.requests, Fair w.bids r

/-- Along a run in which bids come in and centres claim only while their request is not assigned
from an auction, no accepted bid of such a request is withdrawn, and each selection finds the bids
as it has read them, a request in AUCTION_ASSIGNED, or assigned from an auction and not cancelled
since, has exactly one accepted bid, of its centre and at its rates, and no open one. -/
theorem auction_settled {w : World} {es : List RaceEvent} (hw : Opening w)
    (hC : Along (system svc).step Orderly (quiescent w) es)
    (hrun : run (system svc).step (quiescent w) es = some c) :
    ∀ r ∈ c.world.requests, r.status = .auctionAssigned ∨ r.auctioned = true →
      ∃ bid, c.world.bids.filter (fun b => b.requestId == r.id && b.status == .accepted) = [bid] ∧
        r.assignedCenterId = some bid.centerId ∧ r.agreedRates = some bid.proposedRates ∧
        ∀ b ∈ c.world.bids, b.requestId = r.id → b.status ≠ .pending := by
  have hsound : Sound c.world (stages c) := run_sound (disciplined svc w)
    ⟨hw.ids, hw.keys, fun r hr => (hw.fair r hr).1, fun r hr => (hw.fair r hr).2,
      fun j s hs => (by cases hs), fun j s hs => (by cases hs)⟩ hC hrun
  intro r hr hauctioned
  exact (hsound.settled r hr (hauctioned.elim (hsound.assigned r hr) id)).exactly_one hsound.keys

/-! ### One auction -/

def sampleAuction : World :=
  sampleWorld [{ sampleRow with
    status := .auctionActive, assignmentMode := .auction, assignedCenterId := none,
    agreedRates := none }] []

def bidding (j : ℕ) (centerId : String) : RaceEvent := .start j (.submitBid centerId "request" [])

def selection (j : ℕ) : List RaceEvent :=
  .start j (.selectBid "household" "request" "first bid") :: answered j 7

/-- Two centres bid and one is selected; a collector accepts the request and gives it back. -/
def soldThenAbandoned : List RaceEvent :=
  bidding 0 "center" :: answeredUnder "first bid" 0 6 ++
    bidding 1 "depot" :: answeredUnder "second bid" 1 6 ++ selection 2 ++
    acceptance 3 "first" :: answered 3 7 ++
      .start 4 (.abandonCollectionRequest "request" "first") :: answered 4 4

theorem auction_settled_abandoned : ∃ c : Race,
    (∃ r ∈ c.world.requests, r.status = .pending ∧ r.auctioned = true) ∧
    ∀ r ∈ c.world.requests, r.status = .auctionAssigned ∨ r.auctioned = true →
      ∃ bid, c.world.bids.filter (fun b => b.requestId == r.id && b.status == .accepted) = [bid] ∧
        r.assignedCenterId = some bid.centerId ∧ r.agreedRates = some bid.proposedRates ∧
        ∀ b ∈ c.world.bids, b.requestId = r.id → b.status ≠ .pending := by
  have hrun : (run (system sampleService).step (quiescent sampleAuction) soldThenAbandoned).any
      (fun c => c.world.requests.any fun r => r.status == .pending && r.auctioned) = true := by
    decide +kernel
  obtain ⟨c, hc, hreleased⟩ := (Option.any_eq_true _ _).mp hrun
  have hopening : Opening sampleAuction := by
    refine ⟨by decide, by decide, fun r hr => ?_⟩
    obtain rfl := List.mem_singleton.mp hr
    exact fair_of_unauctioned rfl (by decide)
  exact ⟨c, by simpa using hreleased, auction_settled hopening (by decide +kernel) hc⟩

/-- The centre that wins is about to bid once more when its bid is selected. -/
def soldWhileBidding : List RaceEvent :=
  bidding 0 "center" :: answeredUnder "first bid" 0 6 ++ bidding 1 "center" :: answered 1 3 ++
    selection 2 ++ answered 1 1

/-- A request in AUCTION_ASSIGNED without an accepted bid; and one that was given back, with an open
bid beside the one that won. -/
theorem auction_unsettled :
    (∃ c, run (system sampleService).step (quiescent sampleAuction) soldWhileBidding = some c ∧
      ∃ r ∈ c.world.requests, r.status = .auctionAssigned ∧
        ∀ b ∈ c.world.bids, b.status ≠ .accepted) ∧
    ∃ c, run (system sampleService).step (quiescent sampleAuction)
        (soldThenAbandoned ++ bidding 5 "stall" :: answeredUnder "third bid" 5 6) = some c ∧
      ∃ r ∈ c.world.requests, r.auctioned = true ∧
        ∃ b ∈ c.world.bids, b.requestId = r.id ∧ b.status = .pending := by
  constructor
  · have hrun : (run (system sampleService).step (quiescent sampleAuction) soldWhileBidding).any
        (fun c => decide (∃ r ∈ c.world.requests, r.status = .auctionAssigned ∧
          ∀ b ∈ c.world.bids, b.status ≠ .accepted)) = true := by decide +kernel
    obtain ⟨c, hc, h⟩ := (Option.any_eq_true _ _).mp hrun
    exact ⟨c, hc, of_decide_eq_true h⟩
  · have hrun : (run (system sampleService).step (quiescent sampleAuction)
        (soldThenAbandoned ++ bidding 5 "stall" :: answeredUnder "third bid" 5 6)).any
        (fun c => decide (∃ r ∈ c.world.requests, r.auctioned = true ∧
          ∃ b ∈ c.world.bids, b.requestId = r.id ∧ b.status = .pending)) = true := by
      decide +kernel
    obtain ⟨c, hc, h⟩ := (Option.any_eq_true _ _).mp hrun
    exact ⟨c, hc, of_decide_eq_true h⟩

end Livora.AuctionBids
