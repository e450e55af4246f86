import Livora.CollectionStages
import Livora.ProgramPools

/-! Calls about collections against one database, in any order of their steps. What a
step does to the table of requests is said once; from it follow the transitions of a
request, the exclusiveness of an acceptance, where collateral may be locked and the
one active request of a household, each along every run whose writes still meet the
check that was made for them. -/

namespace Livora.CollectionRaces

open TransitionRuns EffectPrograms ProgramPools ProgramPools.System CollectionBooks
open CollectionServices CollectionStages
open RewardStrategies (NumberRecord)
open PinVerification (RequestStatus Delivery completionDefined)
open PinVerification.CollectionStateMachine (canVerifyPin)
open CollectionServices.CollectionLifecycleService (Takeable Unaccepted)
open CollectionServices.CollectionAuctionService (Biddable)

/-! ### The system -/

inductive Outside where
  | pass (ms : ℕ)
  | amend (around : Surroundings)
  /-- A verification of the PIN comes to its UPDATE. -/
  | complete (id : String) (targetBatchId : Option String) (actualWeights : NumberRecord)

def outside (w : World) : Outside → Option World
  | .pass ms => some { w with now := w.now + ms }
  | .amend around => some { w with around := around }
  | .complete id targetBatchId actualWeights =>
    some (w.completeRequest id targetBatchId actualWeights)

def system (svc : Service) : System Caller World Outcome Outside Stage Op
    (fun i => Except Failure (Reply i)) (Except Failure Result) where
  program caller := (program svc caller).run
  serve := World.serve
  outside := outside
  protocol := protocol svc
  first := .first

abbrev Race :=
  Pool World (Task Stage Op (fun i => Except Failure (Reply i)) (Except Failure Result))

abbrev RaceEvent := Event Caller Outcome Outside

def quiescent (w : World) : Race := ⟨w, fun _ => none⟩

theorem disciplined (svc : Service) (w : World) : (system svc).Disciplined (quiescent w) := by
  intro j t h
  cases h

/-! ### The table of requests -/

section Table

variable {w : World} {row r : CollectionRequest} {id x : String}

theorem id_of_findRequest (h : w.findRequest id = some row) : row.id = id := by
  simpa using List.find?_some h

theorem mem_of_findRequest (h : w.findRequest id = some row) : row ∈ w.requests :=
  List.mem_of_find?_eq_some h

theorem replaced_or_other (h : r ∈ (w.setRequest row).requests) :
    r = row ∨ r ∈ w.requests ∧ r.id ≠ row.id := by
  obtain ⟨old, hold, rfl⟩ := List.mem_map.mp h
  by_cases hid : old.id = row.id
  · exact .inl (if_pos hid)
  · rw [if_neg hid]
    exact .inr ⟨hold, hid⟩

theorem mem_setRequest (h : r ∈ (w.setRequest row).requests) : r = row ∨ r ∈ w.requests :=
  (replaced_or_other h).imp_right And.left

theorem ids_setRequest :
    (w.setRequest row).requests.map Request.id = w.requests.map Request.id := by
  rw [World.setRequest, List.map_map]
  refine List.map_congr_left fun r _ => ?_
  change (if r.id = row.id then row else r).id = r.id
  split
  · exact (‹r.id = row.id›).symm
  · rfl

theorem not_mem_ids (h : w.findRequest id = none) : id ∉ w.requests.map Request.id := by
  intro hid
  obtain ⟨r, hr, rfl⟩ := List.mem_map.mp hid
  simpa using List.find?_eq_none.mp h r hr

theorem findRequest_of_mem (hids : (w.requests.map Request.id).Nodup) (h : row ∈ w.requests) :
    w.findRequest row.id = some row := by
  cases hfind : w.findRequest row.id with
  | none =>
    have hne := List.find?_eq_none.mp hfind row h
    simp at hne
  | some r =>
    exact congrArg some (List.inj_on_of_nodup_map hids (mem_of_findRequest hfind) h
      (id_of_findRequest hfind))

theorem findRequest_setRequest_self (h : w.findRequest row.id = some r) :
    (w.setRequest row).findRequest row.id = some row := by
  obtain ⟨as, bs, hsplit, hbefore⟩ := (List.find?_eq_some_iff_append.mp h).2
  have hid := id_of_findRequest h
  refine List.find?_eq_some_iff_append.mpr ⟨by simp, ?_⟩
  refine ⟨as.map fun r => if r.id = row.id then row else r,
    bs.map fun r => if r.id = row.id then row else r, ?_, ?_⟩
  · rw [World.setRequest, hsplit]
    simp [hid]
  · intro a ha
    obtain ⟨old, hold, rfl⟩ := List.mem_map.mp ha
    have hne := hbefore old hold
    split
    · simp_all
    · exact hne

theorem findRequest_setRequest_of_ne (hx : x ≠ row.id) :
    (w.setRequest row).findRequest x = w.findRequest x := by
  unfold World.findRequest World.setRequest
  rw [List.find?_map]
  have hpred : ((fun r : CollectionRequest => r.id == x) ∘
      fun r => if r.id = row.id then row else r) = fun r => r.id == x := by
    funext r
    by_cases hr : r.id = row.id
    · simp [hr]
    · simp [hr]
  rw [hpred]
  cases hfind : w.requests.find? fun r => r.id == x with
  | none => rfl
  | some old =>
    have hold : old.id = x := by simpa using List.find?_some hfind
    simp [hold, hx]

theorem findRequest_set {id : String} {row row' : CollectionRequest}
    (hfound : w.findRequest id = some row) (hid : row'.id = row.id) :
    (w.setRequest row').findRequest x = if x = id then some row' else w.findRequest x := by
  have hrow : row'.id = id := hid.trans (id_of_findRequest hfound)
  split
  · rename_i hx
    rw [hx, ← hrow]
    rw [← hrow] at hfound
    exact findRequest_setRequest_self hfound
  · rename_i hx
    exact findRequest_setRequest_of_ne (by rw [hrow]; exact hx)

theorem findRequest_inserted {w' : World} (hfresh : w.findRequest row.id = none)
    (h : w'.requests = w.requests ++ [row]) :
    w'.findRequest x = if x = row.id then some row else w.findRequest x := by
  unfold World.findRequest at hfresh ⊢
  rw [h, List.find?_append]
  by_cases hx : x = row.id
  · subst hx
    simp [hfresh]
  · simp [hx, Ne.symm hx]

end Table

/-! ### What a step does to the requests -/

def change? : Op → Option (String × Change)
  | .writeRequest id change => some (id, change)
  | .commitSelection id bid _ => some (id, .selectBid bid.centerId bid.proposedRates)
  | _ => none

def writes (c : Race) : RaceEvent → Option (String × Change)
  | .advance j o => if o.delivery.applied then (pending c j).bind change? else none
  | _ => none

structure Write where
  id : String
  change : Change
  row : CollectionRequest

def written (c : Race) (e : RaceEvent) : Option Write := do
  let (id, change) ← writes c e
  let row ← c.world.findRequest id
  some ⟨id, change, row⟩

theorem written_eq {c : Race} {e : RaceEvent} {id : String} {change : Change}
    {row : CollectionRequest} (hwrites : writes c e = some (id, change))
    (hfound : c.world.findRequest id = some row) : written c e = some ⟨id, change, row⟩ := by
  simp [written, hwrites, hfound]

theorem mem_written {c : Race} {e : RaceEvent} {t : Write} (h : t ∈ written c e) :
    writes c e = some (t.id, t.change) ∧ c.world.findRequest t.id = some t.row := by
  obtain ⟨⟨id, change⟩, hwrites, h⟩ := Option.bind_eq_some_iff.mp h
  obtain ⟨row, hfound, h⟩ := Option.bind_eq_some_iff.mp h
  cases h
  exact ⟨hwrites, hfound⟩

theorem writes_advance {c : Race} {j : ℕ} {o : Outcome} {x : String × Change}
    (h : writes c (.advance j o) = some x) : ∃ i, pending c j = some i ∧ change? i = some x := by
  simp only [writes] at h
  split at h
  · exact Option.bind_eq_some_iff.mp h
  · cases h

def completes : RaceEvent → Option String
  | .outside (.complete id _ _) => some id
  | _ => none

def creates (c : Race) : RaceEvent → Option Draft
  | .advance j o => match o.delivery.applied, pending c j with
    | true, some (.createRequest draft) => some draft
    | _, _ => none
  | _ => none

theorem creates_advance {c : Race} {j : ℕ} {o : Outcome} {draft : Draft}
    (h : creates c (.advance j o) = some draft) : pending c j = some (.createRequest draft) := by
  simp only [creates] at h
  split at h
  · cases h
    assumption
  · cases h

inductive Effect (c : Race) (e : RaceEvent) (w : World) : Prop where
  | same (h : w.requests = c.world.requests)
  | change (id : String) (change : Change) (row row' : CollectionRequest)
      (hwrites : writes c e = some (id, change)) (hfound : c.world.findRequest id = some row)
      (happly : change.apply c.world.now row = some row')
      (h : w.requests = (c.world.setRequest row').requests)
  | edit (id : String) (row : CollectionRequest) (itemsEstimated : NumberRecord)
      (description : Option String) (hfound : c.world.findRequest id = some row)
      (hpending : row.status = .pending)
      (h : w.requests = (c.world.setRequest { row with
        itemsEstimated := itemsEstimated, description := description,
        updatedAt := c.world.now }).requests)
  | create (id : String) (draft : Draft) (hcreates : creates c e = some draft)
      (hfresh : c.world.findRequest id = none)
      (h : w.requests = c.world.requests ++ [draft.row id c.world.now])
  | complete (id : String) (row : CollectionRequest) (targetBatchId : Option String)
      (actualWeights : NumberRecord) (hcompletes : completes e = some id)
      (hfound : c.world.findRequest id = some row) (hverify : canVerifyPin row.status = true)
      (h : w.requests = (c.world.setRequest { row with
        status := .completed, actualWeights := some actualWeights, batchId := targetBatchId,
        updatedAt := c.world.now }).requests)

variable {svc : Service} {c c' : Race} {e : RaceEvent} {j : ℕ} {o : Outcome} {i : Op}

theorem effect_changed {w w' : World} {id : String} {ch : Change} (hw : w = c.world)
    (hwrites : writes c e = some (id, ch)) (h : ∀ row, w.changed id ch = some row →
      w'.requests = (w.setRequest row).requests)
    (hnone : w.changed id ch = none → w'.requests = w.requests) : Effect c e w' := by
  subst hw
  cases hchanged : c.world.changed id ch with
  | none => exact .same (hnone hchanged)
  | some row' =>
    obtain ⟨row, hfound, happly⟩ := Option.bind_eq_some_iff.mp hchanged
    exact .change id ch row row' hwrites hfound happly (h row' hchanged)

theorem effect_writeRequest {id : String} {ch : Change}
    (hwrites : writes c e = some (id, ch)) : Effect c e (c.world.writeRequest id ch) := by
  refine effect_changed rfl hwrites (fun row h => ?_) fun h => ?_
  · rw [World.writeRequest, h]
  · rw [World.writeRequest, h]

theorem effect_commitSelection {id : String} {bid : AcopioBid} {others : List String}
    (hwrites : writes c e = some (id, .selectBid bid.centerId bid.proposedRates)) :
    Effect c e (c.world.commitSelection id bid others) := by
  unfold World.commitSelection
  cases hselected : c.world.selected id bid with
  | none => exact .same rfl
  | some row' =>
    obtain ⟨bid', -, hchanged⟩ := Option.bind_eq_some_iff.mp hselected
    obtain ⟨row, hfound, happly⟩ := Option.bind_eq_some_iff.mp hchanged
    exact .change id _ row row' hwrites hfound happly rfl

theorem effect_editRequest {id householdId : String} {itemsEstimated : NumberRecord}
    {description : Option String} :
    Effect c e (c.world.editRequest id householdId itemsEstimated description) := by
  unfold World.editRequest
  cases heditable : c.world.editable id householdId with
  | none => exact .same rfl
  | some row =>
    obtain ⟨hfound, hguard⟩ := Option.filter_eq_some_iff.mp heditable
    simp only [Bool.and_eq_true, beq_iff_eq] at hguard
    exact .edit id row itemsEstimated description hfound hguard.1 rfl

theorem effect_createRequest {id : String} {draft : Draft}
    (hcreates : creates c e = some draft) : Effect c e (c.world.createRequest id draft) := by
  unfold World.createRequest
  split
  · exact .same rfl
  · rename_i hfresh
    exact .create id draft hcreates (by simpa using hfresh) rfl

theorem effect_completeRequest {id : String} (targetBatchId : Option String)
    (actualWeights : NumberRecord) (hcompletes : completes e = some id) :
    Effect c e (c.world.completeRequest id targetBatchId actualWeights) := by
  unfold World.completeRequest
  split
  · cases hfilter : (c.world.findRequest id).filter fun row => canVerifyPin row.status with
    | none => exact .same rfl
    | some row =>
      obtain ⟨hfound, hverify⟩ := Option.filter_eq_some_iff.mp hfilter
      exact .complete id row targetBatchId actualWeights hcompletes hfound hverify rfl
  · exact .same rfl

theorem requests_updateBid {w : World} {bidId : String} {offer : Offer} :
    (w.updateBid bidId offer).requests = w.requests := by
  unfold World.updateBid
  split <;> rfl

theorem requests_createBid {w : World} {id requestId centerId : String} {offer : Offer} :
    (w.createBid id requestId centerId offer).requests = w.requests := by
  unfold World.createBid
  split <;> rfl

theorem requests_withdrawBid {w : World} {bidId : String} :
    (w.withdrawBid bidId).requests = w.requests := by
  unfold World.withdrawBid
  split <;> rfl

theorem effect_advance (hpending : pending c j = some i) :
    Effect c (.advance j o) (c.world.after i o) := by
  unfold World.after World.update
  split
  · rename_i happlied
    have hwrites : writes c (.advance j o) = change? i := by
      simp [writes, happlied, hpending]
    cases i with
    | writeRequest id change => exact effect_writeRequest hwrites
    | commitSelection id bid others => exact effect_commitSelection hwrites
    | editRequest id householdId items description => exact effect_editRequest
    | createRequest draft =>
      exact effect_createRequest (by simp [creates, happlied, hpending])
    | updateBid bidId offer => exact .same requests_updateBid
    | createBid requestId centerId offer => exact .same requests_createBid
    | withdrawBid bidId => exact .same requests_withdrawBid
    | purgeRoute id key => cases key <;> exact .same rfl
    | _ => exact .same rfl
  · exact .same rfl

theorem effect_outside {d : Outside} {w : World} (h : outside c.world d = some w) :
    Effect c (.outside d) w := by
  cases d with
  | pass ms => cases h; exact .same rfl
  | amend around => cases h; exact .same rfl
  | complete id targetBatchId actualWeights =>
    cases h
    exact effect_completeRequest targetBatchId actualWeights rfl

theorem step_effect (h : (system svc).step c e = some c') : Effect c e c'.world := by
  cases e with
  | start j a =>
    obtain ⟨-, rfl⟩ := step_start.mp h
    exact .same rfl
  | advance j o =>
    obtain ⟨s, i, k, ht, rfl⟩ := step_advance.mp h
    exact effect_advance (pending_eq ht)
  | stop j =>
    obtain ⟨-, rfl⟩ := step_stop.mp h
    exact .same rfl
  | outside d =>
    obtain ⟨w, hw, rfl⟩ := step_outside.mp h
    exact effect_outside hw

inductive RowEffect (c : Race) (e : RaceEvent) (x : String) (w : World) : Prop where
  | same (h : w.findRequest x = c.world.findRequest x)
  | change (change : Change) (row row' : CollectionRequest)
      (hwrites : writes c e = some (x, change)) (hfound : c.world.findRequest x = some row)
      (happly : change.apply c.world.now row = some row') (h : w.findRequest x = some row')
  | edit (row : CollectionRequest) (itemsEstimated : NumberRecord) (description : Option String)
      (hfound : c.world.findRequest x = some row) (hpending : row.status = .pending)
      (h : w.findRequest x = some { row with
        itemsEstimated := itemsEstimated, description := description, updatedAt := c.world.now })
  | create (draft : Draft) (hcreates : creates c e = some draft)
      (hfresh : c.world.findRequest x = none)
      (h : w.findRequest x = some (draft.row x c.world.now))
  | complete (row : CollectionRequest) (targetBatchId : Option String)
      (actualWeights : NumberRecord) (hcompletes : completes e = some x)
      (hfound : c.world.findRequest x = some row) (hverify : canVerifyPin row.status = true)
      (h : w.findRequest x = some { row with
        status := .completed, actualWeights := some actualWeights, batchId := targetBatchId,
        updatedAt := c.world.now })

theorem findRequest_congr {w w' : World} (h : w.requests = w'.requests) (x : String) :
    w.findRequest x = w'.findRequest x := by
  unfold World.findRequest
  rw [h]

theorem findRequest_replaced {w w' : World} {row row' : CollectionRequest} {id x : String}
    (hfound : w.findRequest id = some row) (h : w'.requests = (w.setRequest row').requests)
    (hid : row'.id = row.id) :
    (x = id ∧ w'.findRequest x = some row') ∨ w'.findRequest x = w.findRequest x := by
  have hrow := id_of_findRequest hfound
  rw [findRequest_congr h x]
  by_cases hx : x = id
  · subst hx
    have hset := @findRequest_setRequest_self _ row' _ (by rwa [hid, hrow])
    rw [hid, hrow] at hset
    exact .inl ⟨rfl, hset⟩
  · exact .inr (findRequest_setRequest_of_ne (by rwa [hid, hrow]))

theorem Effect.row {w : World} (h : Effect c e w) (x : String) : RowEffect c e x w := by
  cases h with
  | same h => exact .same (findRequest_congr h x)
  | change id ch row row' hwrites hfound happly h =>
    rcases findRequest_replaced (x := x) hfound h (Change.apply_id happly) with ⟨rfl, h⟩ | h
    · exact .change ch row row' hwrites hfound happly h
    · exact .same h
  | edit id row items description hfound hpending h =>
    rcases findRequest_replaced (x := x) hfound h rfl with ⟨rfl, h⟩ | h
    · exact .edit row items description hfound hpending h
    · exact .same h
  | create id draft hcreates hfresh h =>
    have hinserted := @findRequest_inserted _ (draft.row id c.world.now) x _ hfresh h
    by_cases hx : x = id
    · subst hx
      exact .create draft hcreates hfresh (hinserted.trans (if_pos rfl))
    · exact .same (hinserted.trans (if_neg hx))
  | complete id row batchId weights hcompletes hfound hverify h =>
    rcases findRequest_replaced (x := x) hfound h rfl with ⟨rfl, h⟩ | h
    · exact .complete row batchId weights hcompletes hfound hverify h
    · exact .same h

theorem step_row (h : (system svc).step c e = some c') (x : String) :
    RowEffect c e x c'.world :=
  (step_effect h).row x

theorem found_of_answered {id : String} {ch : Change} {updated : CollectionRequest}
    (h : (system svc).step c (.advance j o) = some c')
    (hpending : pending c j = some (.writeRequest id ch))
    (hreply : c.world.reply (.writeRequest id ch) o = .ok updated) :
    ∃ row, ch.apply c.world.now row = some updated ∧ c'.world.findRequest id = some updated := by
  obtain ⟨hdone, hchanged⟩ := deliverSome_ok hreply
  obtain ⟨row, hfound, happly⟩ := Option.bind_eq_some_iff.mp hchanged
  refine ⟨row, happly, ?_⟩
  obtain ⟨s, i, f, ht, rfl⟩ := step_advance.mp h
  cases hpending.symm.trans (pending_eq ht)
  have hafter : c.world.after (.writeRequest id ch) o = c.world.setRequest updated := by
    simp only [World.after, World.update, hdone, Delivery.applied, if_true]
    change c.world.writeRequest id ch = _
    rw [World.writeRequest, hchanged]
  have hid := id_of_findRequest hfound
  change (c.world.after (.writeRequest id ch) o).findRequest id = _
  rw [hafter, ← hid, ← Change.apply_id happly]
  exact findRequest_setRequest_self (by rw [Change.apply_id happly, hid]; exact hfound)

theorem Effect.rows {w : World} {P : CollectionRequest → Prop} (h : Effect c e w)
    (hP : ∀ r ∈ c.world.requests, P r)
    (hchange : ∀ t ∈ written c e, ∀ row', t.change.apply c.world.now t.row = some row' →
      P t.row → P row')
    (hedit : ∀ row itemsEstimated description now, row.status = .pending → P row → P { row with
      itemsEstimated := itemsEstimated, description := description, updatedAt := now })
    (hcreate : ∀ draft id now, creates c e = some draft → P (draft.row id now))
    (hcomplete : ∀ id row targetBatchId actualWeights now, completes e = some id →
      c.world.findRequest id = some row → canVerifyPin row.status = true → P row → P { row with
        status := .completed, actualWeights := some actualWeights, batchId := targetBatchId,
        updatedAt := now }) :
    ∀ r ∈ w.requests, P r := by
  intro r hr
  cases h with
  | same h => rw [h] at hr; exact hP r hr
  | change id ch row row' hwrites hfound happly h =>
    rw [h] at hr
    rcases mem_setRequest hr with rfl | hr
    · exact hchange _ (written_eq hwrites hfound) _ happly (hP row (mem_of_findRequest hfound))
    · exact hP r hr
  | edit id row items description hfound hpending h =>
    rw [h] at hr
    rcases mem_setRequest hr with rfl | hr
    · exact hedit row items description _ hpending (hP row (mem_of_findRequest hfound))
    · exact hP r hr
  | create id draft hcreates hfresh h =>
    rw [h] at hr
    rcases List.mem_append.mp hr with hr | hr
    · exact hP r hr
    · obtain rfl := List.mem_singleton.mp hr
      exact hcreate draft id _ hcreates
  | complete id row batchId weights hcompletes hfound hverify h =>
    rw [h] at hr
    rcases mem_setRequest hr with rfl | hr
    · exact hcomplete id row batchId weights _ hcompletes hfound hverify
        (hP row (mem_of_findRequest hfound))
    · exact hP r hr

theorem Effect.ids {w : World} (h : Effect c e w) (hids : (c.world.requests.map Request.id).Nodup) :
    (w.requests.map Request.id).Nodup := by
  cases h with
  | same h => rwa [h]
  | change id ch row row' hwrites hfound happly h => rwa [h, ids_setRequest]
  | edit id row items description hfound hpending h => rwa [h, ids_setRequest]
  | create id draft hcreates hfresh h =>
    rw [h, List.map_append]
    refine List.nodup_append.mpr ⟨hids, List.nodup_singleton _, ?_⟩
    intro x hx y hy hxy
    obtain rfl := List.mem_singleton.mp hy
    exact not_mem_ids hfresh (hxy ▸ hx)
  | complete id row batchId weights hcompletes hfound hverify h => rwa [h, ids_setRequest]

theorem step_ids (h : (system svc).step c e = some c')
    (hids : (c.world.requests.map Request.id).Nodup) :
    (c'.world.requests.map Request.id).Nodup :=
  (step_effect h).ids hids

/-! ### The transitions of a request -/

def statusOf (w : World) (id : String) : Option RequestStatus :=
  (w.findRequest id).map Request.status

/-- The transitions that the services make beside those of the table: a bid is selected on a request
that is not in auction, an auction ends without a winner, and nobody opens the door. -/
def Designed (s t : RequestStatus) : Prop :=
  (s, t) ∈ [(RequestStatus.pending, RequestStatus.auctionAssigned), (.auctionActive, .pending),
    (.arrived, .unattended)]

instance (s t : RequestStatus) : Decidable (Designed s t) :=
  inferInstanceAs (Decidable (_ ∈ _))

/-- The transition is one of the table, or designed so. -/
def Moves (s t : RequestStatus) : Prop :=
  CollectionStateMachine.validateTransition s t = .ok () ∨ Designed s t

/-- The request still is one that the operation may write, for the changes that `p` names. -/
def Timely (svc : Service) (p : Change → Bool) (c : Race) (e : RaceEvent) : Prop :=
  ∀ t ∈ written c e, p t.change = true → Guard svc t.change t.row

instance (svc : Service) (p : Change → Bool) (c : Race) (e : RaceEvent) :
    Decidable (Timely svc p c e) :=
  inferInstanceAs (Decidable (∀ t ∈ written c e, _))

def changesStatus : Change → Bool
  | .claimAutomatic _ _ => false
  | _ => true

/-- Where a collector cancels, the table lets him. -/
def Cancellable : Change → CollectionRequest → Prop
  | .cancelByCollector _, row =>
    RequestStatus.cancelled ∈ CollectionStateMachine.allowedTransitions row.status
  | _, _ => True

instance : (change : Change) → (row : CollectionRequest) → Decidable (Cancellable change row)
  | .cancelByCollector _, _ => inferInstanceAs (Decidable (_ ∈ _))
  | .accept _ _, _ | .cancelByHousehold _, _ | .abandon _, _ | .reportNoShow _, _
  | .rejectOnSite _ _, _ | .startRoute _ _, _ | .reachDestination _ _, _ | .claimAutomatic _ _, _
  | .selectBid _ _, _ | .revertAuction, _ | .pendingTimeout, _ | .acceptedInactivity, _
  | .arrivedNoShow, _ => .isTrue trivial

/-- Every change of a status is written to a request that still is one it may be written to. -/
def InOrder (svc : Service) (c : Race) (e : RaceEvent) : Prop :=
  Timely svc changesStatus c e ∧ ∀ t ∈ written c e, Cancellable t.change t.row

instance (svc : Service) (c : Race) (e : RaceEvent) : Decidable (InOrder svc c e) :=
  inferInstanceAs (Decidable (_ ∧ ∀ t ∈ written c e, _))

theorem moves_of_guard {change : Change} {row row' : CollectionRequest} {now : ℕ}
    (hguard : changesStatus change = true → Guard svc change row)
    (hcancel : Cancellable change row) (happly : change.apply now row = some row') :
    Moves row.status row'.status := by
  have table {s t : RequestStatus} (h : t ∈ CollectionStateMachine.allowedTransitions s) :
      Moves s t := .inl (CollectionStateMachine.validateTransition_ok.mpr (.inr h))
  have designed {s t : RequestStatus} (h : Designed s t) : Moves s t := .inr h
  cases change with
  | accept collectorId escrow =>
    obtain ⟨escrowLocked, -, rfl⟩ := Option.map_eq_some_iff.mp happly
    rcases (hguard rfl).1 with h | h <;> rw [h] <;> exact table (t := .accepted) (by decide)
  | cancelByCollector userId => cases happly; exact table hcancel
  | cancelByHousehold userId =>
    cases happly
    rcases (hguard rfl).2 with h | h | h <;> rw [h] <;> exact table (t := .cancelled) (by decide)
  | abandon userId => cases happly; rw [(hguard rfl).2]; exact table (t := .pending) (by decide)
  | reportNoShow userId =>
    cases happly
    rw [(hguard rfl).2]
    exact designed (t := .unattended) (by decide)
  | rejectOnSite userId reason =>
    cases happly
    rw [(hguard rfl).2]
    exact table (t := .rejectedOnSite) (by decide)
  | startRoute userId now =>
    cases happly; rw [(hguard rfl).2]; exact table (t := .enRoute) (by decide)
  | reachDestination userId now =>
    cases happly
    rw [(hguard rfl).2]
    exact table (t := .arrived) (by decide)
  | claimAutomatic centerId rates =>
    cases happly
    exact .inl (CollectionStateMachine.validateTransition_ok.mpr (.inl rfl))
  | selectBid centerId rates =>
    cases happly
    rcases hguard rfl with h | h <;> rw [h]
    · exact designed (t := .auctionAssigned) (by decide)
    · exact table (t := .auctionAssigned) (by decide)
  | revertAuction => cases happly; rw [hguard rfl]; exact designed (t := .pending) (by decide)
  | pendingTimeout => cases happly; rw [hguard rfl]; exact table (t := .cancelled) (by decide)
  | acceptedInactivity => cases happly; rw [hguard rfl]; exact table (t := .pending) (by decide)
  | arrivedNoShow => cases happly; rw [hguard rfl]; exact designed (t := .unattended) (by decide)

theorem moves_refl (s : RequestStatus) : Moves s s :=
  .inl (CollectionStateMachine.validateTransition_ok.mpr (.inl rfl))

theorem step_moves (hC : InOrder svc c e) (h : (system svc).step c e = some c') {id : String}
    {s : RequestStatus} (hs : statusOf c.world id = some s) :
    ∃ t, statusOf c'.world id = some t ∧ Moves s t := by
  obtain ⟨row, hrow, rfl⟩ := Option.map_eq_some_iff.mp hs
  cases step_row h id with
  | same h => exact ⟨row.status, by rw [statusOf, h, hrow]; rfl, moves_refl _⟩
  | change ch old row' hwrites hfound happly h =>
    cases hrow.symm.trans hfound
    have ht := written_eq hwrites hfound
    exact ⟨row'.status, by rw [statusOf, h]; rfl,
      moves_of_guard (hC.1 _ ht) (hC.2 _ ht) happly⟩
  | edit old items description hfound hpending h =>
    cases hrow.symm.trans hfound
    exact ⟨row.status, by rw [statusOf, h]; rfl, moves_refl _⟩
  | create draft hcreates hfresh h => rw [hfresh] at hrow; cases hrow
  | complete old batchId weights hcompletes hfound hverify h =>
    cases hrow.symm.trans hfound
    refine ⟨.completed, by rw [statusOf, h]; rfl, .inl ?_⟩
    rw [CollectionStateMachine.validateTransition_ok]
    revert hverify
    cases row.status <;> decide

theorem terminal_moves {s t : RequestStatus} (hs : CollectionStateMachine.isTerminal s = true)
    (h : Moves s t) : t = s := by
  rcases h with h | h
  · rw [CollectionStateMachine.validateTransition_ok] at h
    revert h hs
    cases s <;> cases t <;> decide
  · revert h hs
    cases s <;> cases t <;> decide

/-- Along a run whose writes are in order every change of a status is one of the table or designed
so, and a request that is over stays as it is. -/
theorem transitions_allowed (svc : Service) (w : World) (es : List RaceEvent)
    (hC : Along (system svc).step (InOrder svc) (quiescent w) es) :
    Along (system svc).step (fun c e => ∀ c' id s t, (system svc).step c e = some c' →
      statusOf c.world id = some s → statusOf c'.world id = some t → Moves s t ∧
        (CollectionStateMachine.isTerminal s = true → t = s)) (quiescent w) es := by
  refine along_mono (fun c e hC c' id s t hstep hs ht => ?_) hC
  obtain ⟨t', ht', hmoves⟩ := step_moves hC hstep hs
  cases ht.symm.trans ht'
  exact ⟨hmoves, fun hterminal => terminal_moves hterminal hmoves⟩

/-! ### One request and two collectors -/

def sampleService : Service where
  toService := PinVerification.sampleService
  ipfs := false

def sampleRow : CollectionRequest where
  id := "request"
  status := .pending
  assignmentMode := .automatic
  itemsEstimated := (DoubleRounding.Double.ofRat? 10).toList.map fun weight => ("PET", weight)
  description := none
  verificationPin := "4829"
  householdId := "household"
  collectorId := none
  assignedCenterId := some "center"
  agreedRates := some []
  escrowLocked := 0
  batchId := none
  actualWeights := none
  enRouteAt := none
  arrivedAt := none
  noShowFeePen := none
  rejectionReason := none
  auctionExpiresAt := none
  isDonation := false
  createdAt := 0
  updatedAt := 0
  auctioned := false

/-- The collectors have paid in a thousand tokens each; it is an hour later. -/
def sampleWorld (requests : List CollectionRequest) (bids : List AcopioBid) : World where
  requests := requests
  bids := bids
  around := {
    users := [⟨"household", .approved, none, 5⟩, ⟨"first", .approved, none, 5⟩,
      ⟨"second", .approved, none, 5⟩]
    prices := fun _ => (DoubleRounding.Double.ofRat? 2).toList.map fun price => ("PET", price)
    payments := fun _ => [1000]
    vaults := fun _ => none
    transports := fun _ => none
    pins := fun _ => none
    routes := fun _ => none }
  compensations := []
  now := minutes 60

/-- The next `n` calls of a program are answered, and what they insert is given the id. -/
def answeredUnder (id : String) (j n : ℕ) : List RaceEvent :=
  List.replicate n (.advance j ⟨.done, 0, none, id⟩)

def answered (j n : ℕ) : List RaceEvent := answeredUnder "id" j n

def acceptance (j : ℕ) (userId : String) : RaceEvent :=
  .start j (.updateStatus "request" userId .recolector .accepted)

def acceptedThenStarted : List RaceEvent :=
  acceptance 0 "first" :: answered 0 7 ++ .start 1 (.startRoute "request" "first") :: answered 1 6

theorem transitions_allowed_started :
    Along (system sampleService).step (fun c e => ∀ c' id s t,
      (system sampleService).step c e = some c' → statusOf c.world id = some s →
        statusOf c'.world id = some t → Moves s t ∧
          (CollectionStateMachine.isTerminal s = true → t = s))
      (quiescent (sampleWorld [sampleRow] [])) acceptedThenStarted :=
  transitions_allowed sampleService (sampleWorld [sampleRow] []) acceptedThenStarted
    (by decide +kernel)

/-- An auction that is over becomes a request like any other, and a collector cancels a request that
was completed. -/
theorem transitions_outside_table :
    (∃ c, run (system sampleService).step
        (quiescent (sampleWorld [{ sampleRow with
          status := .auctionActive, auctionExpiresAt := some 0 }] []))
        (.start 0 .lifecycleFallbacks :: answered 0 3) = some c ∧
      statusOf c.world "request" = some .pending ∧
      RequestStatus.pending ∉ CollectionStateMachine.allowedTransitions .auctionActive) ∧
    ∃ c, run (system sampleService).step
        (quiescent (sampleWorld [{ sampleRow with
          status := .completed, collectorId := some "first" }] []))
        (.start 0 (.updateStatus "request" "first" .recolector .cancelled) :: answered 0 2) =
          some c ∧
      statusOf c.world "request" = some .cancelled ∧
      CollectionStateMachine.isTerminal .completed = true := by
  constructor
  · have hrun : (run (system sampleService).step
        (quiescent (sampleWorld [{ sampleRow with
          status := .auctionActive, auctionExpiresAt := some 0 }] []))
        (.start 0 .lifecycleFallbacks :: answered 0 3)).map (fun c => statusOf c.world "request") =
          some (some .pending) := by decide +kernel
    obtain ⟨c, hc, hstatus⟩ := Option.map_eq_some_iff.mp hrun
    exact ⟨c, hc, hstatus, by decide⟩
  · have hrun : (run (system sampleService).step
        (quiescent (sampleWorld [{ sampleRow with
          status := .completed, collectorId := some "first" }] []))
        (.start 0 (.updateStatus "request" "first" .recolector .cancelled) :: answered 0 2)).map
          (fun c => statusOf c.world "request") = some (some .cancelled) := by decide +kernel
    obtain ⟨c, hc, hstatus⟩ := Option.map_eq_some_iff.mp hrun
    exact ⟨c, hc, hstatus, by decide⟩

/-! ### Acceptance -/

def Free (row : CollectionRequest) : Prop := Unaccepted row.status → row.collectorId = none

/-- The changes that take a request, give it back or make it one to be taken. -/
def handsOver : Change → Bool
  | .accept _ _ => true
  | .abandon _ => true
  | .selectBid _ _ => true
  | .revertAuction => true
  | _ => false

theorem free_change {change : Change} {row row' : CollectionRequest} {now : ℕ}
    (hguard : handsOver change = true → Guard svc change row)
    (happly : change.apply now row = some row') (h : Free row) : Free row' := by
  intro hunaccepted
  cases change with
  | accept collectorId escrow =>
    obtain ⟨escrowLocked, -, rfl⟩ := Option.map_eq_some_iff.mp happly
    rcases hunaccepted with h | h | h <;> cases h
  | abandon userId => cases happly; rfl
  | acceptedInactivity => cases happly; rfl
  | claimAutomatic centerId rates => cases happly; exact h hunaccepted
  | selectBid centerId rates =>
    cases happly
    have hbiddable : Biddable row.status := hguard rfl
    exact h (hbiddable.imp_right .inl)
  | revertAuction =>
    cases happly
    have hactive : row.status = .auctionActive := hguard rfl
    exact h (.inr (.inl hactive))
  | _ => cases happly; rcases hunaccepted with h | h | h <;> cases h

theorem step_free (hC : Timely svc handsOver c e) (h : (system svc).step c e = some c')
    (hfree : ∀ r ∈ c.world.requests, Free r) : ∀ r ∈ c'.world.requests, Free r := by
  refine (step_effect h).rows hfree (fun t ht row' happly hrow => ?_) ?_ ?_ ?_
  · exact free_change (hC t ht) happly hrow
  · exact fun row items description now hpending hrow => hrow
  · exact fun draft id now _ _ => rfl
  · rintro id row batchId weights now - - - - hunaccepted
    rcases hunaccepted with h | h | h <;> cases h

def Held (w : World) (id collectorId : String) : Prop :=
  ∃ row, w.findRequest id = some row ∧ row.collectorId = some collectorId

def Releases (c : Race) (e : RaceEvent) (id collectorId : String) : Prop :=
  writes c e = some (id, .abandon collectorId) ∨ writes c e = some (id, .acceptedInactivity)

def Untaken (id : String) (c : Race) (e : RaceEvent) : Prop :=
  ∀ collectorId escrow, writes c e ≠ some (id, .accept collectorId escrow)

theorem untaken_of_held {id k : String} (hC : Timely svc handsOver c e)
    (hfree : ∀ r ∈ c.world.requests, Free r) (hheld : Held c.world id k) : Untaken id c e := by
  obtain ⟨row, hrow, hk⟩ := hheld
  intro k' escrow hwrites
  have hguard : Guard svc (.accept k' escrow) row := hC _ (written_eq hwrites hrow) rfl
  have hnone := hfree row (mem_of_findRequest hrow) (hguard.1.imp_right .inr)
  rw [hk] at hnone
  cases hnone

theorem collector_kept {change : Change} {row row' : CollectionRequest} {now : ℕ} {k : String}
    (happly : change.apply now row = some row') (hk : row.collectorId = some k)
    (haccept : ∀ k' escrow, change ≠ .accept k' escrow)
    (habandon : ∀ u, change = .abandon u → row.collectorId = some u)
    (hkept : change ≠ .abandon k) (hworker : change ≠ .acceptedInactivity) :
    row'.collectorId = some k := by
  cases change with
  | accept k' escrow => exact absurd rfl (haccept k' escrow)
  | abandon u =>
    have hu := habandon u rfl
    rw [hk] at hu
    cases hu
    exact absurd rfl hkept
  | acceptedInactivity => exact absurd rfl hworker
  | _ => cases happly; exact hk

theorem step_held {id k : String} (hC : Timely svc handsOver c e)
    (hkept : ¬ Releases c e id k) (h : (system svc).step c e = some c')
    (hfree : ∀ r ∈ c.world.requests, Free r) (hheld : Held c.world id k) : Held c'.world id k := by
  have huntaken := untaken_of_held hC hfree hheld
  obtain ⟨row, hrow, hk⟩ := hheld
  cases step_row h id with
  | same h => exact ⟨row, h.trans hrow, hk⟩
  | change ch old row' hwrites hfound happly h =>
    cases hrow.symm.trans hfound
    refine ⟨row', h, collector_kept happly hk ?_ ?_ ?_ ?_⟩
    · rintro k' escrow rfl
      exact huntaken k' escrow hwrites
    · rintro u rfl
      exact (hC _ (written_eq hwrites hfound) rfl).1
    · rintro rfl
      exact hkept (.inl hwrites)
    · rintro rfl
      exact hkept (.inr hwrites)
  | edit old items description hfound hpending h =>
    cases hrow.symm.trans hfound
    exact ⟨_, h, hk⟩
  | create draft hcreates hfresh h => rw [hfresh] at hrow; cases hrow
  | complete old batchId weights hcompletes hfound hverify h =>
    cases hrow.symm.trans hfound
    exact ⟨_, h, hk⟩

theorem run_held {es : List RaceEvent} {id k : String}
    (hC : Along (system svc).step (Timely svc handsOver) c es)
    (hkept : Along (system svc).step (fun c e => ¬ Releases c e id k) c es)
    (hrun : run (system svc).step c es = some c') (hfree : ∀ r ∈ c.world.requests, Free r)
    (hheld : Held c.world id k) :
    Held c'.world id k ∧ Along (system svc).step (Untaken id) c es := by
  induction es generalizing c with
  | nil => cases hrun; exact ⟨hheld, trivial⟩
  | cons e es ih =>
    obtain ⟨t, ht, hr⟩ := run_cons.mp hrun
    obtain ⟨hlast, huntaken⟩ := ih (hC.2 t ht) (hkept.2 t ht) hr (step_free hC.1 ht hfree)
      (step_held hC.1 hkept.1 ht hfree hheld)
    exact ⟨hlast, along_cons (untaken_of_held hC.1 hfree hheld) ht huntaken⟩

def Accepts (c : Race) (j : ℕ) (o : Outcome) (id collectorId : String) : Prop :=
  ∃ escrow updated, pending c j = some (.writeRequest id (.accept collectorId escrow)) ∧
    c.world.reply (.writeRequest id (.accept collectorId escrow)) o = .ok updated

theorem held_of_accepts {id k : String} (h : (system svc).step c (.advance j o) = some c')
    (haccepts : Accepts c j o id k) : Held c'.world id k := by
  obtain ⟨escrow, updated, hpending, hreply⟩ := haccepts
  obtain ⟨row, happly, hfound⟩ := found_of_answered h hpending hreply
  obtain ⟨escrowLocked, -, rfl⟩ := Option.map_eq_some_iff.mp happly
  exact ⟨_, hfound, rfl⟩

/-- Along a run in which a request is only taken, given back or put up for taking while it still is
one that the operation may write, it stays with the collector who was told that he has it, and
nobody takes it, until he abandons it or the worker releases it. -/
theorem acceptance_exclusive {w : World} {es es' : List RaceEvent} {id k : String} {c₀ : Race}
    (hfree : ∀ r ∈ w.requests, Free r)
    (hC : Along (system svc).step (Timely svc handsOver) (quiescent w)
      (es ++ .advance j o :: es'))
    (hrun : run (system svc).step (quiescent w) es = some c₀) (haccepts : Accepts c₀ j o id k)
    (hstep : (system svc).step c₀ (.advance j o) = some c)
    (hrun' : run (system svc).step c es' = some c')
    (hkept : Along (system svc).step (fun c e => ¬ Releases c e id k) c es') :
    Held c'.world id k ∧ Along (system svc).step (Untaken id) c es' := by
  obtain ⟨hbefore, hafter⟩ := along_append hC
  have hfree₀ : ∀ r ∈ c₀.world.requests, Free r :=
    run_invariant (I := fun c => ∀ r ∈ c.world.requests, Free r)
      (fun c e c' h hC hstep => step_free hC hstep h) hfree hbefore hrun
  have hlater := hafter c₀ hrun
  exact run_held (hlater.2 c hstep) hkept hrun' (step_free hlater.1 hstep hfree₀)
    (held_of_accepts hstep haccepts)

/-! ### Two collectors accept -/

def answer : Outcome := ⟨.done, 0, none, "id"⟩

instance (c : Race) (e : RaceEvent) (id collectorId : String) :
    Decidable (Releases c e id collectorId) :=
  inferInstanceAs (Decidable (_ ∨ _))

def answeredWrite (c : Race) (j : ℕ) (o : Outcome) : Option (String × Change) :=
  match pending c j with
  | some (.writeRequest id change) =>
    match c.world.reply (.writeRequest id change) o with
    | .ok _ => some (id, change)
    | .error _ => none
  | _ => none

theorem of_answeredWrite {id : String} {ch : Change}
    (h : answeredWrite c j o = some (id, ch)) : ∃ updated,
      pending c j = some (.writeRequest id ch) ∧
        c.world.reply (.writeRequest id ch) o = .ok updated := by
  unfold answeredWrite at h
  split at h
  · rename_i hpending
    split at h
    · cases h
      exact ⟨_, hpending, ‹_›⟩
    · cases h
  · cases h

def collectorOf (w : World) (id : String) : Option String :=
  (w.findRequest id).bind Request.collectorId

/-- Both collectors have passed every check when the first one writes. -/
def bothChecked : List RaceEvent :=
  acceptance 0 "first" :: acceptance 1 "second" :: answered 0 5 ++ answered 1 5

/-- The first collector accepts the request in the state `c`, and `es` follows. -/
def acceptedBefore (c : Race) (es : List RaceEvent) (test : Race → Race → Bool) : Bool :=
  answeredWrite c 0 answer == some ("request", .accept "first" 7) &&
    ((system sampleService).step c (.advance 0 answer)).any fun c =>
      (run (system sampleService).step c es).any (test c)

theorem of_acceptedBefore {es : List RaceEvent} {test : Race → Race → Bool}
    (h : acceptedBefore c es test = true) : Accepts c 0 answer "request" "first" ∧
      ∃ c₁ c₂, (system sampleService).step c (.advance 0 answer) = some c₁ ∧
        run (system sampleService).step c₁ es = some c₂ ∧ test c₁ c₂ = true := by
  rw [acceptedBefore, Bool.and_eq_true, beq_iff_eq, Option.any_eq_true] at h
  obtain ⟨haccepts, c₁, hstep, h⟩ := h
  obtain ⟨c₂, hrun, htest⟩ := (Option.any_eq_true _ _).mp h
  exact ⟨⟨7, of_answeredWrite haccepts⟩, c₁, c₂, hstep, hrun, htest⟩

theorem acceptance_exclusive_started : ∃ c' : Race,
    Held c'.world "request" "first" ∧ statusOf c'.world "request" = some .enRoute := by
  have hrun : (run (system sampleService).step (quiescent (sampleWorld [sampleRow] []))
      (acceptance 0 "first" :: answered 0 5)).any (fun c =>
        acceptedBefore c (.start 1 (.startRoute "request" "first") :: answered 1 3) fun c c' =>
          decide (Along (system sampleService).step (fun c e => ¬ Releases c e "request" "first") c
            (.start 1 (.startRoute "request" "first") :: answered 1 3)) &&
              statusOf c'.world "request" == some .enRoute) = true := by decide +kernel
  obtain ⟨c₀, hc₀, htest⟩ := (Option.any_eq_true _ _).mp hrun
  obtain ⟨haccepts, c, c', hstep, hrun', htest⟩ := of_acceptedBefore htest
  simp only [Bool.and_eq_true, decide_eq_true_eq, beq_iff_eq] at htest
  have hfree : ∀ r ∈ (sampleWorld [sampleRow] []).requests, Free r := by
    intro r hr
    obtain rfl := List.mem_singleton.mp hr
    exact fun _ => rfl
  exact ⟨c', (acceptance_exclusive hfree (by decide +kernel) hc₀ haccepts hstep hrun' htest.1).1,
    htest.2⟩

theorem acceptance_overwritten : ∃ c₀ c c',
    run (system sampleService).step (quiescent (sampleWorld [sampleRow] [])) bothChecked =
      some c₀ ∧
    Accepts c₀ 0 answer "request" "first" ∧
    (system sampleService).step c₀ (.advance 0 answer) = some c ∧
    run (system sampleService).step c (answered 1 1) = some c' ∧
    Along (system sampleService).step (fun c e => ¬ Releases c e "request" "first") c
      (answered 1 1) ∧
    ¬ Held c'.world "request" "first" := by
  have hrun : (run (system sampleService).step (quiescent (sampleWorld [sampleRow] []))
      bothChecked).any (fun c => acceptedBefore c (answered 1 1) fun c c' =>
        decide (Along (system sampleService).step (fun c e => ¬ Releases c e "request" "first") c
          (answered 1 1)) && collectorOf c'.world "request" == some "second") = true := by
    decide +kernel
  obtain ⟨c₀, hc₀, htest⟩ := (Option.any_eq_true _ _).mp hrun
  obtain ⟨haccepts, c, c', hstep, hrun', htest⟩ := of_acceptedBefore htest
  simp only [Bool.and_eq_true, decide_eq_true_eq, beq_iff_eq] at htest
  refine ⟨c₀, c, c', hc₀, haccepts, hstep, hrun', htest.1, ?_⟩
  rintro ⟨row, hrow, hk⟩
  rw [collectorOf, hrow, Option.bind_some, hk] at htest
  exact absurd htest.2 (by decide)

end Livora.CollectionRaces
