import Livora.CollectionRaces
import Livora.NamedPools
import Livora.TelemetryServices
import Mathlib.Tactic.MkIffOfInductiveProp

/-! Locations sent while collections go on, in any order of the steps of all calls. A location is
accepted where it passes its check, and it is relayed some calls later. The entry that it is checked
against is deleted by those who end a way in order, some time after they have written the row, and
by nobody else who takes a request off the way. -/

namespace Livora.TelemetryRaces

open TransitionRuns EffectPrograms EffectPrograms.Action SummedPrograms ProgramPools ProgramPools.System
open NamedPools CollectionBooks CollectionServices TelemetryServices
open PinVerification (RequestStatus Delivery)
open RewardStrategies (NumberRecord)

/-! ### The system -/

inductive Outside where
  | pass (ms : ℕ)
  | amend (around : Surroundings)
  /-- The time of an entry is over. -/
  | expire (id : String)

def outside (w : TrackingWorld) : Outside → Option TrackingWorld
  | .pass ms => some { w with books := { w.books with now := w.books.now + ms } }
  | .amend around =>
    some { w with books := { w.books with around := { around with routes := w.books.around.routes } } }
  | .expire id => some { w with books := w.books.setRoute id none }

/-- What a program is about: a location that has passed its check, by request and sender, and a
request off the way whose entry is still to be deleted. -/
structure Stage where
  granted : Option (String × String)
  closing : Option String
deriving DecidableEq

def Stage.first : Stage := ⟨none, none⟩

abbrev Rules := Protocol Stage AnyOp fun i => Except Failure (AnyReply i)

/-- A location is asked for, and relayed, in the name of its sender and its request. -/
def locationRules (id collectorId : String) : Rules where
  Allowed s i := match i with
    | .inr (.getActive x) => x = id
    | .inr (.findAssignment x) => x = id
    | .inr (.relay _ payload) =>
      s.granted = some (id, collectorId) ∧ payload.requestId = id ∧
        payload.collectorId = collectorId
    | _ => True
  next s i r := match i, r with
    | .inr (.getActive _), .ok (some route) =>
      if route.collectorId =
        some collectorId then { s with granted := some (id, collectorId) } else s
    | .inr (.findAssignment _), .ok (some row) =>
      if row.collectorId = some collectorId ∧ row.status = .enRoute then
        { s with granted := some (id, collectorId) }
      else s
    | .inr (.relay _ _), _ => { s with granted := none }
    | _, _ => s

/-- One request is taken off the way, and then its entry is deleted, unless it cannot be read in
between. -/
def closingRules (redis : Bool) : Rules where
  Allowed s i := match i with
    | .inl (.writeRequest _ _) => s.closing = none
    | .inr (.completeRequest _ _ _) => s.closing = none
    | .inl (.purgeRoute x .active) => s.closing = some x
    | .inr (.relay _ _) => False
    | _ => True
  next s i r := match i, r with
    | .inl (.writeRequest id (.reachDestination _ _)), .ok _ =>
      if redis then { s with closing := some id } else s
    | .inr (.completeRequest id _ _), .ok true => if redis then { s with closing := some id } else s
    | .inl (.findRequest _), .error _ => { s with closing := none }
    | .inl (.purgeRoute _ .active), _ => { s with closing := none }
    | _, _ => s

def silentRules : Rules where
  Allowed _ i := match i with
    | .inr (.relay _ _) => False
    | _ => True
  next s _ _ := s

def rules (redis : Bool) : TrackingCaller → Rules
  | .updateCollectorLocation id collectorId _ => locationRules id collectorId
  | .verifyPin _ _ _ => closingRules redis
  | .collection (.reachDestination _ _) => closingRules redis
  | .collection _ => silentRules

def protocol (redis : Bool) : Protocol Stage (TrackingCaller × AnyOp) fun i =>
    Except Failure (AnyReply i.2) where
  Allowed s i := (rules redis i.1).Allowed s i.2
  next s i r := (rules redis i.1).next s i.2 r

def system (svc : TrackingService) : System TrackingCaller TrackingWorld Outcome Outside Stage
    (TrackingCaller × AnyOp) (fun i => Except Failure (AnyReply i.2))
    (TrackingCaller × Except Failure TrackingResult) where
  program caller := inName caller (program svc caller).run
  serve w i o := w.serve i.2 o
  outside := outside
  protocol := protocol svc.toService.redis
  first := .first

abbrev Ways := Pool TrackingWorld (Task Stage (TrackingCaller × AnyOp)
  (fun i => Except Failure (AnyReply i.2)) (TrackingCaller × Except Failure TrackingResult))

abbrev WayEvent := Event TrackingCaller Outcome Outside

def quiescent (w : TrackingWorld) : Ways := ⟨w, fun _ => none⟩

/-! ### The programs -/

section Programs

variable {svc : TrackingService} {s : Stage}

def Over (s : Stage) : Prop := s.closing = none

theorem keeps_still {σ ι α : Type*} {ρ : ι → Type*} {P : Protocol σ ι ρ} {s : σ}
    (h : ∀ i, P.Allowed s i ∧ ∀ r, P.next s i r = s) (p : Prog ι ρ α) :
    Keeps P (fun t _ => t = s) s p := by
  induction p with
  | done x => rfl
  | call i k ih =>
    refine ⟨(h i).1, fun r => ?_⟩
    rw [(h i).2 r]
    exact ih r

theorem over_silent {α : Type} (h : Over s) (a : Work α) :
    Obeys (left silentRules) (fun t _ => Over t) s a := by
  refine Keeps.mono (fun t _ ht => ?_)
    (keeps_still (P := left silentRules) (s := s) (fun i => ?_) a.run)
  · rw [ht]
    exact h
  · exact ⟨trivial, fun r => rfl⟩

theorem over_purgeRoutes {x : String}
    (h : s.closing = if svc.toService.redis then some x else none) :
    Obeys (left (closingRules svc.toService.redis)) (fun t _ => Over t) s
      (CollectionTrackingService.purgeRoutes svc.toService x) := by
  unfold CollectionTrackingService.purgeRoutes
  cases hredis : svc.toService.redis with
  | false =>
    rw [hredis] at h
    exact h
  | true =>
    rw [hredis, if_pos rfl] at h
    have hrest : ∀ t : Stage, Over t → Obeys (left (closingRules true)) (fun t _ => Over t) t (do
        recover (call (.purgeRoute x .location)) ()
        recover (call (.purgeRoute x .route)) ()) := by
      intro t ht
      refine obeys_bind.mpr
        (obeys_recover.mpr (obeys_perform.mpr ⟨trivial, fun _ => ?_, fun _ => ?_⟩))
      · exact obeys_recover.mpr (obeys_perform.mpr ⟨trivial, fun _ => ht, fun _ => ht⟩)
      · exact obeys_recover.mpr (obeys_perform.mpr ⟨trivial, fun _ => ht, fun _ => ht⟩)
    refine obeys_bind.mpr (obeys_recover.mpr (obeys_perform.mpr ⟨h, fun _ => ?_, fun _ => ?_⟩))
    · exact hrest _ rfl
    · exact hrest _ rfl

theorem over_reachDestination {id collectorId : String} (h : Over s) :
    Obeys (left (closingRules svc.toService.redis)) (fun t _ => Over t) s
      (CollectionTrackingService.reachDestination svc.toService id collectorId) := by
  refine obeys_call.mpr ⟨trivial, fun request => ?_, fun _ => rfl⟩
  cases request with
  | none => exact h
  | some request =>
    change Obeys _ _ s (if request.collectorId = some collectorId then _ else _)
    split
    · split
      · exact h
      · refine obeys_call.mpr ⟨trivial, fun now => ?_, fun _ => h⟩
        refine obeys_call.mpr ⟨h, fun updated => ?_, fun _ => h⟩
        refine obeys_bind.mpr ((over_purgeRoutes (x := id) ?_).mono (fun t _ ht => ?_) fun t _ ht =>
          ht)
        · change (if svc.toService.redis then { s with closing := some id } else s).closing = _
          split
          · rfl
          · exact h
        · refine obeys_call.mpr ⟨trivial, fun _ => ?_, fun _ => ht⟩
          exact obeys_call.mpr ⟨trivial, fun _ => ht, fun _ => ht⟩
      · exact h
    · exact h

theorem over_completeVerification {id : String} {targetBatchId : Option String}
    {actualWeights : NumberRecord}
    (h : Over s) : Obeys (closingRules svc.toService.redis) (fun t _ => Over t) s
      (completeVerification svc id targetBatchId actualWeights) := by
  refine obeys_call.mpr ⟨h, fun success => ?_, fun _ => h⟩
  cases success with
  | false => exact h
  | true =>
    refine obeys_bind.mpr
      (obeys_lift.mpr (obeys_perform.mpr ⟨trivial, fun completed => ?_, fun _ => rfl⟩))
    refine obeys_bind.mpr (obeys_lift.mpr ((over_purgeRoutes (x := id) ?_).mono (fun t _ ht => ?_)
      fun t _ ht => ht))
    · change (if svc.toService.redis then { s with closing := some id } else s).closing = _
      split
      · rfl
      · exact h
    · cases completed with
      | none => exact ht
      | some completed =>
        exact obeys_lift.mpr (obeys_perform.mpr ⟨trivial, fun _ => ht, fun _ => ht⟩)

/-- Whoever passes the check of his location is granted it. -/
def Checked (id collectorId : String) (t : Stage) (x : Except Failure RouteMeta) : Prop :=
  Over t ∧ ∀ route, x = .ok route → t.granted = some (id, collectorId)

theorem checked_error {id collectorId : String} {failure : Failure} (h : Over s) :
    Checked id collectorId s (.error failure) :=
  ⟨h, fun _ he => by cases he⟩

theorem obeys_readAssignment {id collectorId : String} (h : Over s) :
    Obeys (locationRules id collectorId)
    (Checked id collectorId) s (readAssignment svc id collectorId) := by
  refine obeys_call.mpr ⟨rfl, fun dbReq => ?_, fun _ => checked_error h⟩
  cases dbReq with
  | none => exact checked_error h
  | some dbReq =>
    let t : Stage := if dbReq.collectorId = some collectorId ∧ dbReq.status = .enRoute then
      { s with granted := some (id, collectorId) } else s
    change Obeys _ _ t (if dbReq.collectorId = some collectorId then
      if dbReq.status = .enRoute then _ else _ else _)
    have ht : Over t := by
      unfold t
      split
      · exact h
      · exact h
    split
    · split
      · rename_i hassigned hway
        have hgranted : t.granted = some (id, collectorId) := by
          unfold t
          rw [if_pos ⟨hassigned, hway⟩]
        refine obeys_bind.mpr
          (obeys_lift.mpr (obeys_perform.mpr ⟨trivial, fun transportType => ?_, fun _ => ?_⟩))
        · refine obeys_bind.mpr (obeys_lift.mpr ?_)
          split
          · exact obeys_recover.mpr (obeys_perform.mpr
              ⟨trivial, fun _ => ⟨ht, fun _ _ => hgranted⟩, fun _ => ⟨ht, fun _ _ => hgranted⟩⟩)
          · exact ⟨ht, fun _ _ => hgranted⟩
        · exact checked_error ht
      · exact checked_error ht
    · exact checked_error ht

theorem obeys_assignment {id collectorId : String} (h : Over s) :
    Obeys (locationRules id collectorId)
    (Checked id collectorId) s (assignment svc id collectorId) := by
  refine obeys_bind.mpr ?_
  unfold cachedRoute
  split
  · refine obeys_recover.mpr
      (obeys_perform.mpr ⟨rfl, fun route => ?_, fun _ => obeys_readAssignment h⟩)
    cases route with
    | none => exact obeys_readAssignment h
    | some route =>
      change Obeys _ _ (if route.collectorId = some collectorId then
        { s with granted := some (id, collectorId) } else s)
          (if route.collectorId = some collectorId then _ else _)
      split
      · exact ⟨h, fun _ _ => rfl⟩
      · exact checked_error h
  · exact obeys_readAssignment h

theorem still_timestampOf {id collectorId : String} {dto : CollectorTelemetryDto} :
    Obeys (locationRules id collectorId) (fun t _ => t = s) s (timestampOf dto) := by
  unfold timestampOf
  split
  · rfl
  · exact obeys_bind.mpr (obeys_lift.mpr (obeys_perform.mpr ⟨trivial, fun _ => rfl, fun _ => rfl⟩))

theorem over_updateCollectorLocation {id collectorId : String} {dto : CollectorTelemetryDto}
    (h : Over s) :
    Obeys (locationRules id collectorId) (fun t _ => Over t) s
      (updateCollectorLocation svc id collectorId dto) := by
  refine obeys_bind.mpr ((obeys_assignment h).mono (fun t route ht => ?_) fun t _ ht => ht.1)
  obtain ⟨hover, hgranted⟩ := ht
  refine obeys_bind.mpr (still_timestampOf.mono (fun u timestamp hu => ?_) fun u _ hu => ?_)
  · rw [hu]
    have hrelay : Obeys (locationRules id collectorId) (fun t _ => Over t) t (do
        track (.relay route.householdId (socketPayload svc id collectorId dto route timestamp))
        pure (socketPayload svc id collectorId dto route timestamp)) :=
      obeys_call.mpr ⟨⟨hgranted route rfl, rfl, rfl⟩, fun _ => hover, fun _ => hover⟩
    change Obeys _ _ t (if svc.toService.redis = true then _ else _)
    split
    · exact obeys_bind.mpr (obeys_recover.mpr (obeys_perform.mpr
        ⟨trivial, fun _ => hrelay, fun _ => hrelay⟩))
    · exact hrelay
  · rw [hu]
    exact hover

theorem keeps_program (caller : TrackingCaller) :
    Keeps (protocol svc.toService.redis)
    (fun t _ => Over t) .first (inName caller (program svc caller).run) := by
  refine (keeps_inName (ρ := fun i => Except Failure (AnyReply i))).mpr ?_
  have hfirst : Over .first := rfl
  cases caller with
  | updateCollectorLocation id collectorId dto =>
    exact obeys_bind.mpr ((over_updateCollectorLocation hfirst).mono (fun _ _ h => h) fun _ _ h =>
      h)
  | verifyPin id targetBatchId actualWeights =>
    exact obeys_bind.mpr ((over_completeVerification hfirst).mono (fun _ _ h => h) fun _ _ h => h)
  | collection caller =>
    refine obeys_bind.mpr (obeys_lift.mpr ?_)
    cases caller with
    | reachDestination id collectorId =>
      exact obeys_bind.mpr ((over_reachDestination hfirst).mono (fun _ _ h => h) fun _ _ h => h)
    | _ => exact (over_silent hfirst _).mono (fun _ _ h => h) fun _ _ h => h

end Programs

/-! ### On the way -/

/-- The request is on its way, and the collector is the one that it is assigned to. -/
def OnTheWay (w : World) (id collectorId : String) : Prop :=
  ∃ row ∈ w.findRequest id, row.status = .enRoute ∧ row.collectorId = some collectorId

def Entered (w : World) (id collectorId : String) : Prop :=
  ∃ route ∈ w.around.routes id, route.collectorId = some collectorId

/-- The entry of the request, if there is one, names a collector who is on his way. -/
def Sound (w : World) (id : String) : Prop :=
  ∀ route ∈ w.around.routes id, ∀ k ∈ route.collectorId, OnTheWay w id k

instance (w : World) (id collectorId : String) : Decidable (OnTheWay w id collectorId) :=
  inferInstanceAs (Decidable (∃ row ∈ w.findRequest id, _))

instance (w : World) (id collectorId : String) : Decidable (Entered w id collectorId) :=
  inferInstanceAs (Decidable (∃ route ∈ w.around.routes id, _))

instance (w : World) (id : String) : Decidable (Sound w id) :=
  inferInstanceAs (Decidable (∀ route ∈ w.around.routes id, _))

def Owed (st : ℕ → Option Stage) (id collectorId : String) : Prop :=
  ∃ j s, st j = some s ∧ s.granted = some (id, collectorId)

/-- The entry of the request is still to be deleted. -/
def Closing (st : ℕ → Option Stage) (id : String) : Prop :=
  ∃ j s, st j = some s ∧ s.closing = some id

def enters : AnyOp → Option RouteMeta
  | .inl (.cacheRoute route) => some route
  | _ => none

def purges : AnyOp → Option String
  | .inl (.purgeRoute id .active) => some id
  | _ => none

def checks : TrackingCaller × AnyOp → Option (String × String)
  | (.updateCollectorLocation _ collectorId _, .inr (.getActive id)) => some (id, collectorId)
  | _ => none

/-- What a call has to mind: whoever takes a request off the way comes after every location that was
accepted, and deletes the entry; the entry is written on the way only, no location is checked
against one that is off the way and still to be deleted, and the deletion takes effect. -/
@[mk_iff]
structure Minds (redis : Bool) (owed : String → String → Prop) (closing : String → Prop)
    (w : TrackingWorld) (s : Stage) (i : TrackingCaller × AnyOp) (o : Outcome) : Prop where
  leaving : ∀ row ∈ w.books.requests, ∀ k ∈ row.collectorId, OnTheWay w.books row.id k →
    ¬ OnTheWay (w.after o i.2).books row.id k → ¬ owed row.id k ∧
      (Entered w.books row.id k → ((protocol redis).next s i (w.reply o i.2)).closing = some row.id)
  entering : o.delivery.applied = true → ∀ route ∈ enters i.2, ∀ k ∈ route.collectorId,
    OnTheWay w.books route.id k ∨ closing route.id
  checking : ∀ x ∈ checks i, closing x.1 → Entered w.books x.1 x.2 → OnTheWay w.books x.1 x.2
  deleting : ∀ id ∈ s.closing, ((protocol redis).next s i (w.reply o i.2)).closing ≠ some id →
    purges i.2 = some id ∧ o.delivery.applied = true ∨ Sound w.books id

/-- Every call minds what is accepted and what is still to be deleted, and nobody is stopped before
he has deleted the entry of a request that he took off the way. -/
def CarefulOf (svc : TrackingService) (owed : String → String → Prop) (closing : String → Prop)
    (c : Ways) :
    WayEvent → Prop
  | .advance j o =>
    ∀ s ∈ active c j, ∀ i ∈ pending c j, Minds svc.toService.redis owed closing c.world s i o
  | .stop j => ∀ s ∈ active c j, ∀ id ∈ s.closing, Sound c.world.books id
  | _ => True

def Careful (svc : TrackingService) (c : Ways) (e : WayEvent) : Prop :=
  CarefulOf svc (Owed (active c)) (Closing (active c)) c e

def accepts (svc : TrackingService) (c : Ways) : WayEvent → Option (String × String)
  | .advance j o => (pending c j).bind fun i =>
    ((protocol svc.toService.redis).next .first i (c.world.reply o i.2)).granted
  | _ => none

def relayedBy : AnyOp → Option (String × String)
  | .inr (.relay _ payload) => some (payload.requestId, payload.collectorId)
  | _ => none

/-- The location that an event relays to the household, by request and sender. -/
def relays (c : Ways) : WayEvent → Option (String × String)
  | .advance j _ => (pending c j).bind fun i => relayedBy i.2
  | _ => none

/-- What is accepted and what is relayed is on the way. -/
def Proper (svc : TrackingService) (c : Ways) (e : WayEvent) : Prop :=
  ∀ id collectorId, accepts svc c e = some (id, collectorId) ∨ relays c e = some (id, collectorId) →
    OnTheWay c.world.books id collectorId

/-! ### What a call does to the entries -/

section Calls

variable {redis : Bool} {w : TrackingWorld} {o : Outcome} {caller : TrackingCaller} {i : AnyOp}
    {s : Stage}
  {st : ℕ → Option Stage} {j : ℕ} {id x k : String}

theorem onTheWay_congr {w w' : World} (h : w'.requests = w.requests) :
    OnTheWay w' id k ↔ OnTheWay w id k := by
  unfold OnTheWay
  rw [CollectionRaces.findRequest_congr h id]

theorem routes_effect {w : World} {i : Op} (hcache : ∀ route, i ≠ .cacheRoute route)
    (hpurge : ∀ x, i ≠ .purgeRoute x .active) : (w.effect o i).around.routes = w.around.routes := by
  cases i with
  | cacheRoute route => exact absurd rfl (hcache route)
  | purgeRoute x key =>
    cases key with
    | active => exact absurd rfl (hpurge x)
    | _ => rfl
  | writeRequest id change =>
    change (w.writeRequest id change).around.routes = _
    unfold World.writeRequest
    split <;> rfl
  | editRequest id householdId items description =>
    change (w.editRequest id householdId items description).around.routes = _
    unfold World.editRequest
    split <;> rfl
  | createRequest draft =>
    change (w.createRequest o.id draft).around.routes = _
    unfold World.createRequest
    split <;> rfl
  | updateBid bidId offer =>
    change (w.updateBid bidId offer).around.routes = _
    unfold World.updateBid
    split <;> rfl
  | createBid requestId centerId offer =>
    change (w.createBid o.id requestId centerId offer).around.routes = _
    unfold World.createBid
    split <;> rfl
  | withdrawBid bidId =>
    change (w.withdrawBid bidId).around.routes = _
    unfold World.withdrawBid
    split <;> rfl
  | commitSelection requestId bid others =>
    change (w.commitSelection requestId bid others).around.routes = _
    unfold World.commitSelection
    split <;> rfl
  | _ => rfl

theorem routes_completeRequest {w : World} {targetBatchId : Option String}
    {actualWeights : NumberRecord} :
    (w.completeRequest id targetBatchId actualWeights).around.routes = w.around.routes := by
  unfold World.completeRequest
  split
  · split <;> rfl
  · rfl

theorem entry_after {route : RouteMeta} (h : route ∈ (w.after o i).books.around.routes x) :
    route ∈ w.books.around.routes x ∧ (x ∈ purges i → o.delivery.applied = false) ∨
      o.delivery.applied = true ∧ route ∈ enters i ∧ route.id = x := by
  cases happlied : o.delivery.applied with
  | false =>
    refine .inl ⟨?_, fun _ => rfl⟩
    cases i with
    | inl i => simpa [TrackingWorld.after, World.after, World.update, happlied] using h
    | inr i => simpa [TrackingWorld.after, happlied] using h
  | true =>
    cases i with
    | inl i =>
      have hafter : (w.after o (.inl i)).books = w.books.effect o i := by
        simp only [TrackingWorld.after, World.after, World.update, happlied, if_pos]
      rw [hafter] at h
      by_cases hcache : ∃ route', i = .cacheRoute route'
      · obtain ⟨route', rfl⟩ := hcache
        change route ∈ Function.update w.books.around.routes route'.id (some route') x at h
        by_cases hx : x = route'.id
        · rw [hx, Function.update_self] at h
          cases h
          exact .inr ⟨rfl, rfl, hx.symm⟩
        · rw [Function.update_of_ne hx] at h
          exact .inl ⟨h, fun hp => by cases hp⟩
      by_cases hpurge : ∃ y, i = .purgeRoute y .active
      · obtain ⟨y, rfl⟩ := hpurge
        change route ∈ Function.update w.books.around.routes y none x at h
        by_cases hx : x = y
        · rw [hx, Function.update_self] at h
          cases h
        · rw [Function.update_of_ne hx] at h
          exact .inl ⟨h, fun hp => absurd (Option.some.inj hp).symm hx⟩
      · rw [routes_effect (fun r hr => hcache ⟨r, hr⟩) fun y hy => hpurge ⟨y, hy⟩] at h
        refine .inl ⟨h, fun hp => ?_⟩
        unfold purges at hp
        split at hp
        · rename_i y heq
          exact absurd ⟨y, Sum.inl.inj heq⟩ hpurge
        · cases hp
    | inr i =>
      refine .inl ⟨?_, fun hp => by cases hp⟩
      cases i with
      | completeRequest y batchId weights =>
        simp only [TrackingWorld.after, happlied, if_pos, TrackingWorld.effect] at h
        rwa [routes_completeRequest] at h
      | _ => simpa [TrackingWorld.after, happlied, TrackingWorld.effect] using h

/-! ### What a call does to the stages -/

theorem rules_cases (redis : Bool) (caller : TrackingCaller) :
    (∃ id k dto, caller = .updateCollectorLocation id k dto) ∨
      rules redis caller = closingRules redis ∨
      rules redis caller = silentRules := by
  unfold rules
  split
  · exact .inl ⟨_, _, _, rfl⟩
  · exact .inr (.inl rfl)
  · exact .inr (.inl rfl)
  · exact .inr (.inr rfl)

theorem closingRules_granted {r : Except Failure (AnyReply i)} :
    ((closingRules redis).next s i r).granted = s.granted := by
  unfold closingRules
  dsimp only
  split
  · split <;> rfl
  · split <;> rfl
  · rfl
  · rfl
  · rfl

theorem granted_next {s₀ : Stage} (hallowed : (rules redis caller).Allowed s₀ i)
    (h : ((rules redis caller).next s i (w.reply o i)).granted = some (id, k)) :
    s.granted = some (id, k) ∨ (w.after o i).books = w.books ∧
      (checks (caller, i) = some (id, k) ∧ Entered w.books id k ∨ OnTheWay w.books id k) := by
  rcases rules_cases redis caller with ⟨id', k', dto, rfl⟩ | hrules | hrules
  · change ((locationRules id' k').next s i (w.reply o i)).granted = some (id, k) at h
    cases i with
    | inl i => exact .inl h
    | inr i =>
      cases i with
      | getActive y =>
        have hy : y = id' := hallowed
        subst hy
        rcases hreply : w.reply o (.inr (.getActive y)) with e | _ | route
        · rw [hreply] at h
          exact .inl h
        · rw [hreply] at h
          exact .inl h
        · rw [hreply] at h
          change (if route.collectorId = some k' then _ else s).granted = some (id, k) at h
          split at h
          · cases h
            refine .inr ⟨?_, .inl ⟨rfl, route, (Delivery.answer_ok hreply).2, ‹_›⟩⟩
            simp only [TrackingWorld.after, TrackingWorld.effect, ite_self]
          · exact .inl h
      | findAssignment y =>
        have hy : y = id' := hallowed
        subst hy
        rcases hreply : w.reply o (.inr (.findAssignment y)) with e | _ | row
        · rw [hreply] at h
          exact .inl h
        · rw [hreply] at h
          exact .inl h
        · rw [hreply] at h
          change (if row.collectorId = some k' ∧ row.status = .enRoute then _ else s).granted =
              some (id, k) at h
          split at h
          · rename_i hrow
            cases h
            refine .inr ⟨?_, .inr ⟨row, (Delivery.answer_ok hreply).2, hrow.2, hrow.1⟩⟩
            simp only [TrackingWorld.after, TrackingWorld.effect, ite_self]
          · exact .inl h
      | relay householdId payload => cases h
      | setLocation payload => exact .inl h
      | completeRequest y batchId weights => exact .inl h
  · rw [hrules] at h
    exact .inl (closingRules_granted.symm.trans h)
  · rw [hrules] at h
    exact .inl h

theorem granted_of_relayed (hallowed : (rules redis caller).Allowed s i)
    (h : relayedBy i = some (id, k)) :
    s.granted = some (id, k) := by
  unfold relayedBy at h
  split at h
  · rcases rules_cases redis caller with ⟨id', k', dto, rfl⟩ | hrules | hrules
    · obtain ⟨hgranted, hid, hk⟩ := hallowed
      rw [hid, hk] at h
      exact hgranted.trans h
    · rw [hrules] at hallowed
      exact False.elim hallowed
    · rw [hrules] at hallowed
      exact False.elim hallowed
  · cases h

theorem of_enters {route : RouteMeta} (h : route ∈ enters i) :
    (w.after o i).books.requests = w.books.requests ∧
      ∀ r, ((rules redis caller).next s i r).closing = s.closing := by
  unfold enters at h
  split at h
  · refine ⟨?_, fun r => ?_⟩
    · change (w.books.update o.delivery _).requests = _
      unfold World.update
      split <;> rfl
    · rcases rules_cases redis caller with ⟨id, k, dto, rfl⟩ | hrules | hrules
      · rfl
      · rw [hrules]
        rfl
      · rw [hrules]
        rfl
  · cases h

/-! ### The stages of all programs -/

theorem owed_update {t : Option Stage} (h : Owed (Function.update st j t) id k) :
    Owed st id k ∨ ∃ u, t = some u ∧ u.granted = some (id, k) := by
  obtain ⟨l, u, hl, hu⟩ := h
  by_cases hlj : l = j
  · rw [hlj, Function.update_self] at hl
    exact .inr ⟨u, hl, hu⟩
  · rw [Function.update_of_ne hlj] at hl
    exact .inl ⟨l, u, hl, hu⟩

theorem closing_update {t : Option Stage} (h : Closing st x)
    (hj : ∀ u, st j = some u → u.closing = some x → Closing (Function.update st j t) x) :
    Closing (Function.update st j t) x := by
  obtain ⟨l, u, hl, hu⟩ := h
  by_cases hlj : l = j
  · rw [hlj] at hl
    exact hj u hl hu
  · exact ⟨l, u, by rw [Function.update_of_ne hlj]; exact hl, hu⟩

theorem closing_self {u : Stage} (hu : u.closing = some x) :
    Closing (Function.update st j (some u)) x :=
  ⟨j, u, Function.update_self .., hu⟩

end Calls

/-! ### Careful runs -/

section Runs

variable {svc : TrackingService} {c c' : Ways} {e : WayEvent}

/-- Every entry is sound or still to be deleted, and every location that was accepted is on the
way. -/
structure Kept (svc : TrackingService) (c : Ways) : Prop where
  ends : (system svc).Ends (fun s _ => Over s) c
  sound : ∀ x, Sound c.world.books x ∨ Closing (active c) x
  owed : ∀ id k, Owed (active c) id k → OnTheWay c.world.books id k

theorem kept_quiescent {w : TrackingWorld} (h : ∀ x, Sound w.books x) : Kept svc (quiescent w) where
  ends j t ht := by cases ht
  sound x := .inl (h x)
  owed id k howed := by
    obtain ⟨j, s, hs, -⟩ := howed
    cases hs

theorem sound_congr {w w' : World} {x : String} (hrequests : w'.requests = w.requests)
    (hroutes : ∀ route ∈ w'.around.routes x, route ∈ w.around.routes x) (h : Sound w x) :
    Sound w' x :=
  fun route hroute k hk => (onTheWay_congr hrequests).mpr (h route (hroutes route hroute) k hk)

theorem Kept.replace {w : TrackingWorld} {j : ℕ} {t : Option (Task Stage (TrackingCaller × AnyOp)
      (fun i => Except Failure (AnyReply i.2)) (TrackingCaller × Except Failure TrackingResult))}
    (h : Kept svc c)
    (hends : (system svc).Ends (fun s _ => Over s) ⟨w, Function.update c.tasks j t⟩)
    (hw : w = c.world) (hgranted : ∀ u, Task.current t = some u → u.granted = none)
    (hclosing : ∀ u, active c j = some u → ∀ x, u.closing = some x → Sound c.world.books x) :
    Kept svc ⟨w, Function.update c.tasks j t⟩ where
  ends := hends
  sound x := by
    subst hw
    rw [active_update]
    rcases h.sound x with hsound | hx
    · exact .inl hsound
    · by_cases hj : ∃ u, active c j = some u ∧ u.closing = some x
      · obtain ⟨u, hu, hux⟩ := hj
        exact .inl (hclosing u hu x hux)
      · exact .inr (closing_update hx fun u hu hux => absurd ⟨u, hu, hux⟩ hj)
  owed id k howed := by
    subst hw
    rw [active_update] at howed
    rcases owed_update howed with howed | ⟨u, hu, hgrant⟩
    · exact h.owed id k howed
    · rw [hgranted u hu] at hgrant
      cases hgrant

theorem kept_outside {w : TrackingWorld} {d : Outside} (h : Kept svc c)
    (hw : outside c.world d = some w) : Kept svc ⟨w, c.tasks⟩ := by
  have hsame : w.books.requests = c.world.books.requests ∧
      ∀ x, ∀ route ∈ w.books.around.routes x, route ∈ c.world.books.around.routes x := by
    cases d with
    | pass ms => cases hw; exact ⟨rfl, fun _ _ h => h⟩
    | amend around => cases hw; exact ⟨rfl, fun _ _ h => h⟩
    | expire id =>
      cases hw
      refine ⟨rfl, fun x route hroute => ?_⟩
      change route ∈ Function.update c.world.books.around.routes id none x at hroute
      by_cases hx : x = id
      · rw [hx, Function.update_self] at hroute
        cases hroute
      · rwa [Function.update_of_ne hx] at hroute
  refine ⟨h.ends, fun x => ?_, fun id k howed => ?_⟩
  · exact (h.sound x).imp_left (sound_congr hsame.1 (hsame.2 x))
  · exact (onTheWay_congr hsame.1).mpr (h.owed id k howed)

theorem onTheWay_passed {s : Stage} {i : TrackingCaller × AnyOp} {o : Outcome} {id k : String}
    (hsound : ∀ x, Sound c.world.books x ∨ Closing (active c) x)
    (hC : Minds svc.toService.redis (Owed (active c)) (Closing (active c)) c.world s i o)
    (h : checks i = some (id, k) ∧ Entered c.world.books id k ∨ OnTheWay c.world.books id k) :
    OnTheWay c.world.books id k := by
  rcases h with ⟨hchecks, hentered⟩ | hway
  · rcases hsound id with hx | hx
    · obtain ⟨route, hroute, hk⟩ := hentered
      exact hx route hroute k hk
    · exact hC.checking (id, k) hchecks hx hentered
  · exact hway

theorem kept_call {s : Stage} {i : TrackingCaller × AnyOp} {o : Outcome} {j : ℕ} {t : Option Stage}
    (hsound : ∀ x, Sound c.world.books x ∨ Closing (active c) x)
    (howed : ∀ id k, Owed (active c) id k → OnTheWay c.world.books id k) (hs : active c j = some s)
    (hallowed : (rules svc.toService.redis i.1).Allowed s i.2)
    (hC : Minds svc.toService.redis (Owed (active c)) (Closing (active c)) c.world s i o)
    (ht : ∀ u, t = some u → u = (protocol svc.toService.redis).next s i (c.world.reply o i.2))
    (hlast : ∀ x, ((protocol svc.toService.redis).next s i (c.world.reply o i.2)).closing = some x →
      Closing (Function.update (active c) j t) x) :
    (∀ x, Sound (c.world.after o i.2).books x ∨ Closing (Function.update (active c) j t) x) ∧
      ∀ id k, Owed (Function.update (active c) j t) id k →
        OnTheWay (c.world.after o i.2).books id k := by
  have hleaving : ∀ id k, OnTheWay c.world.books id k →
      ¬ OnTheWay (c.world.after o i.2).books id k →
      ¬ Owed (active c) id k ∧ (Entered c.world.books id k →
        ((protocol svc.toService.redis).next s i (c.world.reply o i.2)).closing = some id) := by
    intro id k hway hleft
    obtain ⟨row, hrow, hstatus, hk⟩ := hway
    have hid := CollectionRaces.id_of_findRequest hrow
    subst hid
    exact hC.leaving row (CollectionRaces.mem_of_findRequest hrow) k hk
      ⟨row, hrow, hstatus, hk⟩ hleft
  have hstays : ∀ x, Closing (active c) x → Closing (Function.update (active c) j t) x ∨
      s.closing = some x ∧ ((protocol svc.toService.redis).next s i (c.world.reply o i.2)).closing ≠
        some x := by
    intro x hx
    by_cases hgone : s.closing = some x ∧
        ((protocol svc.toService.redis).next s i (c.world.reply o i.2)).closing ≠ some x
    · exact .inr hgone
    · refine .inl (closing_update hx fun u hu hux => ?_)
      cases hs.symm.trans hu
      exact hlast x (not_ne_iff.mp fun hne => hgone ⟨hux, hne⟩)
  constructor
  · intro x
    by_cases hclosing : Closing (Function.update (active c) j t) x
    · exact .inr hclosing
    · refine .inl fun route hroute k hk => ?_
      rcases entry_after hroute with ⟨hold, hpurged⟩ | ⟨happlied, henters, rfl⟩
      · have hway : OnTheWay c.world.books x k := by
          rcases hsound x with hx | hx
          · exact hx route hold k hk
          · obtain ⟨hmine, hgone⟩ := (hstays x hx).resolve_left hclosing
            rcases hC.deleting x hmine hgone with ⟨hpurge, happlied⟩ | hx
            · rw [hpurged hpurge] at happlied
              cases happlied
            · exact hx route hold k hk
        by_contra hleft
        exact hclosing (hlast x ((hleaving x k hway hleft).2 ⟨route, hold, hk⟩))
      · obtain ⟨hrequests, hkept⟩ :=
          @of_enters svc.toService.redis c.world o i.1 i.2 s route henters
        rcases hC.entering happlied route henters k hk with hway | hx
        · exact (onTheWay_congr hrequests).mpr hway
        · obtain ⟨hmine, hgone⟩ := (hstays _ hx).resolve_left hclosing
          exact absurd ((hkept _).trans hmine) hgone
  · intro id k howes
    have hbefore : Owed (active c) id k → OnTheWay (c.world.after o i.2).books id k := by
      intro h
      by_contra hleft
      exact (hleaving id k (howed id k h) hleft).1 h
    rcases owed_update howes with h | ⟨u, hu, hgranted⟩
    · exact hbefore h
    · rw [ht u hu] at hgranted
      rcases granted_next hallowed hgranted with h | ⟨hbooks, hpassed⟩
      · exact hbefore ⟨j, s, hs, h⟩
      · rw [hbooks]
        exact onTheWay_passed hsound hC hpassed

theorem step_kept (hC : Careful svc c e) (h : Kept svc c)
    (hstep : (system svc).step c e = some c') :
    Kept svc c' := by
  have hends := step_ends (fun caller => keeps_program caller) h.ends hstep
  cases e with
  | start j a =>
    obtain ⟨hj, rfl⟩ := step_start.mp hstep
    refine h.replace hends rfl (fun u hu => ?_) fun u hu => ?_
    · rw [stage_of_current hu]
      rfl
    · rw [active, hj] at hu
      cases hu
  | advance j o =>
    obtain ⟨s, i, k, ht, rfl⟩ := step_advance.mp hstep
    have hkeeps := h.ends j _ ht
    have hlast := hends j _ (Function.update_self ..)
    have hclosing : ∀ x, ((protocol svc.toService.redis).next s i (c.world.reply o i.2)).closing =
        some x →
        Closing (Function.update (active c) j (Task.current (some
          ⟨(protocol svc.toService.redis).next s i (c.world.reply o i.2),
            k (c.world.reply o i.2)⟩))) x := by
      intro x hx
      change Keeps _ _ _ (k (c.world.reply o i.2)) at hlast
      rcases hrest : k (c.world.reply o i.2) with y | ⟨i', k'⟩
      · rw [hrest] at hlast
        have hover : Over ((protocol svc.toService.redis).next s i (c.world.reply o i.2)) := hlast
        cases hx.symm.trans hover
      · exact closing_self hx
    obtain ⟨hsound, howed⟩ := kept_call h.sound h.owed (active_eq ht) hkeeps.1
      (hC s (active_eq ht) i (pending_eq ht)) (fun u hu => stage_of_current hu) hclosing
    refine ⟨hends, fun x => ?_, fun id collectorId hgrant => ?_⟩
    · rw [active_update]
      exact hsound x
    · rw [active_update] at hgrant
      exact howed id collectorId hgrant
  | stop j =>
    obtain ⟨-, rfl⟩ := step_stop.mp hstep
    exact h.replace hends rfl (fun u hu => by cases hu) fun u hu x hx => hC u hu x hx
  | outside d =>
    obtain ⟨w, hw, rfl⟩ := step_outside.mp hstep
    exact kept_outside h hw

theorem proper_of_kept (hC : Careful svc c e) (h : Kept svc c) : Proper svc c e := by
  intro id collectorId haccepts
  cases e with
  | advance j o =>
    rcases haccepts with haccepts | hrelays
    · obtain ⟨i, hi, hgranted⟩ := Option.bind_eq_some_iff.mp haccepts
      obtain ⟨s, k, ht⟩ := task_of_pending hi
      have hallowed : (rules svc.toService.redis i.1).Allowed s i.2 := (h.ends j _ ht).1
      rcases granted_next hallowed hgranted with hfirst | ⟨-, hpassed⟩
      · cases hfirst
      · exact onTheWay_passed h.sound (hC s (active_eq ht) i hi) hpassed
    · obtain ⟨i, hi, hrelayed⟩ := Option.bind_eq_some_iff.mp hrelays
      obtain ⟨s, k, ht⟩ := task_of_pending hi
      have hallowed : (rules svc.toService.redis i.1).Allowed s i.2 := (h.ends j _ ht).1
      exact h.owed id collectorId ⟨j, s, active_eq ht, granted_of_relayed hallowed hrelayed⟩
  | _ => rcases haccepts with h | h <;> cases h

/-- In a run whose steps are careful a location is accepted, and relayed, only while its request is
on the way with its sender: from the step on that takes it off the way every location is refused. -/
theorem relayed_on_the_way {w : TrackingWorld} {es : List WayEvent} (hw : ∀ x, Sound w.books x)
    (hC : Along (system svc).step (Careful svc) (quiescent w) es) :
    Along (system svc).step (Proper svc) (quiescent w) es :=
  along_strengthen (fun _ _ _ h hC hstep => step_kept hC h hstep) (fun _ _ h hC =>
    proper_of_kept hC h)
    (kept_quiescent hw) hC

end Runs

/-! ### A trip, and a cancellation -/

section Tests

variable {svc : TrackingService} {c : Ways} {e : WayEvent} {n : ℕ}

def OwedBelow (n : ℕ) (st : ℕ → Option Stage) (id collectorId : String) : Prop :=
  ∃ j ∈ List.range n, ∃ s ∈ st j, s.granted = some (id, collectorId)

def ClosingBelow (n : ℕ) (st : ℕ → Option Stage) (id : String) : Prop :=
  ∃ j ∈ List.range n, ∃ s ∈ st j, s.closing = some id

instance (st : ℕ → Option Stage) (id collectorId : String) :
    Decidable (OwedBelow n st id collectorId) :=
  inferInstanceAs (Decidable (∃ j ∈ List.range n, _))

instance (st : ℕ → Option Stage) (id : String) : Decidable (ClosingBelow n st id) :=
  inferInstanceAs (Decidable (∃ j ∈ List.range n, _))

instance {redis : Bool} {owed : String → String → Prop} {closing : String → Prop}
    {w : TrackingWorld}
    {s : Stage} {i : TrackingCaller × AnyOp} {o : Outcome} [∀ id k, Decidable (owed id k)]
    [∀ id, Decidable (closing id)] : Decidable (Minds redis owed closing w s i o) :=
  decidable_of_iff' _ (minds_iff ..)

instance {owed : String → String → Prop} {closing : String → Prop} [∀ id k, Decidable (owed id k)]
    [∀ id, Decidable (closing id)] : (e : WayEvent) → Decidable (CarefulOf svc owed closing c e)
  | .start _ _ => .isTrue trivial
  | .advance j _ => inferInstanceAs (Decidable (∀ s ∈ active c j, ∀ i ∈ pending c j, _))
  | .stop j => inferInstanceAs (Decidable (∀ s ∈ active c j, ∀ id ∈ s.closing, _))
  | .outside _ => .isTrue trivial

theorem lt_of_active {s : Stage} {j : ℕ} (hc : Below n c) (h : active c j = some s) : j < n := by
  by_contra hj
  obtain ⟨i, k, ht⟩ := active_some.mp h
  rw [hc j (Nat.le_of_not_lt hj)] at ht
  cases ht

theorem owedBelow_eq (hc : Below n c) : OwedBelow n (active c) = Owed (active c) := by
  funext id k
  refine propext ⟨?_, ?_⟩
  · rintro ⟨j, -, s, hs, hgranted⟩
    exact ⟨j, s, hs, hgranted⟩
  · rintro ⟨j, s, hs, hgranted⟩
    exact ⟨j, List.mem_range.mpr (lt_of_active hc hs), s, hs, hgranted⟩

theorem closingBelow_eq (hc : Below n c) : ClosingBelow n (active c) = Closing (active c) := by
  funext id
  refine propext ⟨?_, ?_⟩
  · rintro ⟨j, -, s, hs, hclosing⟩
    exact ⟨j, s, hs, hclosing⟩
  · rintro ⟨j, s, hs, hclosing⟩
    exact ⟨j, List.mem_range.mpr (lt_of_active hc hs), s, hs, hclosing⟩

theorem along_careful {w : TrackingWorld} {es : List WayEvent}
    (h : Along (system svc).step (fun c e => startsBelow n e = true ∧
      CarefulOf svc (OwedBelow n (active c)) (ClosingBelow n (active c)) c e) (quiescent w) es) :
    Along (system svc).step (Careful svc) (quiescent w) es := by
  refine along_of_below (fun c e hc he => ?_) (fun _ _ => rfl) h
  rw [owedBelow_eq hc, closingBelow_eq hc] at he
  exact he

end Tests

def sampleService : TrackingService where
  toService := CollectionRaces.sampleService
  place _ := ⟨TripOrders.zero, TripOrders.zero⟩
  haversineKm _ _ := TripOrders.zero

def acceptedWorld : TrackingWorld where
  books := CollectionRaces.sampleWorld
    [{ CollectionRaces.sampleRow with status := .accepted, collectorId := some "first" }] []
  locations _ := none
  relayed := []

def sampleDto : CollectorTelemetryDto :=
  ⟨TripOrders.zero, TripOrders.zero, none, none, none, none, none, none⟩

/-- The next `n` calls of a program are answered. -/
def answered (j n : ℕ) : List WayEvent := List.replicate n (.advance j CollectionRaces.answer)

def trip : List WayEvent := .start 0 (.collection (.startRoute "request" "first")) :: answered 0 6

def location (j : ℕ) : List WayEvent :=
  .start j (.updateCollectorLocation "request" "first" sampleDto) :: answered j 3

def arrival : List WayEvent :=
  .start 2 (.collection (.reachDestination "request" "first")) :: answered 2 8

def cancellation : List WayEvent :=
  .start 1 (.collection (.updateStatus "request" "first" .recolector .cancelled)) :: answered 1 3

def wholeTrip : List WayEvent :=
  trip ++ location 1 ++ answered 1 1 ++ arrival ++
    .start 3 (.updateCollectorLocation "request" "first" sampleDto) :: answered 3 2

theorem relayed_on_the_way_arrival :
    (run (system sampleService).step (quiescent acceptedWorld) wholeTrip).any
      (fun c => (active c 3).isNone && c.world.relayed.length == 1) = true ∧
    Along (system sampleService).step (Proper sampleService) (quiescent acceptedWorld) wholeTrip :=
  ⟨by decide +kernel, relayed_on_the_way (fun x route hroute => by cases hroute)
    (along_careful (n := 4) (by decide +kernel))⟩

/-- The collector sets off and cancels; when that has returned he sends a location, and it is
relayed. -/
theorem relayed_after_cancellation : ∃ c c',
    run (system sampleService).step (quiescent acceptedWorld) (trip ++ cancellation) = some c ∧
    active c 1 = none ∧ CollectionRaces.statusOf c.world.books "request" = some .cancelled ∧
    run (system sampleService).step c (location 2) = some c' ∧
    relays c' (.advance 2 CollectionRaces.answer) = some ("request", "first") ∧
    ¬ OnTheWay c'.world.books "request" "first" := by
  have hrun : (run (system sampleService).step (quiescent acceptedWorld) (trip ++ cancellation)).any
      (fun c => decide (active c 1 = none) &&
        CollectionRaces.statusOf c.world.books "request" == some .cancelled &&
        (run (system sampleService).step c (location 2)).any fun c' =>
          relays c' (.advance 2 CollectionRaces.answer) == some ("request", "first") &&
            decide (¬ OnTheWay c'.world.books "request" "first")) = true := by decide +kernel
  obtain ⟨c, hc, htest⟩ := (Option.any_eq_true _ _).mp hrun
  simp only [Bool.and_eq_true, decide_eq_true_eq, beq_iff_eq] at htest
  obtain ⟨⟨hreturned, hcancelled⟩, hlater⟩ := htest
  obtain ⟨c', hc', htest'⟩ := (Option.any_eq_true _ _).mp hlater
  simp only [Bool.and_eq_true, decide_eq_true_eq, beq_iff_eq] at htest'
  exact ⟨c, c', hc, hreturned, hcancelled, hc', htest'.1, htest'.2⟩

end Livora.TelemetryRaces
