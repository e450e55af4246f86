import Livora.CollectionRaces
import Livora.CentAmounts
import Livora.KeyedSums

/-! The collateral of the collectors. It may stay locked in a request that nobody has on
hand, where a request was accepted between the read and the write of an operation that
does not look at it; and a collector may lock more than he has, where he accepts two
requests on one sum. Without such a write in between neither comes about. -/

namespace Livora.CollectionCollateral

open TransitionRuns EffectPrograms ProgramPools ProgramPools.System DoubleRounding
open CollectionBooks CollectionServices CollectionStages CollectionRaces
open CollectionServices.CollectionLifecycleService (requiredEscrow)
open PinVerification (completion_undefined)
open PinVerification.CollectionStateMachine (canVerifyPin)
open StoreBooks (storedAmount parseCents sumNumbers)
open BackOffice (tokenColumn)
open CentAmounts KeyedSums

variable {svc : Service} {c c' : Race} {e : RaceEvent}

/-! ### Where collateral is locked -/

/-- Collateral is locked only where a collector has the request on hand. -/
def Secured (row : CollectionRequest) : Prop :=
  row.escrowLocked = 0 ∨ canVerifyPin row.status = true ∧ row.collectorId ≠ none

/-- The changes that take a request from whatever it was and leave its collateral. -/
def overlooks : Change → Bool
  | .selectBid _ _ => true
  | .revertAuction => true
  | .pendingTimeout => true
  | _ => false

/-- Such a change finds a request that its operation may write, or one without collateral. -/
def Vacant (svc : Service) (c : Race) (e : RaceEvent) : Prop :=
  ∀ t ∈ written c e, overlooks t.change = true →
    Guard svc t.change t.row ∨ t.row.escrowLocked = 0

instance (svc : Service) (c : Race) (e : RaceEvent) : Decidable (Vacant svc c e) :=
  inferInstanceAs (Decidable (∀ t ∈ written c e, _))

theorem vacant_row {change : Change} {row : CollectionRequest}
    (hoverlooks : overlooks change = true)
    (hvacant : Guard svc change row ∨ row.escrowLocked = 0) (h : Secured row) :
    row.escrowLocked = 0 := by
  rcases hvacant with hguard | hzero
  · rcases h with hzero | ⟨hverify, -⟩
    · exact hzero
    · -- the operation writes no request that a collector has on hand
      exfalso
      revert hverify
      cases change with
      | selectBid centerId rates => rcases hguard with h | h <;> rw [h] <;> decide
      | revertAuction => rw [show row.status = .auctionActive from hguard]; decide
      | pendingTimeout => rw [show row.status = .pending from hguard]; decide
      | _ => cases hoverlooks
  · exact hzero

theorem secured_change {change : Change} {row row' : CollectionRequest} {now : ℕ}
    (hvacant : overlooks change = true → Guard svc change row ∨ row.escrowLocked = 0)
    (happly : change.apply now row = some row') (h : Secured row) : Secured row' := by
  cases change with
  | accept collectorId escrow =>
    obtain ⟨escrowLocked, -, rfl⟩ := Option.map_eq_some_iff.mp happly
    exact .inr ⟨rfl, Option.some_ne_none _⟩
  | selectBid centerId rates =>
    have hzero := vacant_row rfl (hvacant rfl) h
    cases happly
    exact .inl hzero
  | revertAuction =>
    have hzero := vacant_row rfl (hvacant rfl) h
    cases happly
    exact .inl hzero
  | pendingTimeout =>
    have hzero := vacant_row rfl (hvacant rfl) h
    cases happly
    exact .inl hzero
  | startRoute collectorId now => cases happly; exact h.imp_right fun h => ⟨rfl, h.2⟩
  | reachDestination collectorId now => cases happly; exact h.imp_right fun h => ⟨rfl, h.2⟩
  | claimAutomatic centerId rates => cases happly; exact h
  | _ => cases happly; exact .inl rfl

/-- The UPDATE of a completion fails whatever the row is. -/
theorem completeRequest_eq {w : World} {id : String} {targetBatchId : Option String}
    {actualWeights : RewardStrategies.NumberRecord} :
    w.completeRequest id targetBatchId actualWeights = w := by
  rw [World.completeRequest, completion_undefined]
  rfl

theorem world_of_completes {id : String} (he : completes e = some id)
    (h : (system svc).step c e = some c') : c'.world = c.world := by
  unfold completes at he
  split at he
  · obtain ⟨w, hw, rfl⟩ := step_outside.mp h
    cases hw
    simp only [completeRequest_eq]
  · cases he

theorem step_secured (hC : Vacant svc c e) (h : (system svc).step c e = some c')
    (hsecured : ∀ r ∈ c.world.requests, Secured r) : ∀ r ∈ c'.world.requests, Secured r := by
  cases hcompletes : completes e with
  | some id => rwa [world_of_completes hcompletes h]
  | none =>
    refine (step_effect h).rows hsecured (fun t ht row' happly hrow => ?_) ?_ ?_ ?_
    · exact secured_change (hC t ht) happly hrow
    · exact fun row items description now hpending hrow => hrow
    · exact fun draft id now _ => .inl rfl
    · intro id row batchId weights now hsome
      rw [hcompletes] at hsome
      cases hsome

/-- Along a run in which no bid is selected, no auction reverted and no timeout written over a
request that was accepted since, collateral is locked only while a collector has the request on
hand, and every way out of that leaves none. -/
theorem escrow_secured {w : World} {es : List RaceEvent}
    (hw : ∀ r ∈ w.requests, Secured r) (hC : Along (system svc).step (Vacant svc) (quiescent w) es)
    (hrun : run (system svc).step (quiescent w) es = some c) :
    ∀ r ∈ c.world.requests, (0 < r.escrowLocked → (r.status = .accepted ∨ r.status = .enRoute ∨
      r.status = .arrived) ∧ r.collectorId ≠ none) ∧
        (canVerifyPin r.status = false → r.escrowLocked = 0) := by
  have hsecured : ∀ r ∈ c.world.requests, Secured r :=
    run_invariant (I := fun c => ∀ r ∈ c.world.requests, Secured r)
      (fun c e c' h hC hstep => step_secured hC hstep h) hw hC hrun
  intro r hr
  rcases hsecured r hr with hzero | ⟨hverify, hcollector⟩
  · exact ⟨fun hpos => absurd hzero hpos.ne', fun _ => hzero⟩
  · refine ⟨fun _ => ⟨?_, hcollector⟩, fun h => by rw [hverify] at h; cases h⟩
    revert hverify
    cases r.status <;> decide

/-- A request is accepted while the worker is about to let it expire. -/
def acceptedThenExpired : List RaceEvent :=
  .start 0 .pendingTimeouts :: answered 0 2 ++ acceptance 1 "first" :: answered 1 6 ++ answered 0 1

def abandonedThenExpired : List RaceEvent :=
  acceptance 1 "first" :: answered 1 7 ++ .start 2 (.abandonCollectionRequest "request" "first") ::
    answered 2 4 ++ .start 0 .pendingTimeouts :: answered 0 3

theorem escrow_secured_abandonedThenExpired : ∃ c : Race,
    (∃ r ∈ c.world.requests, r.status = .cancelled) ∧
    ∀ r ∈ c.world.requests, (0 < r.escrowLocked → (r.status = .accepted ∨ r.status = .enRoute ∨
      r.status = .arrived) ∧ r.collectorId ≠ none) ∧
        (canVerifyPin r.status = false → r.escrowLocked = 0) := by
  have hrun : (run (system sampleService).step (quiescent (sampleWorld [sampleRow] []))
      abandonedThenExpired).any (fun c => c.world.requests.any fun r => r.status == .cancelled) =
        true := by decide +kernel
  obtain ⟨c, hc, hcancelled⟩ := (Option.any_eq_true _ _).mp hrun
  have hsecured : ∀ r ∈ (sampleWorld [sampleRow] []).requests, Secured r := by
    intro r hr
    obtain rfl := List.mem_singleton.mp hr
    exact .inl rfl
  exact ⟨c, by simpa using hcancelled, escrow_secured hsecured (by decide +kernel) hc⟩

theorem escrow_left_locked : ∃ c, run (system sampleService).step
    (quiescent (sampleWorld [sampleRow] [])) acceptedThenExpired = some c ∧
      ∃ r ∈ c.world.requests, r.status = .cancelled ∧ 0 < r.escrowLocked := by
  have hrun : (run (system sampleService).step (quiescent (sampleWorld [sampleRow] []))
      acceptedThenExpired).any (fun c => c.world.requests.any fun r =>
        r.status == .cancelled && decide (0 < r.escrowLocked)) = true := by decide +kernel
  obtain ⟨c, hc, hlocked⟩ := (Option.any_eq_true _ _).mp hrun
  exact ⟨c, hc, by simpa using hlocked⟩

/-! ### How much is locked -/

/-- An acceptance that is written, the row it leaves, and how far its program has come. -/
structure Taking where
  collectorId : String
  escrow : ℚ
  row : CollectionRequest
  stage : Stage
deriving DecidableEq

def takingOf (w : World) (s : Stage) : Op → Option Taking
  | .writeRequest id (.accept collectorId escrow) =>
    (w.changed id (.accept collectorId escrow)).map fun row => ⟨collectorId, escrow, row, s⟩
  | _ => none

def taking (c : Race) : RaceEvent → Option Taking
  | .advance j o =>
    if o.delivery.applied then
      (stages c j).bind fun s => (pending c j).bind (takingOf c.world s)
    else none
  | _ => none

def locked (w : World) (collectorId : String) : ℚ :=
  ((w.collecting collectorId).map Request.escrowLocked).sum

def lockedBeside (w : World) (collectorId id : String) : ℚ :=
  (((w.collecting collectorId).filter fun row => row.id != id).map Request.escrowLocked).sum

/-- The collector has no more locked in other requests than was read, in amounts that binary64 adds
up to the last digit. -/
def Uncrowded (c : Race) (e : RaceEvent) : Prop :=
  ∀ t ∈ taking c e, 0 < t.escrow →
    (∀ payments ∈ t.stage.payments, Resolvable payments) ∧ ∀ read ∈ t.stage.escrows,
      Resolvable read.2 ∧ lockedBeside c.world t.collectorId t.row.id ≤ read.2.sum

instance (c : Race) (e : RaceEvent) : Decidable (Uncrowded c e) :=
  inferInstanceAs (Decidable (∀ t ∈ taking c e, _))

theorem taking_eq {t : Taking} (ht : t ∈ taking c e) (h : (system svc).step c e = some c') :
    ∃ j s id, stages c j = some s ∧
      pending c j = some (.writeRequest id (.accept t.collectorId t.escrow)) ∧ t.stage = s ∧
      c.world.changed id (.accept t.collectorId t.escrow) = some t.row ∧
      c'.world = c.world.setRequest t.row := by
  cases e with
  | advance j o =>
    rw [Option.mem_def, taking] at ht
    split at ht
    · rename_i happlied
      obtain ⟨s, hs, ht⟩ := Option.bind_eq_some_iff.mp ht
      obtain ⟨i, hi, ht⟩ := Option.bind_eq_some_iff.mp ht
      unfold takingOf at ht
      split at ht
      · rename_i id collectorId escrow
        obtain ⟨row, hrow, rfl⟩ := Option.map_eq_some_iff.mp ht
        refine ⟨j, s, id, hs, hi, rfl, hrow, ?_⟩
        obtain ⟨s', i, k, htask, rfl⟩ := step_advance.mp h
        cases hi.symm.trans (pending_eq htask)
        change c.world.after (.writeRequest id (.accept collectorId escrow)) o = _
        rw [World.after, World.update, if_pos happlied]
        change c.world.writeRequest id (.accept collectorId escrow) = _
        rw [World.writeRequest, hrow]
      · cases ht
    · cases ht
  | _ => cases ht

theorem locked_setRequest {w : World} {row : CollectionRequest} {k : String}
    (hids : (w.requests.map Request.id).Nodup) (hrow : 0 ≤ row.escrowLocked) :
    locked (w.setRequest row) k ≤ lockedBeside w k row.id + row.escrowLocked := by
  let p : CollectionRequest → Bool := fun r => r.collectorId == some k && canVerifyPin r.status
  let f : CollectionRequest → CollectionRequest := fun r => if r.id = row.id then row else r
  have hlocked : locked (w.setRequest row) k =
      (w.requests.map fun r => if p (f r) = true then (f r).escrowLocked else 0).sum := by
    change (((w.requests.map f).filter p).map Request.escrowLocked).sum = _
    rw [sum_filter, List.map_map]
    rfl
  have hbeside : lockedBeside w k row.id = (w.requests.map fun r =>
      if (r.id != row.id && p r) = true then r.escrowLocked else 0).sum := by
    change (((w.requests.filter p).filter fun r => r.id != row.id).map Request.escrowLocked).sum = _
    rw [List.filter_filter, sum_filter]
  rw [hlocked, hbeside]
  refine sum_map_le_add (k := row.id) hids hrow fun r hr => ?_
  by_cases hid : r.id = row.id
  · have hf : f r = row := if_pos hid
    rw [hf, if_pos hid]
    split
    · simp [hid]
    · simpa [hid] using hrow
  · have hf : f r = r := if_neg hid
    rw [hf, if_neg hid]
    simp [hid]

/-- The collateral a request asks for is an amount to the cent. -/
theorem requiredEscrow_fixed (svc : Service) (row : CollectionRequest) :
    requiredEscrow svc row = 0 ∨ ∃ x, requiredEscrow svc row = RewardStrategies.toFixed x 2 := by
  unfold requiredEscrow CollectionEscrowService.calculateRequiredEscrow
    RewardStrategies.calculateReward
  split
  · exact .inl rfl
  · exact .inr ⟨_, rfl⟩

theorem balance_number {s : Stage} (h : ∀ payments ∈ s.payments, Resolvable payments) :
    ∃ b : ℕ, s.balance = b / 10 ^ 4 ∧
      ((b : ℚ) / 10 ^ 4 < 2 ^ 36 → |s.number - b / 10 ^ 4| ≤ 2 ^ (-18 : ℤ)) := by
  unfold Stage.balance Stage.number
  cases hpayments : s.payments with
  | none =>
    have hcents : ((100 * s.shown : ℕ) : ℚ) / 10 ^ 4 = s.shown / 100 := by
      push_cast
      ring
    refine ⟨100 * s.shown, hcents.symm, fun hsmall => ?_⟩
    rw [hcents] at hsmall ⊢
    exact abs_parseCents_sub_le (k := 36) (by exact_mod_cast hsmall) (by norm_num)
  | some payments =>
    obtain ⟨b, hb⟩ := (h payments hpayments).sum
    exact ⟨b, hb, fun _ => hb ▸ (h payments hpayments).abs_sub_le⟩

theorem covered_exact {s : Stage} {k : String} {escrow stored : ℚ} {row : CollectionRequest}
    (hcovered : Covered s k escrow) (hpos : 0 < escrow) (hescrow : escrow = requiredEscrow svc row)
    (hstored : storedAmount escrow = some stored)
    (hpayments : ∀ payments ∈ s.payments, Resolvable payments)
    (hescrows : ∀ read ∈ s.escrows, Resolvable read.2) :
    0 ≤ stored ∧ ∃ escrows, s.escrows = some (k, escrows) ∧ escrows.sum + stored ≤ s.balance := by
  obtain ⟨m, hm, hstored'⟩ : ∃ m : ℕ, escrow = fl (m / 100) ∧ stored = m / 100 := by
    rcases requiredEscrow_fixed svc row with hzero | ⟨x, hx⟩
    · rw [hescrow, hzero] at hpos
      exact absurd hpos (lt_irrefl 0)
    · rw [← hescrow] at hx
      rw [hx] at hpos hstored ⊢
      exact storedAmount_toFixed hpos hstored
  have hsmall : (m : ℚ) / 100 < 10 ^ 10 := hstored' ▸ (abs_lt.mp (abs_storedAmount_lt hstored)).2
  rcases hcovered with hnone | ⟨escrows, hread, hcheck⟩
  · exact absurd hpos (not_lt.mpr hnone)
  · obtain ⟨b, hb, hnumber⟩ := balance_number hpayments
    rw [hm] at hcheck
    refine ⟨by rw [hstored']; positivity, escrows, hread, ?_⟩
    rw [hstored', hb]
    exact add_le_of_covered (hescrows _ hread) hnumber hsmall hcheck

theorem taking_within {t : Taking} (hd : (system svc).Disciplined c)
    (hids : (c.world.requests.map Request.id).Nodup) (hC : Uncrowded c e) (ht : t ∈ taking c e)
    (hpos : 0 < t.escrow) (h : (system svc).step c e = some c') :
    ∃ escrows, t.stage.escrows = some (t.collectorId, escrows) ∧
      locked c'.world t.collectorId ≤ t.stage.balance := by
  obtain ⟨j, s, id, hs, hi, rfl, hchanged, hworld⟩ := taking_eq ht h
  obtain ⟨hbacked, row, -, hguard⟩ := allowed_pending hd hs hi
  have hguard : Guard svc (.accept t.collectorId t.escrow) row :=
    hguard.resolve_left (by simp [queried])
  obtain ⟨old, -, happly⟩ := Option.bind_eq_some_iff.mp hchanged
  obtain ⟨stored, hstored, hrow⟩ := Option.map_eq_some_iff.mp happly
  have hlocked : t.row.escrowLocked = stored := by rw [← hrow]
  obtain ⟨hpayments, hescrows⟩ := hC t ht hpos
  obtain ⟨hnonneg, escrows, hread, hsum⟩ := covered_exact hbacked hpos hguard.2.2 hstored hpayments
    fun read hread => (hescrows read hread).1
  refine ⟨escrows, hread, ?_⟩
  rw [hworld]
  calc locked (c.world.setRequest t.row) t.collectorId
      ≤ lockedBeside c.world t.collectorId t.row.id + t.row.escrowLocked :=
        locked_setRequest hids (hlocked ▸ hnonneg)
    _ ≤ escrows.sum + stored := add_le_add (hescrows _ hread).2 hlocked.le
    _ ≤ t.stage.balance := hsum

/-- Along a run in which every acceptance that asks for collateral is written while its collector
has no more locked in other requests than the program has read, all his collateral is within the
balance that was read for it. -/
theorem collateral_within_balance (svc : Service) {w : World} {es : List RaceEvent}
    (hw : (w.requests.map Request.id).Nodup)
    (hC : Along (system svc).step Uncrowded (quiescent w) es) :
    Along (system svc).step (fun c e => ∀ c', (system svc).step c e = some c' →
      ∀ t ∈ taking c e, 0 < t.escrow → ∃ escrows, t.stage.escrows = some (t.collectorId, escrows) ∧
        locked c'.world t.collectorId ≤ t.stage.balance) (quiescent w) es := by
  refine along_strengthen
    (I := fun c => (system svc).Disciplined c ∧ (c.world.requests.map Request.id).Nodup)
    (fun c e c' hI _ hstep => ?_) (fun c e hI hC c' hstep t ht hpos => ?_)
      ⟨disciplined svc w, hw⟩ hC
  · exact ⟨step_disciplined (follows_program svc) hI.1 hstep, step_ids hstep hI.2⟩
  · exact taking_within hI.1 hI.2 hC ht hpos hstep

def twoRequests : World :=
  let w := sampleWorld [sampleRow, { sampleRow with id := "other" }] []
  { w with around := { w.around with payments := fun _ => [10] } }

def acceptanceOf (j : ℕ) (id : String) : RaceEvent :=
  .start j (.updateStatus id "first" .recolector .accepted)

/-- The collector accepts both requests; the checks of both come before either write. -/
def acceptedAtOnce : List RaceEvent :=
  acceptanceOf 0 "request" :: acceptanceOf 1 "other" :: answered 0 5 ++ answered 1 5 ++ answered 0 1

/-- He accepts one and asks for the other, which is refused. -/
def acceptedOneByOne : List RaceEvent :=
  acceptanceOf 0 "request" :: answered 0 7 ++ acceptanceOf 1 "other" :: answered 1 5

theorem collateral_within_balance_oneByOne :
    Along (system sampleService).step (fun c e => ∀ c', (system sampleService).step c e = some c' →
      ∀ t ∈ taking c e, 0 < t.escrow → ∃ escrows, t.stage.escrows = some (t.collectorId, escrows) ∧
        locked c'.world t.collectorId ≤ t.stage.balance) (quiescent twoRequests) acceptedOneByOne :=
  collateral_within_balance sampleService (by decide) (by decide +kernel)

/-- The second of the two acceptances locks fourteen tokens against ten. -/
theorem collateral_above_balance : ∃ c c' t,
    run (system sampleService).step (quiescent twoRequests) acceptedAtOnce = some c ∧
    (system sampleService).step c (.advance 1 answer) = some c' ∧
    taking c (.advance 1 answer) = some t ∧ 0 < t.escrow ∧
    t.stage.balance < locked c'.world t.collectorId := by
  have hrun : (run (system sampleService).step (quiescent twoRequests) acceptedAtOnce).any
      (fun c => ((system sampleService).step c (.advance 1 answer)).any fun c' =>
        (taking c (.advance 1 answer)).any fun t =>
          decide (0 < t.escrow ∧ t.stage.balance < locked c'.world t.collectorId)) = true := by
    decide +kernel
  obtain ⟨c, hc, h⟩ := (Option.any_eq_true _ _).mp hrun
  obtain ⟨c', hc', h⟩ := (Option.any_eq_true _ _).mp h
  obtain ⟨t, ht, h⟩ := (Option.any_eq_true _ _).mp h
  exact ⟨c, c', t, hc, hc', ht, of_decide_eq_true h⟩

end Livora.CollectionCollateral
