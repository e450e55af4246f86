import Livora.CollectionRaces
import Livora.NamedPools

/-! The timeout of the requests that nobody takes. The worker looks for requests by the time of
their creation and cancels them later by their ids; beside every run it is kept since when each
request waits for a collector. -/

namespace Livora.PendingTimeouts

open TransitionRuns EffectPrograms EffectPrograms.Action ProgramPools ProgramPools.System NamedPools
open CollectionBooks CollectionServices CollectionStages CollectionRaces
open CollectionServices.CollectionsTimeoutWorker (expireEach processPendingTimeouts)

/-! ### What the worker has read -/

/-- What a program has read: the clock, and the requests that are to expire. -/
structure Sweep where
  clock : Option ℕ
  found : List CollectionRequest

def noteSweep (t : Sweep) (i : Op) (r : Except Failure (Reply i)) : Sweep :=
  match i, r with
  | .clock, .ok now => { t with clock := some now }
  | .findExpiredPending _, .ok rows => { t with found := rows }
  | _, _ => t

/-- The worker asks for the requests created half an hour before its clock, and cancels what it has
found. -/
def Sweeps (t : Sweep) : Op → Prop
  | .findExpiredPending before => ∃ now ∈ t.clock, before = now - minutes 30
  | .writeRequest id .pendingTimeout => ∃ row ∈ t.found, row.id = id
  | _ => True

def sweeping : Protocol Sweep (Caller × Op) fun i => Except Failure (Reply i.2) where
  Allowed t i := match i.1 with
    | .pendingTimeouts => Sweeps t i.2
    | _ => True
  next t i r := match i.1 with
    | .pendingTimeouts => noteSweep t i.2 r
    | _ => t

def Sweep.first : Sweep := ⟨none, []⟩

theorem follows_expireEach {t : Sweep} {ids : List String}
    (h : ∀ id ∈ ids, ∃ row ∈ t.found, row.id = id) :
    Follows (under sweeping .pendingTimeouts) t (expireEach ids .pendingTimeout) := by
  unfold expireEach
  induction ids with
  | nil => exact follows_pure ()
  | cons id rest ih =>
    have hwrite : Obeys (under sweeping .pendingTimeouts) (fun u _ => u = t) t
        (recover (do let _ ← call (.writeRequest id .pendingTimeout); pure ()) ()) :=
      obeys_recover.mpr (obeys_call.mpr ⟨h id List.mem_cons_self, fun _ => rfl, fun _ => rfl⟩)
    refine obeys_bind.mpr (hwrite.mono ?_ fun _ _ _ => trivial)
    rintro u x rfl
    exact ih fun id hid => h id (List.mem_cons_of_mem _ hid)

theorem follows_processPendingTimeouts :
    Follows (under sweeping .pendingTimeouts) Sweep.first processPendingTimeouts := by
  refine follows_call trivial fun now => follows_call ⟨now, rfl, rfl⟩ fun rows => ?_
  exact follows_expireEach fun id hid => List.mem_map.mp hid

theorem keeps_sweeping (svc : Service) (caller : Caller) :
    Keeps sweeping (fun _ _ => True) Sweep.first (inName caller (program svc caller).run) := by
  refine (keeps_inName (ρ := fun i => Except Failure (Reply i)) (Q := fun _ _ => True)).mpr ?_
  cases caller with
  | pendingTimeouts => exact follows_bind follows_processPendingTimeouts fun _ _ => trivial
  | _ => exact keeps_free (fun _ _ => trivial) _ _

/-- The calls about collections with their callers, and with what the worker has read. -/
def swept (svc : Service) : System Caller World Outcome Outside (Stage × Sweep) (Caller × Op)
    (fun i => Except Failure (Reply i.2)) (Caller × Except Failure Result) :=
  named (system svc) sweeping Sweep.first

abbrev Office := Pool World (Task (Stage × Sweep) (Caller × Op)
  (fun i => Except Failure (Reply i.2)) (Caller × Except Failure Result))

theorem keeps_swept (svc : Service) (caller : Caller) :
    Keeps (swept svc).protocol (fun _ _ => True) (swept svc).first ((swept svc).program caller) :=
  keeps_beside (S := system svc) (Q := fun _ _ => True) (keeps_sweeping svc caller)

/-! ### What is found -/

/-- What the worker has read is so: the clock has not gone back, and what it found was created more
than half an hour ago. -/
structure Sound (t : Sweep) (w : World) : Prop where
  clock : ∀ now ∈ t.clock, now ≤ w.now
  found : ∀ row ∈ t.found, row.createdAt + minutes 30 < w.now ∧
    ∃ r, w.findRequest row.id = some r ∧ r.createdAt = row.createdAt

variable {svc : Service} {c c' : Office} {e : RaceEvent} {w w' : World} {t : Sweep} {i : Op}
    {o : Outcome}

theorem now_after : (w.after i o).now = w.now := by
  unfold World.after World.update
  split
  · cases i with
    | writeRequest id change => simp only [World.effect, World.writeRequest]; split <;> rfl
    | editRequest id householdId items description =>
      simp only [World.effect, World.editRequest]
      split <;> rfl
    | createRequest draft => simp only [World.effect, World.createRequest]; split <;> rfl
    | updateBid bidId offer => simp only [World.effect, World.updateBid]; split <;> rfl
    | createBid requestId centerId offer => simp only [World.effect, World.createBid]; split <;> rfl
    | withdrawBid bidId => simp only [World.effect, World.withdrawBid]; split <;> rfl
    | commitSelection id bid others =>
      simp only [World.effect, World.commitSelection]; split <;> rfl
    | purgeRoute id key => cases key <;> rfl
    | _ => rfl
  · rfl

theorem apply_createdAt {change : Change} {now : ℕ} {row row' : CollectionRequest}
    (h : change.apply now row = some row') : row'.createdAt = row.createdAt := by
  cases change with
  | accept collectorId escrow =>
    obtain ⟨escrowLocked, -, rfl⟩ := Option.map_eq_some_iff.mp h
    rfl
  | _ => cases h; rfl

theorem createdAt_kept {c : Race} {id : String} {row : CollectionRequest} (h : RowEffect c e id w)
    (hrow : c.world.findRequest id = some row) :
    ∃ r, w.findRequest id = some r ∧ r.createdAt = row.createdAt := by
  cases h with
  | same h => exact ⟨row, h.trans hrow, rfl⟩
  | change ch old new hwrites hfound happly h =>
    cases hrow.symm.trans hfound
    exact ⟨new, h, apply_createdAt happly⟩
  | edit old items description hfound hpending h =>
    cases hrow.symm.trans hfound
    exact ⟨_, h, rfl⟩
  | create draft hcreates hfresh h => rw [hfresh] at hrow; cases hrow
  | complete old batchId weights hcompletes hfound hverify h =>
    cases hrow.symm.trans hfound
    exact ⟨_, h, rfl⟩

theorem step_now (h : (swept svc).step c e = some c') : c.world.now ≤ c'.world.now := by
  cases e with
  | start j a =>
    obtain ⟨-, rfl⟩ := step_start.mp h
    exact le_rfl
  | advance j o =>
    obtain ⟨s, i, k, -, rfl⟩ := step_advance.mp h
    exact now_after.ge
  | stop j =>
    obtain ⟨-, rfl⟩ := step_stop.mp h
    exact le_rfl
  | outside d =>
    obtain ⟨w, hw, rfl⟩ := step_outside.mp h
    cases d with
    | pass ms => cases hw; exact Nat.le_add_right _ _
    | amend around => cases hw; exact le_rfl
    | complete id batchId weights =>
      cases hw
      simp only [World.completeRequest]
      split
      · split <;> exact le_rfl
      · exact le_rfl

theorem sound_step (hstep : (swept svc).step c e = some c') (h : Sound t c.world) :
    Sound t c'.world := by
  have hnow := step_now hstep
  refine ⟨fun now hclock => (h.clock now hclock).trans hnow, fun row hrow => ?_⟩
  obtain ⟨hcreated, r, hr, heq⟩ := h.found row hrow
  obtain ⟨r', hr', heq'⟩ := createdAt_kept (step_row (step_forget hstep) row.id) hr
  exact ⟨hcreated.trans_le hnow, r', hr', heq'.trans heq⟩

theorem sound_first : Sound Sweep.first w := by
  refine ⟨fun now hnow => ?_, fun row hrow => absurd hrow List.not_mem_nil⟩
  cases hnow

theorem sound_note (hids : (w.requests.map Request.id).Nodup) (hi : Sweeps t i) (h : Sound t w) :
    Sound (noteSweep t i (w.reply i o)) w := by
  cases hreply : w.reply i o with
  | error e => cases i <;> exact h
  | ok x =>
    cases i with
    | clock =>
      cases hreply
      refine ⟨fun now hnow => ?_, h.found⟩
      cases hnow
      exact le_rfl
    | findExpiredPending before =>
      obtain ⟨-, rfl⟩ := PinVerification.Delivery.answer_ok hreply
      refine ⟨h.clock, fun row hrow => ?_⟩
      obtain ⟨now, hnow, hbefore⟩ := hi
      have hle := h.clock now hnow
      obtain ⟨hmem, hexpired⟩ := List.mem_filter.mp (List.mem_of_mem_take hrow)
      rw [Bool.and_eq_true, decide_eq_true_eq, hbefore] at hexpired
      exact ⟨by omega, row, findRequest_of_mem hids hmem, rfl⟩
    | _ => exact h

/-- The programs keep to the protocol, and what they have read is so. -/
structure Kept (svc : Service) (c : Office) : Prop where
  disciplined : (swept svc).Disciplined c
  ids : (c.world.requests.map Request.id).Nodup
  sound : ∀ j s, stages c j = some s → Sound s.2 c.world

theorem step_kept (hstep : (swept svc).step c e = some c') (h : Kept svc c) : Kept svc c' := by
  refine ⟨step_disciplined (keeps_swept svc) h.disciplined hstep,
    step_ids (step_forget hstep) h.ids, ?_⟩
  have hsound : ∀ j s, stages c j = some s → Sound s.2 c'.world :=
    fun j s hs => sound_step hstep (h.sound j s hs)
  have hupdate : ∀ {j : ℕ} {u : Option (Stage × Sweep)}, (∀ s, u = some s → Sound s.2 c'.world) →
      ∀ k s, Function.update (stages c) j u k = some s → Sound s.2 c'.world := by
    intro j u hu k s hs
    by_cases hk : k = j
    · subst hk
      exact hu s (by simpa using hs)
    · exact hsound k s (by simpa [hk] using hs)
  cases e with
  | start j a =>
    obtain ⟨-, rfl⟩ := step_start.mp hstep
    rw [stages_update]
    refine hupdate fun s hs => ?_
    cases hs
    exact sound_first
  | advance j o =>
    obtain ⟨⟨s, t⟩, ⟨caller, i⟩, k, ht, rfl⟩ := step_advance.mp hstep
    rw [stages_update]
    refine hupdate fun s' hs' => ?_
    cases hs'
    have hallowed := (h.disciplined j _ ht).1
    have hstage := h.sound j _ (stages_eq ht)
    cases caller with
    | pendingTimeouts =>
      have hnoted := sound_note (o := o) h.ids hallowed hstage
      exact sound_step hstep hnoted
    | _ => exact sound_step hstep hstage
  | stop j =>
    obtain ⟨-, rfl⟩ := step_stop.mp hstep
    rw [stages_update]
    exact hupdate fun s hs => by cases hs
  | outside d =>
    obtain ⟨w, hw, rfl⟩ := step_outside.mp hstep
    exact hsound

/-! ### Since when a request waits -/

/-- The request is PENDING, and no collector has it. -/
def Waiting (row : CollectionRequest) : Prop := row.status = .pending ∧ row.collectorId = none

instance (row : CollectionRequest) : Decidable (Waiting row) := inferInstanceAs (Decidable (_ ∧ _))

def waits (w : World) (id : String) : Bool := (w.findRequest id).any fun row => decide (Waiting row)

/-- A run of the calls, with the times since which the requests wait. -/
structure Watched where
  office : Office
  since : String → Option ℕ

/-- Since when a request waits after a step, where `since` says it of the time before. -/
def waitsSince (before after : World) (id : String) (since : Option ℕ) : Option ℕ :=
  if waits after id then (if waits before id then since else some after.now) else none

def watch (svc : Service) (c : Watched) (e : RaceEvent) : Option Watched :=
  ((swept svc).step c.office e).map fun next =>
    ⟨next, fun id => waitsSince c.office.world next.world id (c.since id)⟩

/-- The cancellation that the worker writes, with the request that it finds. -/
def cancels (c : Office) : RaceEvent → Option (String × CollectionRequest)
  | .advance j o =>
    match o.delivery.applied, pending c j with
    | true, some (.pendingTimeouts, .writeRequest id .pendingTimeout) =>
      (c.world.findRequest id).map fun row => (id, row)
    | _, _ => none
  | _ => none

/-- The worker cancels only what has been waiting for more than half an hour. -/
def Waited (c : Watched) (e : RaceEvent) : Prop :=
  ∀ t ∈ cancels c.office e, Waiting t.2 ∧
    ∃ since ∈ c.since t.1, since + minutes 30 < c.office.world.now

instance (c : Watched) (e : RaceEvent) : Decidable (Waited c e) :=
  inferInstanceAs (Decidable (∀ t ∈ cancels c.office e, _))

/-- What the worker cancels still waits; it has done so since its creation, or else came back more
than half an hour ago. -/
def StillWaiting (c : Watched) (e : RaceEvent) : Prop :=
  ∀ t ∈ cancels c.office e, Waiting t.2 ∧
    ∃ since ∈ c.since t.1, since = t.2.createdAt ∨ since + minutes 30 < c.office.world.now

instance (c : Watched) (e : RaceEvent) : Decidable (StillWaiting c e) :=
  inferInstanceAs (Decidable (∀ t ∈ cancels c.office e, _))

theorem cancels_eq {x : String × CollectionRequest} (h : x ∈ cancels c e) :
    ∃ j o, e = .advance j o ∧
    pending c j = some (.pendingTimeouts, .writeRequest x.1 .pendingTimeout) ∧
      c.world.findRequest x.1 = some x.2 := by
  cases e with
  | advance j o =>
    simp only [cancels] at h
    split at h
    · obtain ⟨row, hrow, rfl⟩ := Option.map_eq_some_iff.mp h
      exact ⟨j, o, rfl, ‹_›, hrow⟩
    · cases h
  | _ => cases h

theorem cancels_old {x : String × CollectionRequest} (hkept : Kept svc c) (h : x ∈ cancels c e) :
    x.2.createdAt + minutes 30 < c.world.now := by
  obtain ⟨j, o, -, hpending, hfound⟩ := cancels_eq h
  obtain ⟨s, hs⟩ := stage_of_pending hpending
  obtain ⟨row, hrow, hid⟩ := allowed_pending hkept.disciplined hs hpending
  obtain ⟨hold, r, hr, heq⟩ := (hkept.sound j s hs).found row hrow
  rw [hid] at hr
  cases hfound.symm.trans hr
  rw [heq]
  exact hold

theorem waited_iff {c : Watched} (hkept : Kept svc c.office) : Waited c e ↔ StillWaiting c e := by
  refine forall_congr' fun t => forall_congr' fun ht => and_congr_right fun _ =>
    exists_congr fun since => and_congr_right fun _ => ?_
  have hold := cancels_old hkept ht
  constructor
  · exact .inr
  · rintro (rfl | hback)
    · exact hold
    · exact hback

theorem along_kept {C C' : Watched → RaceEvent → Prop} {c : Watched} {es : List RaceEvent}
    (hC : ∀ c e, Kept svc c.office → C c e → C' c e) (hkept : Kept svc c.office)
    (h : Along (watch svc) C c es) : Along (watch svc) C' c es := by
  refine along_strengthen (I := fun c => Kept svc c.office) (fun c e c' hI _ hstep => ?_) hC hkept h
  obtain ⟨next, hnext, rfl⟩ := Option.map_eq_some_iff.mp hstep
  exact step_kept hnext hI

/-- Nobody has called, and `since` says since when the requests wait. -/
def closed (w : World) (since : String → Option ℕ) : Watched := ⟨⟨w, fun _ => none⟩, since⟩

theorem kept_closed (hw : (w.requests.map Request.id).Nodup) (since : String → Option ℕ) :
    Kept svc (closed w since).office := by
  refine ⟨fun j t ht => ?_, hw, fun j s hs => ?_⟩
  · cases ht
  · cases hs

/-- Along a run the worker cancels only requests that have waited for more than half an hour exactly
where each that it cancels still waits then, and has done so since its creation or came back more
than half an hour ago. -/
theorem cancelled_after_waiting (svc : Service) {w : World} (since : String → Option ℕ)
    (es : List RaceEvent) (hw : (w.requests.map Request.id).Nodup) :
    Along (watch svc) Waited (closed w since) es ↔
      Along (watch svc) StillWaiting (closed w since) es :=
  ⟨along_kept (fun _ _ hkept => (waited_iff hkept).mp) (kept_closed hw since),
    along_kept (fun _ _ hkept => (waited_iff hkept).mpr) (kept_closed hw since)⟩

/-! ### Three requests -/

def hourOld : Watched := closed (sampleWorld [sampleRow] []) fun _ => some 0

def timeout (n : ℕ) : List RaceEvent := .start 0 .pendingTimeouts :: answered 0 n

theorem cancelled_after_waiting_hour : Along (watch sampleService) Waited hourOld (timeout 3) ∧
    (run (watch sampleService) hourOld (timeout 3)).any (fun c =>
      statusOf c.office.world "request" == some .cancelled) = true :=
  ⟨(cancelled_after_waiting sampleService _ (timeout 3) (by decide)).mpr (by decide +kernel),
    by decide +kernel⟩

/-- A request that was accepted after the worker had found it, and one that its collector gave back
a moment ago. -/
theorem cancelled_at_once :
    ¬Along (watch sampleService) Waited hourOld
      (timeout 2 ++ acceptance 1 "first" :: answered 1 6 ++ answered 0 1) ∧
    ¬Along (watch sampleService) Waited hourOld
      (acceptance 1 "first" :: answered 1 7 ++
        .start 2 (.abandonCollectionRequest "request" "first") ::
        answered 2 4 ++ timeout 3) := by
  constructor <;> decide +kernel

end Livora.PendingTimeouts
