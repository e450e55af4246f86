import Livora.BatchCalls
import Livora.BatchReceptions

/-! The life of a batch, over all services that write its status and the worker. Where every write
finds the batch in the status in which it was read, a batch goes only by the moves listed here and
never comes back to a status. Four of them are not in the table of `BatchStateMachine`. -/

namespace Livora.BatchLifecycles

open TransitionRuns EffectPrograms EffectPrograms.Action ProgramPools ProgramPools.System
open JobQueues KeyedRows BatchBooks BatchDesk BatchServices BatchWorker BatchStages
open BatchReceptions (isAccepted mem_of_forgotten jobs_attempt)
open StockBooks (Letters)
open StoreBooks (Failure)

/-! ### The moves -/

/-- Where a batch goes from each status; one that is not there yet is opened. -/
def moves : Option BatchStatus → List BatchStatus
  | none => [.open]
  | some .open => [.inTransit, .processing, .partiallyAccepted, .flaggedForReview]
  | some .inTransit => [.processing, .partiallyAccepted, .flaggedForReview, .rerouted]
  | some .flaggedForReview => [.processing, .disputed]
  | some .disputed => [.received]
  | some .processing => [.received]
  | some .partiallyAccepted => [.received]
  | some .received => [.consolidated]
  | some .consolidated => []
  | some .rerouted => []

def Leads (old new : Option BatchStatus) : Prop := ∃ status ∈ moves old, new = some status

def rank : Option BatchStatus → ℕ
  | none => 0
  | some .open => 1
  | some .inTransit => 2
  | some .flaggedForReview => 3
  | some .disputed => 4
  | some .processing => 4
  | some .partiallyAccepted => 4
  | some .received => 5
  | some .consolidated => 6
  | some .rerouted => 6

theorem rank_lt {old new : Option BatchStatus} (h : Leads old new) : rank old < rank new := by
  obtain ⟨status, hmem, rfl⟩ := h
  revert hmem
  cases old with
  | none => cases status <;> decide
  | some old => cases old <;> cases status <;> decide

def Steps (old new : Option BatchStatus) : Prop := new = old ∨ Leads old new

theorem accepted_of_leads {old new : BatchStatus} (h : Leads (some old) (some new))
    (hold : isAccepted old = true) :
    isAccepted new = true := by
  obtain ⟨status, hmem, hnew⟩ := h
  cases hnew
  revert hmem hold
  cases old <;> cases new <;> decide

theorem steps_received {old : BatchStatus} (hold : isAccepted old = true)
    (hfree : old ≠ .consolidated) :
    Steps (some old) (some .received) := by
  cases old with
  | processing => exact Or.inr ⟨.received, by decide, rfl⟩
  | partiallyAccepted => exact Or.inr ⟨.received, by decide, rfl⟩
  | received => exact Or.inl rfl
  | consolidated => exact absurd rfl hfree
  | _ => cases hold

/-! ### The programs -/

/-- Only a batch on its way is given a new route: `validateTransition` has none for one that is
OPEN. -/
def Routes (s : Stage) : Op → Prop
  | .reroute _ _ _ => ∀ b ∈ s.rows, b.status = .inTransit
  | _ => True

def isReroute : Op → Bool
  | .reroute _ _ _ => true
  | _ => false

theorem plain_routes : BatchCalls.Plain fun i => isReroute i = false where
  findBatch _ := rfl
  findBatches _ := rfl
  findUser _ := rfl
  now := rfl
  updateBatch _ _ _ := rfl
  consolidate _ _ _ := rfl
  emit _ _ := rfl
  uploadManifest _ := rfl
  findWallets _ _ := rfl
  notarize _ _ := rfl
  receive _ := rfl
  takeJob _ := rfl
  finishJob _ _ _ := rfl

def routed : Protocol Stage Op fun i => Except Failure (Reply i) :=
  BatchStages.protocol.under Routes

def lifecycle : Protocol Stage Op fun i => Except Failure (Reply i) :=
  BatchStages.protocol.under fun s i => Allowed s i ∧ Routes s i

section Programs

variable {α : Type} {s : Stage} {id userId : String}

theorem routed_of_only {a : Work α} (h : Only (fun i => isReroute i = false) a) :
    Follows routed s a := by
  refine h.follows_of_allowed fun s i hi => ?_
  cases i with
  | reroute id newCenterId dispute => cases hi
  | _ => trivial

theorem lenient : Lenient routed where
  emit _ _ _ := ⟨trivial, fun _ => rfl⟩
  findUser _ _ := ⟨trivial, fun _ => rfl⟩
  now _ := ⟨trivial, fun _ => rfl⟩

theorem routed_rerouteBatch {newCenterId : String} {reason proofPhotoUrl : Option String} :
    Follows routed s (rerouteBatch id userId newCenterId reason proofPhotoUrl) := by
  refine follows_requireBatch trivial fun batch => follows_require fun _ =>
    follows_require fun hfound =>
    follows_validate fun hallows => follows_require fun _ => lenient.requireCenter ?_
  refine follows_call (fun b hb => ?_) fun _ => ?_
  · obtain rfl := List.mem_singleton.mp hb
    -- OPEN passes the check of the service, and fails that of the table
    simp only [Bool.or_eq_true, beq_iff_eq] at hfound
    apply hfound.resolve_left
    intro hopen
    rw [hopen] at hallows
    cases hallows
  · exact lenient.tellCenter fun _ => follows_pass (lenient.emit _ _) fun _ =>
      follows_pass (lenient.emit _ _) fun _ => follows_pass (lenient.emit _ _) fun _ =>
        follows_pure _

theorem routed_service (svc : Service) (caller : Caller) (e : Endpoint) :
    Follows routed s (service svc caller e) := by
  have hupdate (id : String) (data : BatchData) : isReroute (.updateBatch id data) = false := rfl
  have hjob (data : BatchJob) : isReroute (.addJob data) = false := rfl
  have hone {a : Work Batch} (h : Only (fun i => isReroute i = false) a) : Follows routed s
    (one a) :=
    routed_of_only (only_bind h fun b => only_pure _)
  cases e with
  | update id destinationCenterId => exact hone plain_routes.only_updateBatch
  | receive id dto => exact hone (plain_routes.only_receiveBatch hupdate hjob)
  | approveFlagged id => exact hone (plain_routes.only_approveFlaggedBatch hupdate hjob)
  | overrideDiscrepancy id note => exact hone (plain_routes.only_approveFlaggedBatch hupdate hjob)
  | fiatSettlement id => exact hone plain_routes.only_fiatSettlement
  | dispute id reason => exact hone plain_routes.only_disputeBatch
  | resolveDispute id materialsActual resolutionNote => exact hone plain_routes.only_resolveDispute
  | reroute id newCenterId reason proofPhotoUrl =>
    exact follows_bind routed_rerouteBatch fun _ _ => follows_pure _
  | consolidate batchIds =>
    exact routed_of_only (only_bind plain_routes.only_createConsolidatedBatch fun row =>
      only_pure _)

theorem routed_program (svc : Backend) (actor : Actor) :
    Follows routed .first (program svc actor) := by
  cases actor with
  | endpoint caller e =>
    refine follows_bind ?_ fun _ _ => follows_pure _
    exact follows_require fun _ => routed_service svc.service caller e
  | worker n =>
    exact follows_bind (routed_of_only (plain_routes.only_attempt n)) fun _ _ => follows_pure _

theorem keeps_program (svc : Backend) (actor : Actor) :
    Keeps lifecycle (fun _ _ => True) .first (program svc actor).run := by
  have hstages : Keeps (BatchStages.protocol.under Allowed) (fun _ _ => True) .first
    (program svc actor).run :=
    follows_program svc actor
  exact (Keeps.both hstages (routed_program svc actor)).mono fun _ _ _ => trivial

end Programs

/-! ### The writes -/

def race (svc : Backend) :
    System Actor World Outcome Outside Stage Op (fun i => Except Failure (Reply i))
    (Except Failure (Option Answer)) :=
  system svc lifecycle .first

def statusOf (w : World) (id : String) : Option BatchStatus := (w.findBatch id).map Batch.status

/-- A write of a status finds the batch in the status in which it was read, a consolidation finds
its batches RECEIVED, and the worker does not find its batch consolidated. -/
def freshCall (w : World) (s : Stage) : Op → Bool
  | .updateBatch id data =>
    data.status.isNone || s.rows.all fun b => (statusOf w id).all (· == b.status)
  | .reroute id _ _ => s.rows.all fun b => (statusOf w id).all (· == b.status)
  | .consolidate _ _ batchIds => batchIds.all fun id => (statusOf w id).all (· == .received)
  | .receive receipt => statusOf w receipt.batchId != some .consolidated
  | _ => true

def fresh (c : Race Stage) : RaceEvent → Bool
  | .advance j o => !o.delivery.applied ||
    match stages c j, pending c j with
    | some s, some i => freshCall c.world s i
    | _, _ => true
  | _ => true

def Begun (w : World) (id : String) : Prop :=
  ∃ status, statusOf w id = some status ∧ isAccepted status = true

structure Told (w : World) (s : Stage) : Prop where
  wrote : ∀ data updated, s.wrote = some (data, updated) →
    data.status = some .processing ∨ data.status = some .partiallyAccepted → Begun w updated.id
  taken : ∀ job, s.job = some job → job.batchId ≠ "" → Begun w job.batchId

def Queued (w : World) : Prop := ∀ job ∈ w.jobs, job.data.batchId ≠ "" → Begun w job.data.batchId

section Writes

variable {t : Letters} {w w' : World} {s : Stage} {i : Op} {o : Outcome} {id : String}
    {b read : Batch}
  {data : BatchData}

theorem Begun.steps (h : Begun w id) (hsteps : Steps (statusOf w id) (statusOf w' id)) :
    Begun w' id := by
  obtain ⟨status, hstatus, haccepted⟩ := h
  rw [hstatus] at hsteps
  rcases hsteps with hsame | hleads
  · exact ⟨status, hsame, haccepted⟩
  · obtain ⟨new, hmem, hnew⟩ := hleads
    exact ⟨new, hnew, accepted_of_leads ⟨new, hmem, rfl⟩ haccepted⟩

theorem Told.steps (h : Told w s) (hsteps : ∀ id, Steps (statusOf w id) (statusOf w' id)) :
    Told w' s where
  wrote data updated hwrote hstatus := (h.wrote data updated hwrote hstatus).steps (hsteps _)
  taken job hjob hnamed := (h.taken job hjob hnamed).steps (hsteps _)

theorem told_first : Told w .first where
  wrote _ _ h := by cases h
  taken _ h := by cases h

theorem moves_update (h : Update read data) {status : BatchStatus}
    (hstatus : data.status = some status) :
    status ∈ moves (some read.status) := by
  cases h with
  | dispatch destinationCenterId hfound =>
    cases hstatus
    rw [hfound]
    decide
  | flag materialsActual note hfound =>
    cases hstatus
    rcases hfound with hfound | hfound <;> rw [hfound] <;> decide
  | accept isPartial materialsActual note hfound =>
    cases hstatus
    rcases hfound with hfound | hfound <;> rw [hfound] <;> cases isPartial <;> decide
  | approve note hfound =>
    cases hstatus
    rw [hfound]
    decide
  | dispute note hfound =>
    cases hstatus
    rw [hfound]
    decide
  | resolve materialsActual note hfound =>
    cases hstatus
    rw [hfound]
    decide
  | settle now hfound => cases hstatus

theorem steps_change (htold : Told w s) (hallowed : Allowed s i ∧ Routes s i)
    (hfresh : freshCall w s i = true)
    (hb : w.findBatch id = some b) : Steps (some b.status) (some (World.change o i b).status) := by
  have hid : b.id = id := key_of_lookup hb
  have hstatus : statusOf w id = some b.status := congrArg (Option.map Batch.status) hb
  obtain ⟨hallowed, hroutes⟩ := hallowed
  cases i with
  | updateBatch id' data =>
    obtain ⟨read, -, hrows, hupdate⟩ := hallowed
    simp only [World.change]
    split
    · rename_i hid'
      cases hdata : data.status with
      | none => exact Or.inl (by simp only [BatchDesk.set, hdata, Option.getD_none])
      | some status =>
        have hread : b.status = read.status := by
          simpa [freshCall, hdata, hrows, hid'.symm.trans hid, hstatus] using hfresh
        refine Or.inr ⟨status, hread ▸ moves_update hupdate hdata, ?_⟩
        simp only [BatchDesk.set, hdata, Option.getD_some]
    · exact Or.inl rfl
  | reroute id' newCenterId dispute =>
    obtain ⟨read, -, hrows, -⟩ := hallowed
    simp only [World.change]
    split
    · rename_i hid'
      have hread : b.status = read.status := by
        simpa [freshCall, hrows, hid'.symm.trans hid, hstatus] using hfresh
      have htransit : read.status = .inTransit := hroutes read (by simp [hrows])
      rw [hread, htransit]
      exact Or.inr ⟨.rerouted, by decide, rfl⟩
    · exact Or.inl rfl
  | consolidate centerId totalWeight batchIds =>
    simp only [World.change]
    split
    · rename_i hmem
      have hreceived : b.status = .received := by
        have hall := List.all_eq_true.mp hfresh b.id (List.contains_iff_mem.mp hmem)
        rw [hid, hstatus] at hall
        exact beq_iff_eq.mp hall
      rw [hreceived]
      exact Or.inr ⟨.consolidated, by decide, rfl⟩
    · exact Or.inl rfl
  | receive receipt =>
    obtain ⟨job, hreceives⟩ := hallowed
    simp only [World.change, World.receivedAs]
    split
    · rename_i hid'
      have hreceipt : receipt.batchId = id := hid'.symm.trans hid
      obtain ⟨status, hfound, haccepted⟩ := htold.taken job hreceives.taken hreceives.named
      rw [← hreceives.batchId, hreceipt, hstatus] at hfound
      cases hfound
      have hfree : b.status ≠ .consolidated := by
        intro hconsolidated
        apply bne_iff_ne.mp hfresh
        rw [hreceipt, hstatus, hconsolidated]
      exact steps_received haccepted hfree
    · exact Or.inl rfl
  | _ => exact Or.inl rfl

theorem steps_after (htold : Told w s) (hallowed : Allowed s i ∧ Routes s i)
    (hfresh : o.delivery.applied = true → freshCall w s i = true) (id : String) :
    Steps (statusOf w id) (statusOf (w.after t i o) id) := by
  rcases World.after_cases t w i o with ⟨jobs, hsame, -⟩ | ⟨happlied, hattempt⟩
  · rw [hsame]
    exact Or.inl rfl
  · have hfind : (w.after t i o).findBatch id = (w.findBatch id).map (World.change o i) := by
      unfold World.findBatch
      rw [World.batches_attempt hattempt, lookup_map fun _ => World.change_id]
    unfold statusOf
    rw [hfind]
    cases hb : w.findBatch id with
    | none => exact Or.inl rfl
    | some b => exact steps_change htold hallowed (hfresh happlied) hb

theorem queued_after (h : Queued w) (htold : Told w s) (hallowed : Allowed s i)
    (hsteps : ∀ id, Steps (statusOf w id) (statusOf (w.after t i o) id)) :
    Queued (w.after t i o) := by
  intro job hjob hnamed
  rcases World.after_cases t w i o with ⟨jobs, hsame, hdata⟩ | ⟨-, hattempt⟩
  · rw [hsame] at hjob
    obtain ⟨old, hold, heq⟩ := hdata job hjob
    rw [← heq] at hnamed ⊢
    exact (h old hold hnamed).steps (hsteps _)
  · rcases jobs_attempt hattempt with hsame | ⟨data, rfl, hadded⟩
    · rw [hsame] at hjob
      exact (h job hjob hnamed).steps (hsteps _)
    · rw [hadded] at hjob
      rcases List.mem_append.mp hjob with hjob | hjob
      · exact (h job hjob hnamed).steps (hsteps _)
      · obtain rfl := List.mem_singleton.mp hjob
        obtain ⟨b, updated, written, henqueues⟩ := hallowed
        have hbegun := htold.wrote written updated henqueues.wrote henqueues.status
        rw [← henqueues.batchId] at hbegun
        exact hbegun.steps (hsteps _)

theorem told_next (h : Queued w) (htold : Told w s)
    (hsteps : ∀ id, Steps (statusOf w id) (statusOf (w.after t i o) id)) :
    Told (w.after t i o) (BatchStages.next s i (w.reply t i o)) := by
  have hkept := htold.steps hsteps
  cases i with
  | updateBatch id data =>
    cases hreply : w.reply t (.updateBatch id data) o with
    | error e => exact hkept
    | ok updated =>
      refine ⟨fun data' updated' hwrote hstatus => ?_, hkept.taken⟩
      cases hwrote
      obtain ⟨-, hattempt, hfound⟩ := World.updateBatch_ok hreply
      have hwritten : updated.status = data.status.getD updated.status := by
        have hafter : (w.after t (.updateBatch id data) o).findBatch id =
            (w.findBatch id).map (World.change o (.updateBatch id data)) := by
          unfold World.findBatch
          rw [World.batches_attempt hattempt, lookup_map fun _ => World.change_id]
        rw [hafter] at hfound
        obtain ⟨b, hb, rfl⟩ := Option.map_eq_some_iff.mp hfound
        simp only [World.change, if_pos (key_of_lookup hb), BatchDesk.set]
        cases data.status <;> rfl
      refine ⟨updated.status, ?_, ?_⟩
      · rw [statusOf, key_of_lookup hfound, hfound, Option.map_some]
      · rw [hwritten]
        rcases hstatus with hstatus | hstatus <;> rw [hstatus] <;> rfl
  | takeJob n =>
    refine ⟨hkept.wrote, fun job hjob hnamed => ?_⟩
    change ((waiting w.jobs n).map Job.take).map Job.data = some job at hjob
    rw [Option.map_map] at hjob
    obtain ⟨old, hold, rfl⟩ := Option.map_eq_some_iff.mp hjob
    rw [Function.comp_apply, Job.take_data] at hnamed ⊢
    exact (h old (mem_of_waiting hold) hnamed).steps (hsteps _)
  | findBatch id => cases w.reply t (.findBatch id) o <;> exact ⟨hkept.wrote, hkept.taken⟩
  | findBatches ids => cases w.reply t (.findBatches ids) o <;> exact ⟨hkept.wrote, hkept.taken⟩
  | _ => exact hkept

theorem outside_steps {d : Outside} (h : Queued w) (hw : outside w d = some w') :
    Queued w' ∧ ∀ id, Steps (statusOf w id) (statusOf w' id) := by
  have hjobs (n : ℕ) (f : Job BatchJob → Job BatchJob) (hf : ∀ job, (f job).data = job.data) :
      Queued { w with jobs := w.jobs.modify n f } := by
    intro job hjob hnamed
    obtain ⟨old, hold, hdata⟩ := data_of_mem_modify hf hjob
    rw [← hdata] at hnamed ⊢
    exact h old hold hnamed
  cases d with
  | «open» id collectorId centerId =>
    obtain ⟨hnone, hw⟩ := Option.ite_none_right_eq_some.mp hw
    cases hw
    have hsteps (id' : String) : Steps (statusOf w id')
        (statusOf { w with batches := w.batches ++
          [openBatch id collectorId centerId w.now] } id') := by
      have hfind : World.findBatch { w with batches := w.batches ++
          [openBatch id collectorId centerId w.now] } id' =
          (w.findBatch id').or
            (if id = id' then some (openBatch id collectorId centerId w.now) else none) :=
        lookup_append
      unfold statusOf
      rw [hfind]
      cases hb : w.findBatch id' with
      | some b => exact Or.inl rfl
      | none =>
        rw [Option.none_or]
        split
        · exact Or.inr ⟨.open, by decide, rfl⟩
        · exact Or.inl rfl
    exact ⟨fun job hjob hnamed => (h job hjob hnamed).steps (hsteps _), hsteps⟩
  | stock stock =>
    obtain ⟨-, hw⟩ := Option.ite_none_right_eq_some.mp hw
    cases hw
    exact ⟨h, fun _ => Or.inl rfl⟩
  | stall n =>
    cases hw
    exact ⟨hjobs n _ Job.stall_data, fun _ => Or.inl rfl⟩
  | retry n =>
    cases hw
    exact ⟨hjobs n _ Job.retry_data, fun _ => Or.inl rfl⟩
  | forget n =>
    cases hw
    exact ⟨fun job hjob hnamed => h job (mem_of_forgotten hjob hnamed) hnamed, fun _ => Or.inl rfl⟩
  | _ =>
    cases hw
    exact ⟨h, fun _ => Or.inl rfl⟩

end Writes

/-! ### Runs -/

/-- Where a run may begin: the jobs that wait are for batches that have been accepted. -/
abbrev Opening (w : World) : Prop := Queued w

def entered (svc : Backend) (id : String) (c : Race Stage) (e : RaceEvent) : Option BatchStatus :=
  match (race svc).step c e with
  | some c' => if statusOf c'.world id = statusOf c.world id then none else statusOf c'.world id
  | none => none

/-- The statuses that the batch goes through, after the one it begins in. -/
def history (svc : Backend) (id : String) (w : World) (es : List RaceEvent) : List BatchStatus :=
  trace (race svc).step (entered svc id) (quiescent w) es

structure Kept (svc : Backend) (c : Race Stage) : Prop where
  disciplined : (race svc).Disciplined c
  queued : Queued c.world
  told : ∀ j s, stages c j = some s → Told c.world s

section Runs

variable {svc : Backend} {w : World} {c c' : Race Stage} {e : RaceEvent} {es : List RaceEvent}
    {id : String}

theorem told_update {w : World} {j : ℕ}
    {u : Option (Task Stage Op (fun i => Except Failure (Reply i))
      (Except Failure (Option Answer)))} (hrest : ∀ j s, stages c j = some s → Told w s)
    (hnew : ∀ s, u.map Task.stage = some s → Told w s) (j' : ℕ) (s : Stage)
    (hs : stages ⟨w, Function.update c.tasks j u⟩ j' = some s) : Told w s := by
  rw [stages_update] at hs
  by_cases hj : j' = j
  · subst hj
    rw [Function.update_self] at hs
    exact hnew s hs
  · rw [Function.update_of_ne hj] at hs
    exact hrest j' s hs

theorem kept_step (h : Kept svc c) (hfresh : fresh c e = true)
    (hstep : (race svc).step c e = some c') :
    Kept svc c' ∧ ∀ id, Steps (statusOf c.world id) (statusOf c'.world id) := by
  have hdisciplined : (race svc).Disciplined c' :=
    step_disciplined (keeps_program svc) h.disciplined hstep
  cases e with
  | start j a =>
    obtain ⟨-, rfl⟩ := step_start.mp hstep
    refine ⟨⟨hdisciplined, h.queued, ?_⟩, fun _ => Or.inl rfl⟩
    exact told_update h.told fun s hs => Option.some.inj hs ▸ told_first
  | stop j =>
    obtain ⟨-, rfl⟩ := step_stop.mp hstep
    refine ⟨⟨hdisciplined, h.queued, ?_⟩, fun _ => Or.inl rfl⟩
    exact told_update h.told fun s hs => by cases hs
  | outside d =>
    obtain ⟨w, hw, rfl⟩ := step_outside.mp hstep
    obtain ⟨hqueued, hsteps⟩ := outside_steps h.queued hw
    exact ⟨⟨hdisciplined, hqueued, fun j s hs => (h.told j s hs).steps hsteps⟩, hsteps⟩
  | advance j o =>
    obtain ⟨s, i, k, ht, rfl⟩ := step_advance.mp hstep
    have hs := stages_eq ht
    have htold := h.told j s hs
    have hallowed : Allowed s i ∧ Routes s i := allowed_pending h.disciplined hs (pending_eq ht)
    have hcall (happlied : o.delivery.applied = true) : freshCall c.world s i = true := by
      simpa [fresh, happlied, hs, pending_eq ht] using hfresh
    have hsteps := fun id => steps_after (t := svc.letters) (o := o) htold hallowed hcall id
    refine ⟨⟨hdisciplined, queued_after h.queued htold hallowed.1 hsteps, ?_⟩, hsteps⟩
    refine told_update (fun j s hs => (h.told j s hs).steps hsteps) fun s' hs' => ?_
    cases hs'
    exact told_next h.queued htold hsteps

theorem kept_opening (h : Opening w) : Kept svc (quiescent w) where
  disciplined j t ht := by cases ht
  queued := h
  told j s hs := by cases hs

theorem nodup_of_leads {statuses : List (Option BatchStatus)} (h : statuses.IsChain Leads) :
    statuses.Nodup := by
  have hranks : statuses.IsChain fun old new => rank old < rank new := h.imp fun _ _ => rank_lt
  have : IsTrans (Option BatchStatus) fun old new => rank old < rank new := ⟨fun _ _ _ => lt_trans⟩
  exact hranks.pairwise.imp fun hlt heq => (congrArg rank heq).not_lt hlt

/-- Along every run in which each write of a status is fresh, a batch goes only by the moves, ends
where they lead, and is never again in a status that it has left. -/
theorem batches_go_forward (hopening : Opening w)
    (hfresh : Along (race svc).step (fun c e => fresh c e = true) (quiescent w) es)
    (hrun : run (race svc).step (quiescent w) es = some c) (id : String) :
    (statusOf w id :: (history svc id w es).map some).IsChain Leads ∧
    (statusOf w id :: (history svc id w es).map some).getLast? = some (statusOf c.world id) ∧
    (statusOf w id :: (history svc id w es).map some).Nodup := by
  have hkept : Kept svc c ∧ (statusOf w id :: (history svc id w es).map some).IsChain Leads ∧
      (statusOf w id :: (history svc id w es).map some).getLast? = some (statusOf c.world id) := by
    refine run_history_along (I := fun p c => Kept svc c ∧
      (statusOf w id :: p.map some).IsChain Leads ∧
      (statusOf w id :: p.map some).getLast? = some (statusOf c.world id)) (p := []) ?_
      ⟨kept_opening hopening, List.isChain_singleton _, rfl⟩ hfresh hrun
    intro p c e c' hI he hstep
    obtain ⟨hkept, hchain, hlast⟩ := hI
    obtain ⟨hkept', hsteps⟩ := kept_step hkept he hstep
    refine ⟨hkept', ?_⟩
    have hentered : entered svc id c e =
        if statusOf c'.world id = statusOf c.world id then none else statusOf c'.world id := by
      rw [entered, hstep]
    rw [hentered]
    split
    · rename_i hsame
      rw [Option.toList_none, List.append_nil, hsame]
      exact ⟨hchain, hlast⟩
    · rename_i hmoved
      obtain ⟨status, hmem, hnew⟩ := (hsteps id).resolve_left hmoved
      rw [hnew, Option.toList_some, List.map_append, List.map_singleton, ← List.cons_append]
      refine ⟨List.isChain_append.mpr ⟨hchain, List.isChain_singleton _, fun x hx y hy => ?_⟩, ?_⟩
      · rw [hlast] at hx
        cases hx
        cases hy
        exact ⟨status, hmem, rfl⟩
      · rw [List.getLast?_append, List.getLast?_singleton, Option.some_or]
  exact ⟨hkept.2.1, hkept.2.2, nodup_of_leads hkept.2.1⟩

end Runs

/-- The centre approves a flagged batch, the worker receives it, and it is consolidated. -/
def approved : List RaceEvent :=
  .start 0 (.endpoint ⟨"center", .centroAcopio⟩
    (.approveFlagged "batch")) :: BatchReceptions.answers 0 3 ++
    .start 1 (.worker 0) :: BatchReceptions.answers 1 13 ++
    .start 2
      (.endpoint ⟨"center", .centroAcopio⟩ (.consolidate ["batch"])) :: BatchReceptions.answers 2 2

def flagged : World := BatchReceptions.desk .flaggedForReview (some BatchReceptions.tenKilograms) []

theorem batches_go_forward_approved :
    history BatchReceptions.backend "batch" flagged approved =
      [.processing, .received, .consolidated] ∧
    (some .flaggedForReview :: [BatchStatus.processing, .received,
      .consolidated].map some).IsChain Leads := by
  have hrun : (run (race BatchReceptions.backend).step (quiescent flagged) approved).isSome =
      true := by
    decide +kernel
  have hhistory : history BatchReceptions.backend "batch" flagged approved =
      [.processing, .received, .consolidated] := by
    decide +kernel
  have hfresh : Along (race BatchReceptions.backend).step (fun c e => fresh c e = true)
    (quiescent flagged) approved := by
    decide +kernel
  have hstatus : statusOf flagged "batch" = some .flaggedForReview := by decide +kernel
  obtain ⟨c, hc⟩ := Option.isSome_iff_exists.mp hrun
  have hforward :=
    (batches_go_forward (fun job hjob => absurd hjob List.not_mem_nil) hfresh hc "batch").1
  rw [hhistory, hstatus] at hforward
  exact ⟨hhistory, hforward⟩

end Livora.BatchLifecycles
