import Livora.BatchWorker

/-! What the services and the worker have read of a batch when they write it. Each write is one of a
few kinds, made for a batch that was found in the status for it; a job is added for the batch as it
was written, and the worker receives a batch with what its job and the row say. -/

namespace Livora.BatchStages

open EffectPrograms EffectPrograms.Action ProgramPools RewardStrategies JobQueues BatchBooks BatchDesk BatchServices
open BatchWorker
open PinVerification (truthy)
open StoreBooks (Failure)

/-! ### The protocol -/

structure Stage where
  ids : List String
  rows : List Batch
  record : Option FoundBatch
  wrote : Option (BatchData × Batch)
  job : Option BatchJob

def Stage.first : Stage := ⟨[], [], none, none, none⟩

def next (s : Stage) : (i : Op) → Except Failure (Reply i) → Stage
  | .findBatch id, .ok found =>
    { s with ids := [id], rows := (found.map FoundBatch.row).toList, record := found }
  | .findBatches ids, .ok rows => { s with ids := ids, rows := rows, record := none }
  | .updateBatch _ data, .ok updated => { s with wrote := some (data, updated) }
  | .takeJob _, .ok job => { s with job := job.map Job.data }
  | _, _ => s

/-- The updates of the services, with the status in which the batch was found. -/
inductive Update (b : Batch) : BatchData → Prop
  | dispatch (destinationCenterId : String) (found : b.status = .open) :
    Update b { destinationCenterId := some destinationCenterId, status := some .inTransit }
  | flag (materialsActual : NumberRecord) (note : String) (found : b.status = .open ∨
    b.status = .inTransit) :
    Update b {
      status := some .flaggedForReview
      materialsActual := some materialsActual
      hasDiscrepancy := some true
      discrepancyNote := some (some note) }
  | accept (isPartial : Bool) (materialsActual : NumberRecord) (note : Option String)
      (found : b.status = .open ∨ b.status = .inTransit) :
    Update b {
      status := some (if isPartial then .partiallyAccepted else .processing)
      materialsActual := some materialsActual
      hasDiscrepancy := some false
      discrepancyNote := some note }
  | approve (note : String) (found : b.status = .flaggedForReview) :
    Update b { status := some .processing, discrepancyNote := some (some note) }
  | dispute (note : String) (found : b.status = .flaggedForReview) :
    Update b { status := some .disputed, discrepancyNote := some (some note) }
  | resolve (materialsActual : Option NumberRecord) (note : Option String)
    (found : b.status = .disputed) :
    Update b {
      status := some .received
      materialsActual := materialsActual
      discrepancyNote := some note
      hasDiscrepancy := some false }
  | settle (now : ℕ) (found : b.status = .received ∨ b.status = .consolidated) :
    Update b { fiatSettled := some true, fiatSettledAt := some now }

/-- The job is for the batch as it was written: to the centre that it was found to go to where it
was weighed just now. -/
structure Enqueues (s : Stage) (b updated : Batch) (data : BatchData) (job : BatchJob) : Prop where
  rows : s.rows = [b]
  wrote : s.wrote = some (data, updated)
  batchId : job.batchId = updated.id
  status : data.status = some .processing ∨ data.status = some .partiallyAccepted
  fits : job.centerId = updated.destinationCenterId ∧
    job.materialsActual = updated.materialsActual ∧
      data.materialsActual = none ∨
    job.centerId = b.destinationCenterId ∧ job.materialsActual = data.materialsActual ∧
      data.materialsActual ≠ none

/-- The worker receives a batch with what its job and the row say. -/
structure Receives (s : Stage) (job : BatchJob) (receipt : Receipt) : Prop where
  taken : s.job = some job
  batchId : receipt.batchId = job.batchId
  named : job.batchId ≠ ""
  record : ∀ found, s.record = some found → s.ids = [job.batchId]
  centerId : effectiveCenterId job s.record = some receipt.centerId
  materials : receipt.materials = effectiveMaterials job s.record

def Allowed (s : Stage) : Op → Prop
  | .findBatch _ => s.wrote = none
  | .findBatches _ => s.wrote = none
  | .updateBatch id data => ∃ b, s.ids = [id] ∧ s.rows = [b] ∧ Update b data
  | .reroute id _ _ => ∃ b, s.ids = [id] ∧ s.rows = [b] ∧ (b.status = .open ∨ b.status = .inTransit)
  | .consolidate _ totalWeight batchIds => s.ids = batchIds ∧ totalWeight = totalWeightKg s.rows ∧
    ∀ b ∈ s.rows, b.status = .received
  | .addJob job => ∃ b updated data, Enqueues s b updated data job
  | .receive receipt => ∃ job, Receives s job receipt
  | .takeJob _ => s.record = none
  | _ => True

def protocol : Protocol Stage Op fun i => Except Failure (Reply i) where
  Allowed := Allowed
  next := next

theorem lenient : Lenient protocol where
  emit _ _ _ := ⟨trivial, fun _ => rfl⟩
  findUser _ _ := ⟨trivial, fun _ => rfl⟩
  now _ := ⟨trivial, fun _ => rfl⟩

/-! ### The services -/

section Services

variable {α : Type} {s : Stage} {id userId : String} {data : BatchData} {b : Batch} {svc : Service}

theorem follows_write {f : Batch → Work α} (hids : s.ids = [id]) (hrows : s.rows = [b])
    (hdata : Update b data)
    (hf : ∀ updated, Follows protocol { s with wrote := some (data, updated) } (f updated)) :
    Follows protocol s (call (.updateBatch id data) >>= f) :=
  follows_call ⟨b, hids, hrows, hdata⟩ hf

theorem follows_emit {userId event : String} {f : Unit → Work α}
    (hf : ∀ x, Follows protocol s (f x)) :
    Follows protocol s (call (.emit userId event) >>= f) :=
  follows_pass (lenient.emit _ _) hf

theorem follows_update {destinationCenterId : String} :
    Follows protocol .first (updateBatch id userId destinationCenterId) := by
  refine follows_requireBatch rfl fun batch => follows_require fun _ => follows_require fun hopen =>
    lenient.requireCenter ?_
  refine follows_write rfl rfl (.dispatch _ (beq_iff_eq.mp hopen)) fun _ => ?_
  exact follows_emit fun _ => follows_emit fun _ => follows_pure _

theorem follows_receive {dto : ReceiveBatchDto} :
    Follows protocol .first (receiveBatch svc id userId dto) := by
  refine follows_requireBatch rfl fun batch => follows_require fun _ =>
    follows_require fun hfound =>
    follows_require fun hcenter => ?_
  have hstatus : batch.row.status = .open ∨ batch.row.status = .inTransit := by
    simpa [or_comm] using hfound
  split
  · refine follows_write rfl rfl (.flag _ _ hstatus) fun _ => ?_
    exact follows_emit fun _ => follows_emit fun _ => follows_pure _
  · refine follows_write rfl rfl (.accept _ _ _ hstatus) fun updated => ?_
    refine follows_call ⟨batch.row, updated, _, rfl, rfl, rfl, ?_,
      .inr ⟨?_, rfl, Option.some_ne_none _⟩⟩
      fun _ => ?_
    · cases isPartial dto with
      | true => exact .inr rfl
      | false => exact .inl rfl
    · exact (beq_iff_eq.mp hcenter).symm
    · exact follows_emit fun _ => follows_emit fun _ => follows_pure _

theorem follows_approve {customNote : Option String} :
    Follows protocol .first (approveFlaggedBatch id userId customNote) := by
  refine follows_requireBatch rfl fun batch => follows_require fun hflagged => ?_
  refine follows_write rfl rfl (.approve _ (beq_iff_eq.mp hflagged)) fun updated => ?_
  exact follows_call ⟨batch.row, updated, _, rfl, rfl, rfl, .inl rfl, .inl ⟨rfl, rfl, rfl⟩⟩ fun _ =>
    follows_pure _

theorem follows_dispute {reason : String} :
    Follows protocol .first (disputeBatch userId id reason) := by
  refine follows_requireBatch rfl fun batch => follows_require fun _ =>
    follows_require fun hflagged =>
    follows_validate fun _ => ?_
  refine follows_write rfl rfl (.dispute _ (beq_iff_eq.mp hflagged)) fun _ => ?_
  exact follows_emit fun _ => follows_emit fun _ => follows_pure _

theorem follows_resolve {adjustedMaterials : Option NumberRecord} {resolutionNote : Option String} :
    Follows protocol .first (resolveDispute id adjustedMaterials resolutionNote) := by
  refine follows_requireBatch rfl fun batch => follows_require fun hdisputed => ?_
  exact follows_perform ⟨batch.row, rfl, rfl, .resolve _ _ (beq_iff_eq.mp hdisputed)⟩

theorem follows_settlement : Follows protocol .first (fiatSettlement userId id) := by
  refine follows_requireBatch rfl fun batch => follows_require fun _ => follows_require fun _ =>
    follows_require fun hfound => follows_require fun _ => follows_pass lenient.now fun now => ?_
  have hstatus : batch.row.status = .received ∨ batch.row.status = .consolidated := by
    simpa using hfound
  refine follows_write rfl rfl (.settle _ hstatus) fun _ => ?_
  exact follows_emit fun _ => follows_emit fun _ => follows_emit fun _ => follows_pure _

theorem follows_reroute {newCenterId : String} {reason proofPhotoUrl : Option String} :
    Follows protocol .first (rerouteBatch id userId newCenterId reason proofPhotoUrl) := by
  refine follows_requireBatch rfl fun batch => follows_require fun _ =>
    follows_require fun hfound =>
    follows_validate fun _ => follows_require fun _ => lenient.requireCenter ?_
  have hstatus : batch.row.status = .open ∨ batch.row.status = .inTransit := by simpa using hfound
  refine follows_call ⟨batch.row, rfl, rfl, hstatus⟩ fun _ => ?_
  exact lenient.tellCenter fun _ => follows_emit fun _ => follows_emit fun _ =>
    follows_emit fun _ =>
    follows_pure _

theorem follows_consolidated {batchIds : List String} :
    Follows protocol .first (createConsolidatedBatch userId batchIds) := by
  refine follows_call rfl fun rows => follows_require fun _ =>
    follows_requireMembers fun hrows => ?_
  exact follows_perform ⟨rfl, rfl, fun b hb => (hrows b hb).2⟩

theorem follows_endpoint (caller : Caller) (e : Endpoint) :
    Follows protocol .first (endpoint svc caller e) := by
  refine follows_require fun _ => ?_
  cases e with
  | update id destinationCenterId => exact follows_bind follows_update fun _ _ => follows_pure _
  | receive id dto => exact follows_bind follows_receive fun _ _ => follows_pure _
  | approveFlagged id => exact follows_bind follows_approve fun _ _ => follows_pure _
  | overrideDiscrepancy id note => exact follows_bind follows_approve fun _ _ => follows_pure _
  | fiatSettlement id => exact follows_bind follows_settlement fun _ _ => follows_pure _
  | dispute id reason => exact follows_bind follows_dispute fun _ _ => follows_pure _
  | resolveDispute id materialsActual resolutionNote =>
    exact follows_bind follows_resolve fun _ _ => follows_pure _
  | reroute id newCenterId reason proofPhotoUrl =>
    exact follows_bind follows_reroute fun _ _ => follows_pure _
  | consolidate batchIds => exact follows_bind follows_consolidated fun _ _ => follows_pure _

end Services

/-! ### The worker -/

section Worker

variable {s : Stage} {svc : Backend} {job : BatchJob}

theorem follows_tellHouseholds (ids : List String) : Follows protocol s (tellHouseholds ids) := by
  induction ids with
  | nil => exact follows_pure _
  | cons id rest ih => exact follows_emit fun _ => ih

theorem follows_notify {collectorId centerId : String} {householdIds : List String} :
    Follows protocol s (notify collectorId centerId householdIds) := by
  refine follows_emit fun _ => follows_emit fun _ => follows_emit fun _ => ?_
  refine follows_bind ?_ fun _ _ => follows_tellHouseholds _
  unfold tellCollector
  split
  · exact follows_pure _
  · exact follows_emit fun _ => follows_perform trivial

theorem follows_settleBatch {batchRecord : Option FoundBatch} (hjob : s.job = some job)
    (hnamed : job.batchId ≠ "") (hrecord : s.record = batchRecord)
    (hids : ∀ found, batchRecord = some found → s.ids = [job.batchId]) :
    Follows protocol s (settleBatch svc job batchRecord) := by
  subst hrecord
  refine follows_call trivial fun ipfsCid => follows_call trivial fun _ =>
    follows_call trivial fun hash => ?_
  dsimp only
  split
  · exact follows_throw _
  · rename_i centerId hcenter
    refine follows_call ⟨job, hjob, rfl, hnamed, fun found hfound => ?_, ?_, ?_⟩ fun _ => ?_
    · exact hids found hfound
    · exact hcenter
    · rfl
    · exact follows_bind follows_notify fun _ _ => follows_pure _

theorem follows_process (hjob : s.job = some job) (hrecord : s.record = none)
    (hwrote : s.wrote = none) :
    Follows protocol s (processBatchBlockchain svc job) := by
  unfold processBatchBlockchain
  split
  · exact follows_pure _
  · rename_i hnamed
    -- the record is the answer of the call, or nothing where it fails
    refine follows_after (Q := fun t record => t.job = some job ∧ t.record = record ∧
      ∀ found, record = some found → t.ids = [job.batchId]) ?_ fun record t ht => ?_
    · refine obeys_recover.mpr (obeys_perform.mpr ⟨hwrote, fun found y hy => ?_, fun e y hy => ?_⟩)
      · cases hy
        exact ⟨hjob, rfl, fun _ _ => rfl⟩
      · cases hy
        exact ⟨hjob, hrecord, fun _ h => by cases h⟩
    · obtain ⟨hjob, hrecord, hids⟩ := ht
      split
      · exact follows_pure _
      · exact follows_settleBatch hjob hnamed hrecord hids

theorem follows_attempt (n : ℕ) : Follows protocol .first (attempt svc n) := by
  refine follows_call rfl fun found => ?_
  cases found with
  | none => exact follows_pure _
  | some job =>
    refine follows_bind (follows_rescue ?_ fun _ _ => follows_pure _) fun _ _ =>
      follows_perform trivial
    exact follows_bind (follows_process rfl rfl rfl) fun _ _ => follows_pure _

theorem follows_program (svc : Backend) (actor : Actor) :
    Follows protocol .first (program svc actor) := by
  cases actor with
  | endpoint caller e => exact follows_bind (follows_endpoint caller e) fun _ _ => follows_pure _
  | worker n => exact follows_bind (follows_attempt n) fun _ _ => follows_pure _

end Worker

def race (svc : Backend) :
    System Actor World Outcome Outside Stage Op (fun i => Except Failure (Reply i))
    (Except Failure (Option Answer)) :=
  system svc protocol .first

end Livora.BatchStages
