import Livora.BatchWorker

/-! Which calls the services of the batches and the worker make, said once for any condition on
calls. The updates that accept a batch, the jobs and the new routes are left to the services that
make them. -/

namespace Livora.BatchCalls

open EffectPrograms EffectPrograms.Action BatchBooks BatchDesk BatchServices BatchWorker
open StoreBooks (Failure)

/-- The centre has accepted the batch, and the worker has still to receive it. -/
def isAccepted (status : BatchStatus) : Bool :=
  status == .processing || status == .partiallyAccepted

def accepts (data : BatchData) : Bool := data.status.any isAccepted

/-- The condition holds of every call but an update that accepts a batch, a job and a new route. -/
structure Plain (p : Op → Prop) : Prop where
  findBatch : ∀ id, p (.findBatch id)
  findBatches : ∀ ids, p (.findBatches ids)
  findUser : ∀ id, p (.findUser id)
  now : p .now
  updateBatch : ∀ id data, accepts data = false → p (.updateBatch id data)
  consolidate : ∀ centerId totalWeight batchIds, p (.consolidate centerId totalWeight batchIds)
  emit : ∀ userId event, p (.emit userId event)
  uploadManifest : ∀ batchId, p (.uploadManifest batchId)
  findWallets : ∀ collectorId householdIds, p (.findWallets collectorId householdIds)
  notarize : ∀ batchId ipfsCid, p (.notarize batchId ipfsCid)
  receive : ∀ receipt, p (.receive receipt)
  takeJob : ∀ n, p (.takeJob n)
  finishJob : ∀ n token ok, p (.finishJob n token ok)

variable {p : Op → Prop} {id userId centerId : String} {svc : Service}

theorem only_require {condition : Bool} {e : Failure} : Only p (require condition e) := by
  cases condition with
  | true => exact only_pure ()
  | false => exact only_throw e

theorem only_validateTransition {currentStatus targetStatus : BatchStatus} :
    Only p (BatchStateMachine.validateTransition currentStatus targetStatus) := by
  unfold BatchStateMachine.validateTransition
  split
  · exact only_pure ()
  · exact only_throw _

namespace Plain

variable (h : Plain p)

include h

theorem only_emit {event : String} : Only p (call (.emit userId event)) := only_perform (h.emit _ _)

theorem only_update {data : BatchData} (hdata : accepts data = false) :
    Only p (call (.updateBatch id data)) :=
  only_perform (h.updateBatch _ _ hdata)

theorem only_requireBatch : Only p (requireBatch id) := by
  refine only_bind (only_perform (h.findBatch id)) fun found => ?_
  cases found with
  | none => exact only_throw _
  | some batch => exact only_pure batch

theorem only_requireCenter {e : Failure} : Only p (requireCenter centerId e) :=
  only_bind (only_perform (h.findUser centerId)) fun _ => only_require

/-! ### The services -/

theorem only_updateBatch {destinationCenterId : String} :
    Only p (BatchServices.updateBatch id userId destinationCenterId) := by
  refine only_bind h.only_requireBatch fun batch => only_bind only_require fun _ => ?_
  refine only_bind only_require fun _ => only_bind h.only_requireCenter fun _ => ?_
  refine only_bind (h.only_update rfl) fun updated => only_bind h.only_emit fun _ => ?_
  exact only_bind h.only_emit fun _ => only_pure updated

theorem only_flagBatch {batch : FoundBatch} {dto : ReceiveBatchDto} {note : String} :
    Only p (flagBatch id batch centerId dto note) := by
  refine only_bind (h.only_update rfl) fun updated => only_bind h.only_emit fun _ => ?_
  exact only_bind h.only_emit fun _ => only_pure updated

theorem only_disputeBatch {reason : String} : Only p (disputeBatch userId id reason) := by
  refine only_bind h.only_requireBatch fun batch => only_bind only_require fun _ => ?_
  refine only_bind only_require fun _ => only_bind only_validateTransition fun _ => ?_
  refine only_bind (h.only_update rfl) fun updated => only_bind h.only_emit fun _ => ?_
  exact only_bind h.only_emit fun _ => only_pure updated

theorem only_resolveDispute {adjustedMaterials : Option RewardStrategies.NumberRecord}
    {resolutionNote : Option String} :
    Only p (resolveDispute id adjustedMaterials resolutionNote) :=
  only_bind h.only_requireBatch fun _ => only_bind only_require fun _ => h.only_update rfl

theorem only_fiatSettlement : Only p (fiatSettlement userId id) := by
  refine only_bind h.only_requireBatch fun batch => only_bind only_require fun _ => ?_
  refine only_bind only_require fun _ => only_bind only_require fun _ =>
    only_bind only_require fun _ => ?_
  refine only_bind (only_perform h.now) fun now => only_bind (h.only_update rfl) fun updated => ?_
  refine only_bind h.only_emit fun _ => only_bind h.only_emit fun _ => ?_
  exact only_bind h.only_emit fun _ => only_pure updated

theorem only_createConsolidatedBatch {batchIds : List String} :
    Only p (createConsolidatedBatch userId batchIds) := by
  refine only_bind (only_perform (h.findBatches batchIds)) fun rows =>
    only_bind only_require fun _ => ?_
  refine only_bind ?_ fun _ => only_perform (h.consolidate _ _ _)
  rcases requireMembers_cases userId rows with ⟨e, hthrow⟩ | ⟨hpure, -⟩
  · rw [hthrow]
    exact only_throw e
  · rw [hpure]
    exact only_pure ()

theorem only_tellCenter {centerId : Option String} : Only p (tellCenter centerId) := by
  unfold tellCenter
  split
  · exact h.only_emit
  · exact only_pure ()

theorem only_rerouteBatch {newCenterId : String} {reason proofPhotoUrl : Option String}
    (hreroute : ∀ id newCenterId dispute, p (.reroute id newCenterId dispute)) :
    Only p (rerouteBatch id userId newCenterId reason proofPhotoUrl) := by
  refine only_bind h.only_requireBatch fun batch => only_bind only_require fun _ => ?_
  refine only_bind only_require fun _ => only_bind only_validateTransition fun _ => ?_
  refine only_bind only_require fun _ => only_bind h.only_requireCenter fun _ => ?_
  refine only_bind (only_perform (hreroute _ _ _)) fun updated =>
    only_bind h.only_tellCenter fun _ => ?_
  refine only_bind h.only_emit fun _ => only_bind h.only_emit fun _ => ?_
  exact only_bind h.only_emit fun _ => only_pure updated

section Accepting

variable (hupdate : ∀ id data, p (.updateBatch id data)) (hjob : ∀ data, p (.addJob data))

include hupdate hjob

theorem only_receiveBatch {dto : ReceiveBatchDto} : Only p (receiveBatch svc id centerId dto) := by
  refine only_bind h.only_requireBatch fun batch => only_bind only_require fun _ => ?_
  refine only_bind only_require fun _ => only_bind only_require fun _ => ?_
  cases discrepancyNote svc (totalEstimatedKg batch.requests)
    (addWeights 0 dto.materialsActual) with
  | some note => exact h.only_flagBatch
  | none =>
    refine only_bind (only_perform (hupdate _ _)) fun updated =>
      only_bind (only_perform (hjob _)) fun _ => ?_
    exact only_bind h.only_emit fun _ => only_bind h.only_emit fun _ => only_pure updated

theorem only_approveFlaggedBatch {customNote : Option String} :
    Only p (approveFlaggedBatch id userId customNote) := by
  refine only_bind h.only_requireBatch fun batch => only_bind only_require fun _ => ?_
  exact only_bind (only_perform (hupdate _ _)) fun updated =>
    only_bind (only_perform (hjob _)) fun _ => only_pure updated

end Accepting

/-! ### The worker -/

theorem only_tellHouseholds (ids : List String) : Only p (tellHouseholds ids) := by
  induction ids with
  | nil => exact only_pure ()
  | cons id rest ih => exact only_bind h.only_emit fun _ => ih

theorem only_notify {collectorId : String} {ids : List String} :
    Only p (notify collectorId centerId ids) := by
  refine only_bind h.only_emit fun _ => only_bind h.only_emit fun _ =>
    only_bind h.only_emit fun _ => ?_
  refine only_bind ?_ fun _ => h.only_tellHouseholds ids
  unfold tellCollector
  split
  · exact only_pure ()
  · exact only_bind h.only_emit fun _ => h.only_emit

theorem only_processBatchBlockchain {svc : Backend} {job : BatchJob} :
    Only p (processBatchBlockchain svc job) := by
  unfold processBatchBlockchain
  split
  · exact only_pure _
  · refine only_bind (only_recover (only_perform (h.findBatch _))) fun record => ?_
    split
    · exact only_pure _
    · refine only_bind (only_perform (h.uploadManifest _)) fun ipfsCid => ?_
      refine only_bind (only_perform (h.findWallets _ _)) fun _ => ?_
      refine only_bind (only_perform (h.notarize _ _)) fun hash => ?_
      dsimp only
      split
      · exact only_throw _
      · refine only_bind (only_perform (h.receive _)) fun _ => ?_
        exact only_bind h.only_notify fun _ => only_pure _

theorem only_attempt {svc : Backend} (n : ℕ) : Only p (attempt svc n) := by
  refine only_bind (only_perform (h.takeJob n)) fun found => ?_
  cases found with
  | none => exact only_pure ()
  | some job =>
    refine only_bind (only_rescue ?_ fun e => only_pure false) fun ok =>
      only_perform (h.finishJob _ _ _)
    exact only_bind h.only_processBatchBlockchain fun result => only_pure _

end Plain

end Livora.BatchCalls
