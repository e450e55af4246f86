import Livora.BatchServices
import Livora.ProgramPools

/-! The worker's job of a batch: the manifest, the notarization, the transaction that makes the
batch received and brings its materials in, and the messages after it. Whatever fails sends the job
back to the queue. The worker and the services run against the same tables, in any order of their
calls. -/

namespace Livora.BatchWorker

open DoubleRounding EffectPrograms EffectPrograms.Action ProgramPools RewardStrategies JobQueues BatchBooks
open BatchDesk BatchServices StockBooks
open BackOffice (User)
open PinVerification (truthy)
open StoreBooks (Failure)

/-! ### The job -/

structure Backend where
  service : Service
  letters : Letters
  getGatewayUrl : String → String

/-- How a job ends: with the hash, or with the text of an `Error`. -/
inductive JobResult where
  | success (txHash : Option String)
  | error (message : String)

/-- `Math.round(weightKg * 1000)` -/
def grams (weightKg : Double) : ℤ := ⌊fl (weightKg.val * 1000) + 1 / 2⌋

/-- The materials of `buildWeightVectors`: a gram at least. -/
def buildWeightVectors (materialsActual : NumberRecord) : NumberRecord :=
  materialsActual.filter fun entry => decide (0 < grams entry.2)

def effectiveCollectorId (job : BatchJob) (batchRecord : Option FoundBatch) : String :=
  (truthy (batchRecord.map fun batch => batch.row.collectorId)).getD job.collectorId

def effectiveCenterId (job : BatchJob) (batchRecord : Option FoundBatch) : Option String :=
  (truthy (batchRecord.bind fun batch => batch.row.destinationCenterId)).or job.centerId

def effectiveMaterials (job : BatchJob) (batchRecord : Option FoundBatch) : NumberRecord :=
  (job.materialsActual.or (batchRecord.bind fun batch => batch.row.materialsActual)).getD []

/-- The households of the requests in the batch, or of the job where there are none. -/
def validHouseholdIds (svc : Backend) (job : BatchJob) (batchRecord : Option FoundBatch) :
    List String :=
  let requests := (batchRecord.map FoundBatch.requests).getD []
  let resolvedHouseholdIds := if requests = [] then job.householdIds else householdIds requests
  resolvedHouseholdIds.filter fun id => svc.letters.trim id ≠ ""

def tellHouseholds : List String → Work Unit
  | [] => pure ()
  | id :: rest => do
    call (.emit id "collection:updated")
    tellHouseholds rest

def tellCollector (collectorId : String) : Work Unit :=
  if collectorId = "" then pure ()
  else do
    call (.emit collectorId "batch:completed")
    call (.emit collectorId "batch:updated")

/-- The messages to the centre, to its room first, to the collector and the households. -/
def notify (collectorId centerId : String) (householdIds : List String) : Work Unit := do
  call (.emit centerId "batch:completed")
  call (.emit centerId "batch:completed")
  call (.emit centerId "batch:updated")
  tellCollector collectorId
  tellHouseholds householdIds

def settleBatch (svc : Backend) (job : BatchJob) (batchRecord : Option FoundBatch) :
    Work JobResult := do
  let ipfsCid ← call (.uploadManifest job.batchId)
  call (.findWallets (effectiveCollectorId job batchRecord) (validHouseholdIds svc job batchRecord))
  let txHash := truthy (← call (.notarize job.batchId ipfsCid))
  match effectiveCenterId job batchRecord with
  -- the row of the stock needs a centre
  | none => throw .outside
  | some centerId => do
    call (.receive ⟨job.batchId, svc.getGatewayUrl ipfsCid, txHash, centerId,
      effectiveMaterials job batchRecord⟩)
    notify (effectiveCollectorId job batchRecord) centerId (validHouseholdIds svc job batchRecord)
    pure (.success txHash)

def processBatchBlockchain (svc : Backend) (job : BatchJob) : Work JobResult :=
  if job.batchId = "" then pure (.error "Payload del job no contiene batchId válido")
  else do
    let batchRecord ← recover (call (.findBatch job.batchId)) none
    if buildWeightVectors (effectiveMaterials job batchRecord) = [] then
      pure (.error ("El lote " ++ job.batchId ++
        " no contiene materiales con peso > 0; nada que registrar on-chain."))
    else settleBatch svc job batchRecord

/-- The queue hears how the job ended. -/
def JobResult.ok : JobResult → Bool
  | .success _ => true
  | .error _ => false

/-- One attempt: whatever goes wrong is reported to the queue. -/
def attempt (svc : Backend) (n : ℕ) : Work Unit := do
  match ← call (.takeJob n) with
  | none => pure ()
  | some job => do
    let ok ← rescue (do
      let result ← processBatchBlockchain svc job.data
      pure result.ok) fun _ => pure false
    call (.finishJob n job.started ok)

/-! ### Everything together -/

inductive Actor where
  | endpoint (caller : Caller) (e : Endpoint)
  | worker (n : ℕ)

/-- What an endpoint answers; the worker answers nothing. -/
def program (svc : Backend) : Actor → Work (Option Answer)
  | .endpoint caller e => do
    let answer ← endpoint svc.service caller e
    pure (some answer)
  | .worker n => do
    attempt svc n
    pure none

def openBatch (id collectorId centerId : String) (now : ℕ) : Batch where
  id := id
  status := .open
  collectorId := collectorId
  destinationCenterId := some centerId
  materialsActual := none
  hasDiscrepancy := false
  discrepancyNote := none
  consolidatedBatchId := none
  ipfsCid := none
  txHash := none
  fiatSettled := false
  fiatSettledAt := none
  createdAt := now
  updatedAt := now

inductive Outside where
  | time (now : ℕ)
  | users (rows : List User)
  | open (id collectorId centerId : String)
  /-- Requests are attached to batches, or changed. -/
  | requests (rows : List Request)
  /-- What else moves in the stock. -/
  | stock (stock : Stock)
  /-- The queue takes the job back from a silent worker. -/
  | stall (n : ℕ)
  /-- A job that has failed is put back by hand. -/
  | retry (n : ℕ)
  /-- The queue keeps only the last of the jobs that are over. -/
  | forget (n : ℕ)

def broughtIn (m : InventoryMovement) : Bool :=
  match m.origin with
  | .batch _ => true
  | _ => false

def forgotten (job : Job BatchJob) : Job BatchJob :=
  if job.phase = .completed ∨
    job.phase = .failed then { job with data := ⟨"", "", none, none, []⟩ } else job

def outside (w : World) : Outside → Option World
  | .time now => some { w with now := now }
  | .users rows => some { w with users := rows }
  | .open id collectorId centerId =>
    if w.findBatch id = none then
      some { w with batches := w.batches ++ [openBatch id collectorId centerId w.now] }
    else none
  | .requests rows => some { w with requests := rows }
  | .stock stock =>
    if stock.movements.filter broughtIn = w.stock.movements.filter broughtIn then
      some { w with stock := stock }
    else none
  | .stall n => some { w with jobs := w.jobs.modify n Job.stall }
  | .retry n => some { w with jobs := w.jobs.modify n Job.retry }
  | .forget n => some { w with jobs := w.jobs.modify n forgotten }

def system {σ : Type} (svc : Backend) (P : Protocol σ Op fun i => Except Failure (Reply i))
    (first : σ) :
    System Actor World Outcome Outside σ Op (fun i => Except Failure (Reply i))
      (Except Failure (Option Answer)) where
  program actor := (program svc actor).run
  serve := World.serve svc.letters
  outside := outside
  protocol := P
  first := first

abbrev Race (σ : Type) := Pool World
  (Task σ Op (fun i => Except Failure (Reply i)) (Except Failure (Option Answer)))

abbrev RaceEvent := Event Actor Outcome Outside

def quiescent {σ : Type} (w : World) : Race σ := ⟨w, fun _ => none⟩

end Livora.BatchWorker
