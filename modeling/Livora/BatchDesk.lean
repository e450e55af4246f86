import Livora.BatchBooks
import Livora.JobQueues
import Livora.KeyedRows
import Livora.StockBooks

/-! The tables behind the batches on their way to a centre, the queue of their jobs, and every
outside call that the services of the batches and the worker make. -/

namespace Livora.BatchDesk

open DoubleRounding EffectPrograms EffectPrograms.Action RewardStrategies JobQueues KeyedRows
open BatchBooks StockBooks
open BackOffice (Role User)
open PinVerification (Delivery)
open StoreBooks (Failure)

/-! ### The tables -/

structure Request where
  householdId : String
  batchId : Option String
  itemsEstimated : NumberRecord
deriving DecidableEq

structure ConsolidatedBatch where
  id : String
  centerId : String
  totalWeight : ℚ
deriving DecidableEq

structure DisputeCase where
  batchId : String
  openedById : String
  collectorStatement : String
  collectorPhotos : List String
deriving DecidableEq

/-- The payload of `process-batch-blockchain`. -/
structure BatchJob where
  batchId : String
  collectorId : String
  centerId : Option String
  materialsActual : Option NumberRecord
  householdIds : List String
deriving DecidableEq

structure FoundBatch where
  row : Batch
  requests : List Request
deriving DecidableEq

/-- The fields of `data` in an update; one that is not there is left as it is. -/
structure BatchData where
  status : Option BatchStatus := none
  destinationCenterId : Option String := none
  materialsActual : Option NumberRecord := none
  hasDiscrepancy : Option Bool := none
  discrepancyNote : Option (Option String) := none
  fiatSettled : Option Bool := none
  fiatSettledAt : Option ℕ := none

def set (data : BatchData) (b : Batch) : Batch :=
  { b with
    status := data.status.getD b.status
    destinationCenterId := data.destinationCenterId.or b.destinationCenterId
    materialsActual := data.materialsActual.or b.materialsActual
    hasDiscrepancy := data.hasDiscrepancy.getD b.hasDiscrepancy
    discrepancyNote := data.discrepancyNote.getD b.discrepancyNote
    fiatSettled := data.fiatSettled.getD b.fiatSettled
    fiatSettledAt := data.fiatSettledAt.or b.fiatSettledAt }

/-- What the last transaction of a job writes: the batch is received, and its materials come in. -/
structure Receipt where
  batchId : String
  ipfsCid : String
  txHash : Option String
  centerId : String
  materials : NumberRecord
deriving DecidableEq

/-! ### The calls -/

inductive Op where
  | findBatch (id : String)
  | findBatches (ids : List String)
  | findUser (id : String)
  | now
  | updateBatch (id : String) (data : BatchData)
  /-- The transaction of `rerouteBatch`. -/
  | reroute (id newCenterId : String) (dispute : DisputeCase)
  /-- The transaction of `createConsolidatedBatch`. -/
  | consolidate (centerId : String) (totalWeight : ℚ) (batchIds : List String)
  | addJob (data : BatchJob)
  | emit (userId event : String)
  | uploadManifest (batchId : String)
  | findWallets (collectorId : String) (householdIds : List String)
  | notarize (batchId ipfsCid : String)
  | receive (receipt : Receipt)
  | takeJob (n : ℕ)
  | finishJob (n token : ℕ) (ok : Bool)

abbrev Reply : Op → Type
  | .findBatch _ => Option FoundBatch
  | .findBatches _ => List Batch
  | .findUser _ => Option User
  | .now => ℕ
  | .updateBatch _ _ => Batch
  | .reroute _ _ _ => Batch
  | .consolidate _ _ _ => ConsolidatedBatch
  | .addJob _ => Unit
  | .emit _ _ => Unit
  | .uploadManifest _ => String
  | .findWallets _ _ => Unit
  | .notarize _ _ => Option String
  | .receive _ => Unit
  | .takeJob _ => Option (Job BatchJob)
  | .finishJob _ _ _ => Unit

abbrev Work (α : Type) := Action Op Reply Failure α

def call (i : Op) : Work (Reply i) := perform i

/-! ### The world -/

structure World where
  users : List User
  batches : List Batch
  requests : List Request
  consolidated : List ConsolidatedBatch
  disputes : List DisputeCase
  stock : Stock
  jobs : List (Job BatchJob)
  now : ℕ

/-- How the answer of a call arrives, and what the outside puts into it. -/
structure Outcome where
  delivery : Delivery
  text : String
  hash : Option String

namespace World

def findBatch (w : World) (id : String) : Option Batch := lookup Batch.id w.batches id

def foundBatch (w : World) (id : String) : Option FoundBatch :=
  (w.findBatch id).map fun b => ⟨b, w.requests.filter fun r => r.batchId == some id⟩

/-- `where: { id: { in: ids } }` -/
def findBatches (w : World) (ids : List String) : List Batch :=
  w.batches.filter fun b => ids.contains b.id

def findUser (w : World) (id : String) : Option User := w.users.find? fun user => user.id == id

def updateBatch (w : World) (id : String) (data : BatchData) : World :=
  { w with batches := w.batches.map fun b => if b.id = id then set data b else b }

def rerouted (newCenterId : String) : BatchData where
  status := some .rerouted
  destinationCenterId := some newCenterId

def reroute (w : World) (id newCenterId : String) (dispute : DisputeCase) : World :=
  { w.updateBatch id (rerouted newCenterId) with disputes := w.disputes ++ [dispute] }

def joined (consolidatedId : String) (b : Batch) : Batch :=
  { b with status := .consolidated, consolidatedBatchId := some consolidatedId }

/-- The rows are changed whatever they are by then. -/
def consolidate (w : World) (row : ConsolidatedBatch) (batchIds : List String) : World :=
  { w with
    consolidated := w.consolidated ++ [row]
    batches := w.batches.map fun b => if batchIds.contains b.id then joined row.id b else b }

/-- A job is not added a second time while the queue knows its name. -/
def addJob (w : World) (data : BatchJob) : World :=
  if w.jobs.any fun job => job.data.batchId == data.batchId then w
  else { w with jobs := w.jobs ++ [.new data 5] }

def receivedAs (receipt : Receipt) (b : Batch) : Batch :=
  if b.id = receipt.batchId then
    { b with status := .received, ipfsCid := some receipt.ipfsCid, txHash := receipt.txHash }
  else b

/-- All of it, or nothing where an amount does not fit. -/
def receive (t : Letters) (w : World) (receipt : Receipt) : Option World := do
  let stock ← w.stock.credit t receipt.centerId (.batch receipt.batchId)
    (receipt.materials.map fun entry => (entry.1, entry.2.val))
  some { w with batches := w.batches.map (receivedAs receipt), stock := stock }

/-- The row of a consolidation; none where its weight does not fit, or its id is taken. -/
def newRow (w : World) (id centerId : String) (totalWeight : ℚ) : Option ConsolidatedBatch :=
  if w.consolidated.any fun row => row.id == id then none
  else do
    let kg ← kgColumn (← decimalOf totalWeight)
    some ⟨id, centerId, kg⟩

def attempt (t : Letters) (w : World) (o : Outcome) : Op → Option World
  | .updateBatch id data => (w.findBatch id).map fun _ => w.updateBatch id data
  | .reroute id newCenterId dispute =>
    (w.findBatch id).map fun _ => w.reroute id newCenterId dispute
  | .consolidate centerId totalWeight batchIds =>
    (w.newRow o.text centerId totalWeight).map fun row => w.consolidate row batchIds
  | .addJob data => some (w.addJob data)
  | .receive receipt => (w.findBatch receipt.batchId).bind fun _ => w.receive t receipt
  | _ => some w

def after (t : Letters) (w : World) (i : Op) (o : Outcome) : World :=
  match i with
  | .takeJob n => { w with jobs := w.jobs.modify n Job.take }
  | .finishJob n token ok => { w with jobs := w.jobs.modify n fun job => job.finish token ok }
  | i => if o.delivery.applied then (w.attempt t o i).getD w else w

def written {α : Type} (w : Option World) (d : Delivery) (answer : World → Option α) :
    Except Failure α :=
  match w.bind answer with
  | some a => d.answer .outside a
  | none => .error .outside

def reply (t : Letters) (w : World) (i : Op) (o : Outcome) : Except Failure (Reply i) :=
  match i with
  | .findBatch id => o.delivery.answer .outside (w.foundBatch id)
  | .findBatches ids => o.delivery.answer .outside (w.findBatches ids)
  | .findUser id => o.delivery.answer .outside (w.findUser id)
  | .now => .ok w.now
  | .updateBatch id data =>
    written (w.attempt t o (.updateBatch id data)) o.delivery fun w' => w'.findBatch id
  | .reroute id newCenterId dispute =>
    written (w.attempt t o (.reroute id newCenterId dispute)) o.delivery fun w' => w'.findBatch id
  | .consolidate centerId totalWeight batchIds =>
    written (w.attempt t o (.consolidate centerId totalWeight batchIds)) o.delivery fun _ =>
      w.newRow o.text centerId totalWeight
  | .addJob data => written (w.attempt t o (.addJob data)) o.delivery fun _ => some ()
  | .emit _ _ => o.delivery.answer .outside ()
  | .uploadManifest _ => o.delivery.answer .outside o.text
  | .findWallets _ _ => o.delivery.answer .outside ()
  | .notarize _ _ => o.delivery.answer .outside o.hash
  | .receive receipt => written (w.attempt t o (.receive receipt)) o.delivery fun _ => some ()
  | .takeJob n => .ok ((waiting w.jobs n).map Job.take)
  | .finishJob _ _ _ => .ok ()

def serve (t : Letters) (w : World) (i : Op) (o : Outcome) : Except Failure (Reply i) × World :=
  (w.reply t i o, w.after t i o)

/-! ### What a call does to the batches -/

def writes : Op → List String
  | .updateBatch id _ => [id]
  | .reroute id _ _ => [id]
  | .consolidate _ _ batchIds => batchIds
  | .receive receipt => [receipt.batchId]
  | _ => []

def change (o : Outcome) : Op → Batch → Batch
  | .updateBatch id data => fun b => if b.id = id then set data b else b
  | .reroute id newCenterId _ => fun b => if b.id = id then set (rerouted newCenterId) b else b
  | .consolidate _ _ batchIds => fun b => if batchIds.contains b.id then joined o.text b else b
  | .receive receipt => receivedAs receipt
  | _ => id

variable {t : Letters} {w w' : World} {i : Op} {o : Outcome} {b : Batch} {id : String}

@[simp] theorem change_id : (change o i b).id = b.id := by
  cases i <;> simp only [change, receivedAs, id_eq] <;> split <;> rfl

theorem change_of_not_mem (h : b.id ∉ writes i) : change o i b = b := by
  cases i <;> simp_all [change, receivedAs, writes]

theorem batches_attempt (h : w.attempt t o i = some w') :
    w'.batches = w.batches.map (change o i) := by
  have hsame : w.batches = w.batches.map fun b => b := (List.map_id' _).symm
  cases i with
  | updateBatch id data =>
    obtain ⟨-, -, rfl⟩ := Option.map_eq_some_iff.mp h
    rfl
  | reroute id newCenterId dispute =>
    obtain ⟨-, -, rfl⟩ := Option.map_eq_some_iff.mp h
    rfl
  | consolidate centerId totalWeight batchIds =>
    obtain ⟨row, hrow, rfl⟩ := Option.map_eq_some_iff.mp h
    have hid : row.id = o.text := by
      unfold newRow at hrow
      split at hrow
      · cases hrow
      · obtain ⟨_, -, hrow⟩ := Option.bind_eq_some_iff.mp hrow
        obtain ⟨_, -, hrow⟩ := Option.bind_eq_some_iff.mp hrow
        cases hrow
        rfl
    simp only [consolidate, change, hid]
  | addJob data =>
    cases h
    unfold addJob
    split <;> exact hsame
  | receive receipt =>
    obtain ⟨_, -, h⟩ := Option.bind_eq_some_iff.mp h
    obtain ⟨_, -, h⟩ := Option.bind_eq_some_iff.mp h
    cases h
    rfl
  | _ =>
    cases h
    exact hsame

theorem after_cases (t : Letters) (w : World) (i : Op) (o : Outcome) :
    (∃ jobs, w.after t i o = { w with jobs := jobs } ∧ ∀ job ∈ jobs, ∃ old ∈ w.jobs,
      old.data = job.data) ∨
      o.delivery.applied = true ∧ w.attempt t o i = some (w.after t i o) := by
  have hwrite : ∀ w', w' = (if o.delivery.applied then (w.attempt t o i).getD w else w) →
      (∃ jobs, w' = { w with jobs := jobs } ∧ ∀ job ∈ jobs, ∃ old ∈ w.jobs, old.data = job.data) ∨
        o.delivery.applied = true ∧ w.attempt t o i = some w' := by
    rintro w' rfl
    split
    · rename_i happlied
      cases h : w.attempt t o i with
      | none => exact .inl ⟨w.jobs, rfl, fun job hjob => ⟨job, hjob, rfl⟩⟩
      | some w' => exact .inr ⟨happlied, rfl⟩
    · exact .inl ⟨w.jobs, rfl, fun job hjob => ⟨job, hjob, rfl⟩⟩
  cases i with
  | takeJob n => exact .inl ⟨_, rfl, fun job hjob => data_of_mem_modify Job.take_data hjob⟩
  | finishJob n token ok =>
    exact .inl ⟨_, rfl, fun job hjob =>
      data_of_mem_modify (fun job => job.finish_data token ok) hjob⟩
  | _ => exact hwrite _ rfl

theorem written_ok {α : Type} {v : Option World} {d : Delivery} {answer : World → Option α} {a : α}
    (h : written v d answer = .ok a) : d = .done ∧ ∃ w', v = some w' ∧ answer w' = some a := by
  unfold written at h
  split at h
  · rename_i x hx
    obtain ⟨hdone, rfl⟩ := Delivery.answer_ok h
    exact ⟨hdone, Option.bind_eq_some_iff.mp hx⟩
  · cases h

theorem updateBatch_ok {data : BatchData} {updated : Batch}
    (h : w.reply t (.updateBatch id data) o = .ok updated) : o.delivery.applied = true ∧
      w.attempt t o (.updateBatch id data) = some (w.after t (.updateBatch id data) o) ∧
        (w.after t (.updateBatch id data) o).findBatch id = some updated := by
  change written (w.attempt t o (.updateBatch id data)) o.delivery (fun w' =>
    w'.findBatch id) = _ at h
  obtain ⟨hdone, w', hattempt, hfound⟩ := written_ok h
  have happlied : o.delivery.applied = true := by
    rw [hdone]
    rfl
  have hafter : w.after t (.updateBatch id data) o = w' := by
    change (if o.delivery.applied then (w.attempt t o (.updateBatch id data)).getD w else w) = w'
    rw [if_pos happlied, hattempt, Option.getD_some]
  rw [hafter]
  exact ⟨happlied, hattempt, hfound⟩

theorem batches_after : (w.after t i o).batches = w.batches ∨
    (w.after t i o).batches = w.batches.map (change o i) := by
  have hgetD : ∀ c : Bool, (if c then (w.attempt t o i).getD w else w).batches = w.batches ∨
      (if c then (w.attempt t o i).getD w else w).batches = w.batches.map (change o i) := by
    intro c
    cases c with
    | false => exact Or.inl rfl
    | true =>
      cases h : w.attempt t o i with
      | none => exact Or.inl rfl
      | some w' => exact Or.inr (batches_attempt h)
  cases i with
  | takeJob n => exact Or.inl rfl
  | finishJob n token ok => exact Or.inl rfl
  | _ => exact hgetD o.delivery.applied

theorem findBatch_after : (w.after t i o).findBatch id = w.findBatch id ∨
    (w.after t i o).findBatch id = (w.findBatch id).map (change o i) := by
  unfold findBatch
  rcases batches_after (t := t) (w := w) (i := i) (o := o) with h | h
  · exact Or.inl (by rw [h])
  · exact Or.inr (by rw [h, lookup_map fun _ => change_id])

theorem findBatch_after_of_not_mem (h : id ∉ writes i) :
    (w.after t i o).findBatch id = w.findBatch id := by
  rcases (findBatch_after : (w.after t i o).findBatch id = w.findBatch id ∨ _) with hid | hid
  · exact hid
  · cases hb : w.findBatch id with
    | none => rw [hid, hb, Option.map_none]
    | some b => rw [hid, hb, Option.map_some, change_of_not_mem (key_of_lookup hb ▸ h)]

end World

end Livora.BatchDesk
