import Livora.BatchOwners
import Livora.BatchStages
import Livora.StockMoves

/-! What comes in with the batches, in any order of the calls on them and of the worker's attempts.
A batch that is received has brought each of its weights in, once, along every run in which its
job's transaction finds it still waiting for it, no dispute is resolved to weights that nobody
brings in, and nothing is written over a batch that was accepted. -/

namespace Livora.BatchReceptions

open DoubleRounding TransitionRuns EffectPrograms ProgramPools ProgramPools.System KeyedRows RewardStrategies
open JobQueues BatchBooks BatchDesk BatchDesk.World BatchServices BatchWorker BatchStages StockBooks StockMoves
open StockAmounts
open PinVerification (Delivery truthy)
open StoreBooks (Failure)

/-! ### What a batch brings in -/

/-- The movements of what comes in: one for every positive weight, to the gram. -/
def inward (t : Letters) (centerId : String) (origin : Origin) (materials : List Weighed) :
    List InventoryMovement :=
  (materials.filter fun entry => decide (0 < entry.2)).map fun entry =>
    ⟨centerId, .in_, filed entry.2, t.norm entry.1, origin⟩

theorem movements_credit_eq {t : Letters} {s s' : Stock} {centerId : String} {origin : Origin}
    {materials : List Weighed} (h : s.credit t centerId origin materials = some s') :
    s'.movements = s.movements ++ inward t centerId origin materials := by
  unfold Stock.credit at h
  unfold inward
  generalize (materials.filter fun entry => decide (0 < entry.2)) = entries at h
  induction entries generalizing s with
  | nil =>
    cases h
    exact (List.append_nil _).symm
  | cons entry entries ih =>
    rw [List.foldlM_cons] at h
    obtain ⟨mid, hmid, h⟩ := Option.bind_eq_some_iff.mp h
    obtain ⟨y, q, hy, hq, hfirst⟩ := movements_creditOne hmid
    have hfiled : filed entry.2 = q := by
      rw [filed, hy, Option.bind_some, hq]
      rfl
    rw [ih h, hfirst, List.map_cons, hfiled, List.append_assoc, List.singleton_append]

def weighed (materialsActual : Option NumberRecord) : List Weighed :=
  (materialsActual.getD []).map fun entry => (entry.1, entry.2.val)

def isBrought : BatchStatus → Bool
  | .received => true
  | .consolidated => true
  | _ => false

def isAccepted : BatchStatus → Bool
  | .processing => true
  | .partiallyAccepted => true
  | status => isBrought status

theorem accepted_of_brought {status : BatchStatus} (h : isBrought status = true) :
    isAccepted status = true := by
  cases status <;> first | rfl | cases h

def comesIn (t : Letters) (b : Batch) : List InventoryMovement :=
  inward t (b.destinationCenterId.getD "") (.batch b.id) (weighed b.materialsActual)

def due (t : Letters) (b : Batch) : List InventoryMovement :=
  if isBrought b.status then comesIn t b else []

def movementsOf (stock : Stock) (id : String) : List InventoryMovement :=
  stock.movements.filter fun m => m.origin == .batch id

/-- A batch that is received has brought in each positive weight once; another one nothing. -/
def Booked (t : Letters) (w : World) : Prop :=
  ∀ id, movementsOf w.stock id = ((w.findBatch id).map (due t)).getD []

/-- What was accepted stays so, with its weights and its centre, and what was received too. -/
structure Firm (b b' : Batch) : Prop where
  id : b'.id = b.id
  accepted : isAccepted b.status = true → isAccepted b'.status = true ∧
    b'.destinationCenterId = b.destinationCenterId ∧ b'.materialsActual = b.materialsActual
  brought : isBrought b.status = true → isBrought b'.status = true

def Stays (w w' : World) : Prop :=
  ∀ id b, w.findBatch id = some b → ∃ b', w'.findBatch id = some b' ∧ Firm b b'

/-! ### The condition -/

/-- Nothing is written over a batch that was accepted, a dispute is resolved to nothing that weighs,
an acceptance finds the centre that was read, and a job receives a batch that is not in the stock
yet, with weights of two decimals. -/
def Timely (s : Stage) (w : World) : Op → Prop
  | .updateBatch id data => data.status ≠ none → ∀ b, w.findBatch id = some b →
    isAccepted b.status = false ∧
      (data.status = some .received → ∀ entry ∈ weighed (set data b).materialsActual,
        ¬0 < entry.2) ∧
      (data.status ≠ some .flaggedForReview → data.materialsActual ≠ none → ∀ row ∈ s.rows,
        b.destinationCenterId = row.destinationCenterId)
  | .reroute id _ _ => ∀ b, w.findBatch id = some b → isAccepted b.status = false
  | .consolidate _ _ batchIds => ∀ b ∈ w.findBatches batchIds, isBrought b.status = true
  | .receive receipt => (∀ b, w.findBatch receipt.batchId = some b → isBrought b.status = false) ∧
    ∀ entry ∈ receipt.materials, ∃ n : ℕ, entry.2.toDecimal.value = n / 100
  | _ => True

def InTime (c : Race Stage) : RaceEvent → Prop
  | .advance j o => o.delivery.applied = true → ∀ s i, stages c j = some s → pending c j = some i →
    Timely s c.world i
  | _ => True

/-- After the step what was received has come in, once, and the rows of the stock rise with the
movements. -/
structure Good (svc : Backend) (c : Race Stage) (e : RaceEvent) : Prop where
  booked : ∀ c', (race svc).step c e = some c' → Booked svc.letters c'.world
  stays : ∀ c', (race svc).step c e = some c' → Stays c.world c'.world
  sound : ∀ c' j o, (race svc).step c e = some c' → e = .advance j o →
    Sound svc.letters c.world.stock → Sound svc.letters c'.world.stock

/-! ### What a write does to a batch -/

section Writes

variable {t : Letters} {w w' : World} {i : Op} {o : Outcome} {s : Stage} {b read : Batch}
    {id : String}
  {data : BatchData} {job : BatchJob}

theorem Firm.refl (b : Batch) : Firm b b := ⟨rfl, fun h => ⟨h, rfl, rfl⟩, fun h => h⟩

theorem Firm.of_not_accepted {b' : Batch} (hid : b'.id = b.id) (h : isAccepted b.status = false) :
    Firm b b' := by
  refine ⟨hid, fun haccepted => ?_, fun hbrought => ?_⟩
  · rw [h] at haccepted
    cases haccepted
  · rw [accepted_of_brought hbrought] at h
    cases h

theorem not_brought (h : isAccepted b.status = false) : isBrought b.status = false := by
  cases hbrought : isBrought b.status with
  | false => rfl
  | true =>
    rw [accepted_of_brought hbrought] at h
    cases h

theorem due_not_brought (h : isBrought b.status = false) : due t b = [] := by
  unfold due
  rw [h]
  rfl

theorem due_congr {b' : Batch} (hid : b'.id = b.id)
    (hstatus : isBrought b'.status = isBrought b.status)
    (hcenter : b'.destinationCenterId = b.destinationCenterId)
    (hmaterials : b'.materialsActual = b.materialsActual) : due t b' = due t b := by
  unfold due comesIn
  rw [hid, hstatus, hcenter, hmaterials]

theorem inward_eq_nil {centerId : String} {origin : Origin} {materials : List Weighed}
    (h : ∀ entry ∈ materials, ¬0 < entry.2) : inward t centerId origin materials = [] := by
  unfold inward
  rw [List.filter_eq_nil_iff.mpr fun entry hentry => by simpa using h entry hentry, List.map_nil]

theorem Update.settles (h : Update read data) (hstatus : data.status = none) :
    data.destinationCenterId = none ∧ data.materialsActual = none := by
  cases h with
  | settle now found => exact ⟨rfl, rfl⟩
  | _ => cases hstatus

theorem Update.brings (h : Update read data) {status : BatchStatus}
    (hstatus : data.status = some status)
    (hbrought : isBrought status = true) : status = .received := by
  cases h with
  | accept isPartial materialsActual note found =>
    cases isPartial <;> (cases hstatus; cases hbrought)
  | resolve materialsActual note found =>
    cases hstatus
    rfl
  | settle now found => cases hstatus
  | _ =>
    cases hstatus
    cases hbrought

theorem set_eq_of_settles (h : Update read data) (hstatus : data.status = none) :
    (set data b).status = b.status ∧ (set data b).destinationCenterId = b.destinationCenterId ∧
      (set data b).materialsActual = b.materialsActual := by
  obtain ⟨hcenter, hmaterials⟩ := Update.settles h hstatus
  unfold BatchDesk.set
  rw [hstatus, hcenter, hmaterials]
  exact ⟨rfl, rfl, rfl⟩

theorem firm_set (h : Update read data)
    (htimely : data.status ≠ none → isAccepted b.status = false ∧
    (data.status = some .received → ∀ entry ∈ weighed (set data b).materialsActual, ¬0 < entry.2)) :
    Firm b (set data b) ∧ due t (set data b) = due t b := by
  cases hstatus : data.status with
  | none =>
    obtain ⟨hsame, hcenter, hmaterials⟩ := set_eq_of_settles (b := b) h hstatus
    refine ⟨⟨rfl, fun haccepted => ⟨hsame ▸ haccepted, hcenter, hmaterials⟩, fun hbrought =>
      hsame ▸ hbrought⟩, ?_⟩
    exact due_congr rfl (by rw [hsame]) hcenter hmaterials
  | some status =>
    obtain ⟨haccepted, hnothing⟩ := htimely (by rw [hstatus]; exact Option.some_ne_none _)
    refine ⟨.of_not_accepted rfl haccepted, ?_⟩
    rw [due_not_brought (not_brought haccepted)]
    have hnew : (set data b).status = status := by
      unfold BatchDesk.set
      rw [hstatus]
      rfl
    cases hbrought : isBrought status with
    | false => exact due_not_brought (hnew ▸ hbrought)
    | true =>
      obtain rfl := Update.brings h hstatus hbrought
      unfold due comesIn
      rw [inward_eq_nil (hnothing hstatus)]
      exact ite_self _

theorem firm_change (hallowed : Allowed s i) (htimely : Timely s w i) (hb : w.findBatch id = some b)
    (hi : ∀ receipt, i ≠ .receive receipt) :
    Firm b (change o i b) ∧ due t (change o i b) = due t b := by
  cases i with
  | updateBatch id' data =>
    obtain ⟨read, -, -, hupdate⟩ := hallowed
    simp only [change]
    split
    · rename_i hid
      refine firm_set hupdate fun hstatus => ?_
      obtain ⟨haccepted, hnothing, -⟩ := htimely hstatus b (by rw [← hid, key_of_lookup hb, hb])
      exact ⟨haccepted, hnothing⟩
    · exact ⟨.refl b, rfl⟩
  | reroute id' newCenterId dispute =>
    simp only [change]
    split
    · rename_i hid
      have haccepted := htimely b (by rw [← hid, key_of_lookup hb, hb])
      refine ⟨.of_not_accepted rfl haccepted, ?_⟩
      rw [due_not_brought (not_brought haccepted)]
      exact due_not_brought rfl
    · exact ⟨.refl b, rfl⟩
  | consolidate centerId totalWeight batchIds =>
    simp only [change]
    split
    · rename_i hmem
      have hbrought : isBrought b.status = true :=
        htimely b (List.mem_filter.mpr ⟨mem_of_lookup hb, hmem⟩)
      refine ⟨⟨rfl, fun _ => ⟨rfl, rfl, rfl⟩, fun _ => rfl⟩, ?_⟩
      exact due_congr rfl hbrought.symm rfl rfl
    · exact ⟨.refl b, rfl⟩
  | receive receipt => exact absurd rfl (hi receipt)
  | _ => exact ⟨.refl b, rfl⟩

end Writes

/-! ### What the jobs know -/

/-- The job is of an accepted batch, with its weights and its centre. -/
def Matches (w : World) (job : BatchJob) : Prop :=
  ∃ b, w.findBatch job.batchId = some b ∧ isAccepted b.status = true ∧
    job.centerId = b.destinationCenterId ∧ job.materialsActual = b.materialsActual

/-- The job that a program has in hand or is about to add, and the row that was read for it. -/
structure Holds (w : World) (s : Stage) : Prop where
  hand : ∀ job, s.job = some job → job.batchId ≠ "" → Matches w job
  record : ∀ job found, s.job = some job → job.batchId ≠ "" → s.record = some found →
    s.ids = [job.batchId] → found.row.destinationCenterId = job.centerId ∧
      found.row.materialsActual = job.materialsActual
  promise : ∀ b updated data job, Enqueues s b updated data job → Matches w job

structure Kept (svc : Backend) (c : Race Stage) : Prop where
  disciplined : (race svc).Disciplined c
  booked : Booked svc.letters c.world
  queue : ∀ job ∈ c.world.jobs, job.data.batchId ≠ "" → Matches c.world job.data
  tasks : ∀ j s, stages c j = some s → Holds c.world s

section Jobs

variable {t : Letters} {w w' : World} {i : Op} {o : Outcome} {s : Stage} {b read : Batch}
    {id : String}
  {data : BatchData} {job : BatchJob}

theorem Matches.stays (h : Matches w job) (hstays : Stays w w') : Matches w' job := by
  obtain ⟨b, hb, haccepted, hcenter, hmaterials⟩ := h
  obtain ⟨b', hb', hfirm⟩ := hstays _ b hb
  obtain ⟨haccepted', hcenter', hmaterials'⟩ := hfirm.accepted haccepted
  exact ⟨b', hb', haccepted', hcenter.trans hcenter'.symm, hmaterials.trans hmaterials'.symm⟩

theorem Holds.stays (h : Holds w s) (hstays : Stays w w') : Holds w' s where
  hand job hjob hnamed := (h.hand job hjob hnamed).stays hstays
  record := h.record
  promise b updated data job henqueues := (h.promise b updated data job henqueues).stays hstays

theorem holds_first : Holds w .first where
  hand _ hjob := by cases hjob
  record _ _ hjob := by cases hjob
  promise _ _ _ _ h := by cases h.rows

theorem stays_refl (w : World) : Stays w w := fun _ b hb => ⟨b, hb, .refl b⟩

theorem receipt_eq (hholds : Holds w s) {receipt : Receipt} (hreceives : Receives s job receipt) :
    ∃ b, w.findBatch receipt.batchId = some b ∧ isAccepted b.status = true ∧
      b.destinationCenterId = some receipt.centerId ∧
        receipt.materials = b.materialsActual.getD [] := by
  obtain ⟨b, hb, haccepted, hcenter, hmaterials⟩ := hholds.hand job hreceives.taken hreceives.named
  have hcenterId := hreceives.centerId
  have hreceipt := hreceives.materials
  refine ⟨b, hreceives.batchId ▸ hb, haccepted, ?_, ?_⟩
  · cases hrecord : s.record with
    | none =>
      rw [hrecord] at hcenterId
      rw [← hcenter]
      exact hcenterId
    | some found =>
      obtain ⟨hread, -⟩ := hholds.record job found hreceives.taken hreceives.named hrecord
        (hreceives.record found hrecord)
      rw [hrecord] at hcenterId
      unfold effectiveCenterId at hcenterId
      rw [Option.bind_some, hread, hcenter] at hcenterId
      unfold truthy at hcenterId
      cases hdestination : b.destinationCenterId with
      | none =>
        rw [hdestination] at hcenterId
        cases hcenterId
      | some destination =>
        rw [hdestination, Option.filter_some] at hcenterId
        split at hcenterId <;> exact hcenterId
  · cases hrecord : s.record with
    | none =>
      rw [hreceipt, hrecord]
      unfold effectiveMaterials
      rw [Option.bind_none, Option.or_none, hmaterials]
    | some found =>
      obtain ⟨-, hread⟩ := hholds.record job found hreceives.taken hreceives.named hrecord
        (hreceives.record found hrecord)
      rw [hreceipt, hrecord]
      unfold effectiveMaterials
      rw [Option.bind_some, hread, Option.or_self, hmaterials]

theorem findBatch_attempt (h : w.attempt t o i = some w') (id : String) :
    w'.findBatch id = (w.findBatch id).map (change o i) := by
  unfold findBatch
  rw [batches_attempt h, lookup_map fun _ => change_id]

theorem stock_attempt (h : w.attempt t o i = some w') (hi : ∀ receipt, i ≠ .receive receipt) :
    w'.stock = w.stock := by
  cases i with
  | updateBatch id data =>
    obtain ⟨-, -, rfl⟩ := Option.map_eq_some_iff.mp h
    rfl
  | reroute id newCenterId dispute =>
    obtain ⟨-, -, rfl⟩ := Option.map_eq_some_iff.mp h
    rfl
  | consolidate centerId totalWeight batchIds =>
    obtain ⟨row, -, rfl⟩ := Option.map_eq_some_iff.mp h
    rfl
  | addJob data =>
    cases h
    unfold addJob
    split <;> rfl
  | receive receipt => exact absurd rfl (hi receipt)
  | _ =>
    cases h
    rfl

theorem receive_some {receipt : Receipt} (h : w.attempt t o (.receive receipt) = some w') :
    w.stock.credit t receipt.centerId (.batch receipt.batchId)
        (receipt.materials.map fun entry => (entry.1, entry.2.val)) = some w'.stock ∧
      w'.jobs = w.jobs := by
  obtain ⟨_, -, h⟩ := Option.bind_eq_some_iff.mp h
  obtain ⟨stock, hstock, h⟩ := Option.bind_eq_some_iff.mp h
  cases h
  exact ⟨hstock, rfl⟩

theorem movementsOf_inward {centerId : String} {materials : List Weighed}
    {movements : List InventoryMovement} {items : List InventoryItem} {other : String} :
    movementsOf ⟨items, movements ++ inward t centerId (.batch other) materials⟩ id =
      movementsOf ⟨items, movements⟩ id ++ if other = id then inward t centerId
        (.batch other) materials else [] := by
  unfold movementsOf
  rw [List.filter_append]
  congr 1
  have horigin : ∀ m ∈ inward t centerId (.batch other) materials, m.origin = .batch other := by
    intro m hm
    obtain ⟨entry, -, rfl⟩ := List.mem_map.mp hm
    rfl
  split
  · rename_i hid
    refine List.filter_eq_self.mpr fun m hm => ?_
    rw [horigin m hm, hid]
    exact beq_self_eq_true _
  · rename_i hid
    refine List.filter_eq_nil_iff.mpr fun m hm hm' => hid ?_
    rw [horigin m hm, beq_iff_eq] at hm'
    exact Origin.batch.inj hm'

theorem booked_attempt (hbooked : Booked t w) (hholds : Holds w s) (hallowed : Allowed s i)
    (htimely : Timely s w i) (h : w.attempt t o i = some w') : Booked t w' ∧ Stays w w' := by
  by_cases hi : ∃ receipt, i = .receive receipt
  · obtain ⟨receipt, rfl⟩ := hi
    obtain ⟨job, hreceives⟩ := hallowed
    obtain ⟨hwaiting, -⟩ := htimely
    obtain ⟨hcredit, -⟩ := receive_some h
    obtain ⟨b, hb, haccepted, hcenter, hmaterials⟩ := receipt_eq hholds hreceives
    have hnotyet : isBrought b.status = false := hwaiting b hb
    have hid : b.id = receipt.batchId := key_of_lookup hb
    have hmovements := movements_credit_eq hcredit
    constructor
    · intro id
      have hstock : movementsOf w'.stock id = movementsOf w.stock id ++
          if receipt.batchId = id then inward t receipt.centerId (.batch receipt.batchId)
            (receipt.materials.map fun entry => (entry.1, entry.2.val)) else [] := by
        refine Eq.trans ?_ (movementsOf_inward : movementsOf ⟨w.stock.items, _⟩ id = _)
        unfold movementsOf
        rw [hmovements]
      rw [hstock, hbooked id, findBatch_attempt h]
      by_cases hsame : receipt.batchId = id
      · subst hsame
        rw [if_pos rfl, hb, Option.map_some, Option.map_some, Option.map_some, Option.getD_some, Option.getD_some,
          due_not_brought hnotyet, List.nil_append]
        have hreceived : change o (.receive receipt) b =
            { b with status := .received, ipfsCid := some receipt.ipfsCid, txHash := receipt.txHash } := if_pos hid
        rw [hreceived]
        unfold due comesIn weighed
        rw [hcenter, hid, hmaterials]
        rfl
      · rw [if_neg hsame, List.append_nil]
        cases hother : w.findBatch id with
        | none => rfl
        | some other =>
          have hkeep : change o (.receive receipt) other = other :=
            change_of_not_mem fun hmem => hsame (by
              rw [← key_of_lookup hother, List.mem_singleton.mp hmem])
          rw [Option.map_some, Option.map_some, hkeep, Option.map_some]
    · intro id other hother
      refine ⟨_, (findBatch_attempt h id).trans (by rw [hother, Option.map_some]), ?_⟩
      change Firm other (receivedAs receipt other)
      unfold receivedAs
      split
      · exact ⟨rfl, fun _ => ⟨rfl, rfl, rfl⟩, fun _ => rfl⟩
      · exact .refl other
  · have hi : ∀ receipt, i ≠ .receive receipt := fun receipt heq => hi ⟨receipt, heq⟩
    constructor
    · intro id
      rw [stock_attempt h hi, hbooked id, findBatch_attempt h]
      cases hb : w.findBatch id with
      | none => rfl
      | some b =>
        obtain ⟨-, hdue⟩ := firm_change (t := t) (o := o) hallowed htimely hb hi
        rw [Option.map_some, Option.map_some, Option.map_some, hdue]
    · intro id b hb
      obtain ⟨hfirm, -⟩ := firm_change (t := t) (o := o) hallowed htimely hb hi
      exact ⟨_, (findBatch_attempt h id).trans (by rw [hb, Option.map_some]), hfirm⟩

theorem jobs_attempt (h : w.attempt t o i = some w') :
    w'.jobs = w.jobs ∨ ∃ data, i = .addJob data ∧ w'.jobs = w.jobs ++ [.new data 5] := by
  cases i with
  | updateBatch id data =>
    obtain ⟨-, -, rfl⟩ := Option.map_eq_some_iff.mp h
    exact .inl rfl
  | reroute id newCenterId dispute =>
    obtain ⟨-, -, rfl⟩ := Option.map_eq_some_iff.mp h
    exact .inl rfl
  | consolidate centerId totalWeight batchIds =>
    obtain ⟨row, -, rfl⟩ := Option.map_eq_some_iff.mp h
    exact .inl rfl
  | addJob data =>
    cases h
    unfold addJob
    split
    · exact .inl rfl
    · exact .inr ⟨data, rfl, rfl⟩
  | receive receipt => exact .inl (receive_some h).2
  | _ =>
    cases h
    exact .inl rfl

theorem matches_written {updated : Batch} (hallowed : Allowed s (.updateBatch id data))
    (htimely : Timely s w (.updateBatch id data))
    (h : w.attempt t o (.updateBatch id data) = some w')
    (hupdated : w'.findBatch id = some updated) (hrows : s.rows = [b])
    (hid : job.batchId = updated.id)
    (hstatus : data.status = some .processing ∨ data.status = some .partiallyAccepted)
    (hfits : job.centerId = updated.destinationCenterId ∧
      job.materialsActual = updated.materialsActual ∧
        data.materialsActual = none ∨
      job.centerId = b.destinationCenterId ∧ job.materialsActual = data.materialsActual ∧
        data.materialsActual ≠ none) : Matches w' job := by
  have hkey : updated.id = id := key_of_lookup hupdated
  refine ⟨updated, by rw [hid, hkey, hupdated], ?_⟩
  rw [findBatch_attempt h] at hupdated
  obtain ⟨row, hrow, rfl⟩ := Option.map_eq_some_iff.mp hupdated
  have hset : change o (.updateBatch id data) row = BatchDesk.set data row :=
    if_pos (key_of_lookup hrow)
  rw [hset] at hfits ⊢
  have haccepted : isAccepted (BatchDesk.set data row).status = true := by
    unfold BatchDesk.set
    rcases hstatus with hstatus | hstatus <;> rw [hstatus] <;> rfl
  refine ⟨haccepted, ?_⟩
  rcases hfits with ⟨hcenter, hmaterials, -⟩ | ⟨hcenter, hmaterials, hsome⟩
  · exact ⟨hcenter, hmaterials⟩
  · obtain ⟨read, -, hread, hupdate⟩ := hallowed
    have hnone : data.destinationCenterId = none := by
      cases hupdate with
      | dispatch destinationCenterId found => exact absurd rfl hsome
      | _ => rfl
    have hstays : data.status ≠ none := by
      rcases hstatus with hstatus | hstatus <;> rw [hstatus] <;> exact Option.some_ne_none _
    have hflagged : data.status ≠ some .flaggedForReview := by
      rcases hstatus with hstatus | hstatus <;> rw [hstatus] <;> simp
    obtain ⟨-, -, hcentre⟩ := htimely hstays row hrow
    have hsame : row.destinationCenterId = b.destinationCenterId :=
      hcentre hflagged hsome b (by rw [hrows]; exact List.mem_singleton_self b)
    unfold BatchDesk.set
    refine ⟨?_, ?_⟩
    · rw [hcenter, hnone, Option.none_or, hsame]
    · rw [hmaterials]
      obtain ⟨m, hm⟩ := Option.ne_none_iff_exists'.mp hsome
      rw [hm, Option.some_or]

theorem holds_next (hholds : Holds w s)
    (hqueue : ∀ job ∈ w.jobs, job.data.batchId ≠ "" → Matches w job.data)
    (hallowed : Allowed s i) (htimely : o.delivery.applied = true → Timely s w i)
    (hstays : Stays w (w.after t i o)) : Holds (w.after t i o) (next s i (w.reply t i o)) := by
  have hkeep : Holds (w.after t i o) s := hholds.stays hstays
  cases i with
  | findBatch id =>
    cases hreply : w.reply t (.findBatch id) o with
    | error e => exact hkeep
    | ok found =>
      obtain ⟨-, rfl⟩ := Delivery.answer_ok hreply
      refine ⟨hkeep.hand, fun job found hjob hnamed hfound hids =>
        ?_, fun b updated data job henqueues => ?_⟩
      · obtain ⟨b, hb, -, hcenter, hmaterials⟩ := hholds.hand job hjob hnamed
        obtain ⟨row, hrow, rfl⟩ := Option.map_eq_some_iff.mp hfound
        cases List.singleton_inj.mp hids
        cases hb.symm.trans hrow
        exact ⟨hcenter.symm, hmaterials.symm⟩
      · have hwrote : s.wrote = none := hallowed
        exact absurd (hwrote.symm.trans henqueues.wrote) (Option.some_ne_none _).symm
  | findBatches ids =>
    cases hreply : w.reply t (.findBatches ids) o with
    | error e => exact hkeep
    | ok rows =>
      refine ⟨hkeep.hand, fun job found _ _ hfound => (by cases hfound),
        fun b updated data job henqueues => ?_⟩
      have hwrote : s.wrote = none := hallowed
      exact absurd (hwrote.symm.trans henqueues.wrote) (Option.some_ne_none _).symm
  | updateBatch id data =>
    cases hreply : w.reply t (.updateBatch id data) o with
    | error e => exact hkeep
    | ok updated =>
      refine ⟨hkeep.hand, hkeep.record, fun b updated' data' job henqueues => ?_⟩
      obtain ⟨rfl, rfl⟩ := Prod.mk.inj (Option.some.inj henqueues.wrote)
      obtain ⟨happlied, hattempt, hfound⟩ := updateBatch_ok hreply
      exact matches_written hallowed
        (htimely happlied) hattempt hfound henqueues.rows henqueues.batchId
        henqueues.status henqueues.fits
  | takeJob n =>
    refine ⟨fun job hjob hnamed => ?_, fun job found _ _ hfound =>
      ?_, fun b updated data job henqueues => ?_⟩
    · obtain ⟨taken, htaken, rfl⟩ := Option.map_eq_some_iff.mp hjob
      obtain ⟨old, hold, rfl⟩ := Option.map_eq_some_iff.mp htaken
      rw [Job.take_data] at hnamed ⊢
      exact (hqueue old (mem_of_waiting hold) hnamed).stays hstays
    · have hrecord : s.record = none := hallowed
      exact absurd (hrecord.symm.trans hfound) (Option.some_ne_none _).symm
    · exact hkeep.promise b updated data job ⟨henqueues.rows, henqueues.wrote, henqueues.batchId,
        henqueues.status, henqueues.fits⟩
  | _ => exact hkeep

end Jobs

/-! ### Every run -/

section Runs

variable {svc : Backend} {t : Letters} {w w' : World} {i : Op} {o : Outcome} {s : Stage}
  {c c' : Race Stage} {e : RaceEvent}

theorem booked_after (hbooked : Booked t w) (hholds : Holds w s) (hallowed : Allowed s i)
    (htimely : o.delivery.applied = true → Timely s w i) :
    Booked t (w.after t i o) ∧ Stays w (w.after t i o) := by
  rcases after_cases t w i o with ⟨jobs, hafter, -⟩ | ⟨happlied, hattempt⟩
  · rw [hafter]
    exact ⟨hbooked, stays_refl w⟩
  · exact booked_attempt hbooked hholds hallowed (htimely happlied) hattempt

theorem queue_after (hqueue : ∀ job ∈ w.jobs, job.data.batchId ≠ "" → Matches w job.data)
    (hholds : Holds w s) (hallowed : Allowed s i) (hstays : Stays w (w.after t i o)) :
    ∀ job ∈ (w.after t i o).jobs, job.data.batchId ≠ "" → Matches (w.after t i o) job.data := by
  intro job hjob hnamed
  refine Matches.stays ?_ hstays
  rcases after_cases t w i o with ⟨jobs, hafter, hjobs⟩ | ⟨happlied, hattempt⟩
  · rw [hafter] at hjob
    obtain ⟨old, hold, hdata⟩ := hjobs job hjob
    rw [← hdata] at hnamed ⊢
    exact hqueue old hold hnamed
  · rcases jobs_attempt hattempt with hsame | ⟨data, rfl, hadded⟩
    · exact hqueue job (hsame ▸ hjob) hnamed
    · rw [hadded] at hjob
      rcases List.mem_append.mp hjob with hjob | hjob
      · exact hqueue job hjob hnamed
      · obtain ⟨b, updated, written, henqueues⟩ := hallowed
        rw [List.mem_singleton.mp hjob]
        exact hholds.promise b updated written data henqueues

theorem sound_after (hsound : Sound t w.stock)
    (htimely : o.delivery.applied = true → Timely s w i) :
    Sound t (w.after t i o).stock := by
  rcases after_cases t w i o with ⟨jobs, hafter, -⟩ | ⟨happlied, hattempt⟩
  · rw [hafter]
    exact hsound
  · by_cases hi : ∃ receipt, i = .receive receipt
    · obtain ⟨receipt, rfl⟩ := hi
      obtain ⟨-, hdecimals⟩ := htimely happlied
      refine sound_credit hsound (fun entry hentry y q hy hq => ?_) (receive_some hattempt).1
      obtain ⟨weight, hweight, rfl⟩ := List.mem_map.mp hentry
      exact whole_of_column (hdecimals weight hweight) hy hq
    · rw [stock_attempt hattempt fun receipt heq => hi ⟨receipt, heq⟩]
      exact hsound

theorem mem_of_forgotten {jobs : List (Job BatchJob)} {n : ℕ} {job : Job BatchJob}
    (hjob : job ∈ jobs.modify n forgotten) (hnamed : job.data.batchId ≠ "") : job ∈ jobs := by
  induction jobs generalizing n with
  | nil => simp at hjob
  | cons first rest ih =>
    cases n with
    | zero =>
      rw [List.modify_zero_cons] at hjob
      rcases List.mem_cons.mp hjob with rfl | hjob
      · unfold forgotten at hnamed ⊢
        split
        · rename_i hover
          rw [if_pos hover] at hnamed
          exact absurd rfl hnamed
        · exact List.mem_cons_self
      · exact List.mem_cons_of_mem _ hjob
    | succ n =>
      rw [List.modify_succ_cons] at hjob
      rcases List.mem_cons.mp hjob with rfl | hjob
      · exact List.mem_cons_self
      · exact List.mem_cons_of_mem _ (ih hjob)

theorem booked_outside {d : Outside} (hbooked : Booked t w)
    (hqueue : ∀ job ∈ w.jobs, job.data.batchId ≠ "" → Matches w job.data)
    (hw : outside w d = some w') :
    Booked t w' ∧ Stays w w' ∧ ∀ job ∈ w'.jobs, job.data.batchId ≠ "" → Matches w' job.data := by
  have hjobs : ∀ n (f : Job BatchJob → Job BatchJob), (∀ job, (f job).data = job.data) →
      ∀ job ∈ w.jobs.modify n f, job.data.batchId ≠ "" → Matches w job.data := by
    intro n f hf job hjob hnamed
    obtain ⟨old, hold, hdata⟩ := data_of_mem_modify hf hjob
    rw [← hdata] at hnamed ⊢
    exact hqueue old hold hnamed
  cases d with
  | «open» id collectorId centerId =>
    obtain ⟨hfresh, hw⟩ := Option.ite_none_right_eq_some.mp hw
    cases hw
    have hfind : ∀ id', World.findBatch
        { w with batches := w.batches ++ [openBatch id collectorId centerId w.now] } id' =
        (w.findBatch id').or
          (if id = id' then some (openBatch id collectorId centerId w.now) else none) :=
      fun id' => lookup_append
    have hstays : Stays w { w with batches := w.batches ++
        [openBatch id collectorId centerId w.now] } := by
      intro id' b hb
      exact ⟨b, by rw [hfind, hb, Option.some_or], .refl b⟩
    refine ⟨fun id' => ?_, hstays, fun job hjob hnamed => (hqueue job hjob hnamed).stays hstays⟩
    change movementsOf w.stock id' = _
    rw [hbooked id', hfind]
    cases hb : w.findBatch id' with
    | some b => rfl
    | none =>
      rw [Option.none_or]
      split <;> rfl
  | stock stock =>
    obtain ⟨hsame, hw⟩ := Option.ite_none_right_eq_some.mp hw
    cases hw
    refine ⟨fun id => ?_, stays_refl w, hqueue⟩
    have hof : ∀ stock : Stock, movementsOf stock id =
        (stock.movements.filter broughtIn).filter fun m => m.origin == .batch id := by
      intro stock
      rw [List.filter_filter]
      refine List.filter_congr fun m _ => ?_
      unfold broughtIn
      cases m.origin <;> simp
    change movementsOf stock id = ((w.findBatch id).map (due t)).getD []
    rw [← hbooked id, hof, hof w.stock, hsame]
  | stall n =>
    cases hw
    exact ⟨hbooked, stays_refl w, hjobs n _ Job.stall_data⟩
  | retry n =>
    cases hw
    exact ⟨hbooked, stays_refl w, hjobs n _ Job.retry_data⟩
  | forget n =>
    cases hw
    exact ⟨hbooked, stays_refl w, fun job hjob hnamed =>
      hqueue job (mem_of_forgotten hjob hnamed) hnamed⟩
  | _ =>
    cases hw
    exact ⟨hbooked, stays_refl w, hqueue⟩

theorem tasks_update {j : ℕ} {u : Option (Task Stage Op (fun i => Except Failure (Reply i))
      (Except Failure (Option Answer)))} (hrest : ∀ j s, stages c j = some s → Holds w s)
    (hnew : ∀ s, u.map Task.stage = some s → Holds w s) (j' : ℕ) (s : Stage)
    (hs : stages ⟨w, Function.update c.tasks j u⟩ j' = some s) : Holds w s := by
  rw [stages_update] at hs
  by_cases hj : j' = j
  · subst hj
    rw [Function.update_self] at hs
    exact hnew s hs
  · rw [Function.update_of_ne hj] at hs
    exact hrest j' s hs

theorem kept_of_inTime (hkept : Kept svc c) (htime : InTime c e)
    (h : (race svc).step c e = some c') :
    Kept svc c' ∧ Stays c.world c'.world := by
  have hdisciplined : (race svc).Disciplined c' :=
    step_disciplined (follows_program svc) hkept.disciplined h
  cases e with
  | start j a =>
    obtain ⟨-, rfl⟩ := step_start.mp h
    refine ⟨⟨hdisciplined, hkept.booked, hkept.queue, ?_⟩, stays_refl _⟩
    exact tasks_update hkept.tasks fun s hs => Option.some.inj hs ▸ holds_first
  | stop j =>
    obtain ⟨-, rfl⟩ := step_stop.mp h
    refine ⟨⟨hdisciplined, hkept.booked, hkept.queue, ?_⟩, stays_refl _⟩
    exact tasks_update hkept.tasks fun s hs => by cases hs
  | outside d =>
    obtain ⟨w, hw, rfl⟩ := step_outside.mp h
    obtain ⟨hbooked, hstays, hqueue⟩ := booked_outside hkept.booked hkept.queue hw
    exact ⟨⟨hdisciplined, hbooked, hqueue, fun j' s hs => (hkept.tasks j' s hs).stays hstays⟩,
      hstays⟩
  | advance j o =>
    obtain ⟨s, i, k, ht, rfl⟩ := step_advance.mp h
    have hs := stages_eq ht
    have hholds := hkept.tasks j s hs
    have hallowed : Allowed s i := allowed_pending hkept.disciplined hs (pending_eq ht)
    have htimely : o.delivery.applied = true → Timely s c.world i := fun happlied =>
      htime happlied s i hs (pending_eq ht)
    obtain ⟨hbooked, hstays⟩ := booked_after (o := o) hkept.booked hholds hallowed htimely
    refine ⟨⟨hdisciplined, hbooked, queue_after hkept.queue hholds hallowed hstays, ?_⟩, hstays⟩
    refine tasks_update (fun j s hs => (hkept.tasks j s hs).stays hstays) fun s' hs' => ?_
    cases hs'
    exact holds_next hholds hkept.queue hallowed htimely hstays

theorem good_of_inTime (hkept : Kept svc c) (htime : InTime c e) : Good svc c e where
  booked c' h := (kept_of_inTime hkept htime h).1.booked
  stays c' h := (kept_of_inTime hkept htime h).2
  sound c' j o h he hsound := by
    subst he
    obtain ⟨s, i, k, ht, rfl⟩ := step_advance.mp h
    exact sound_after hsound fun happlied => htime happlied s i (stages_eq ht) (pending_eq ht)

structure Ready (t : Letters) (w : World) : Prop where
  booked : Booked t w
  queue : ∀ job ∈ w.jobs, job.data.batchId ≠ "" → Matches w job.data

/-- Along every run in time, a batch that is received has brought each of its positive weights into
the stock of its centre exactly once. -/
theorem receptions_kept (svc : Backend) {w : World} (h : Ready svc.letters w) {es : List RaceEvent}
    (htime : Along (race svc).step InTime (quiescent w) es) :
    Along (race svc).step (Good svc) (quiescent w) es :=
  along_strengthen (fun c e c' hkept htime h => (kept_of_inTime hkept htime h).1)
    (fun c e hkept htime => good_of_inTime hkept htime)
    ⟨fun j t ht => (by cases ht), h.booked, h.queue, fun j s hs => by cases hs⟩ htime

end Runs

/-! ### Ten kilograms -/

def backend : Backend :=
  ⟨BatchOwners.reception, StockRaces.normalLetters, fun cid =>
    "https://grupolivoralabs.com/ipfs/" ++ cid⟩

theorem ten_lt : 10 < 2 ^ 53 := by decide

def tenKilograms : NumberRecord := [("PET", .ofNat 10 ten_lt)]

def underway : Batch := { openBatch "batch" "collector" "center" 0 with status := .inTransit }

def desk (status : BatchStatus) (materialsActual : Option NumberRecord)
    (jobs : List (Job BatchJob)) : World where
  users := []
  batches := [{ underway with status := status, materialsActual := materialsActual }]
  requests := [⟨"household", some "batch", tenKilograms⟩]
  consolidated := []
  disputes := []
  stock := ⟨[], []⟩
  jobs := jobs
  now := 0

theorem booked_desk {status : BatchStatus} (hstatus : isBrought status = false)
    (materialsActual : Option NumberRecord) (jobs : List (Job BatchJob)) :
    Booked backend.letters (desk status materialsActual jobs) := by
  intro id
  change [] = _
  cases hb : (desk status materialsActual jobs).findBatch id with
  | none => rfl
  | some b =>
    rw [List.mem_singleton.mp (mem_of_lookup hb)]
    exact (due_not_brought hstatus).symm

def answers (j n : ℕ) : List RaceEvent := List.replicate n (.advance j ⟨.done, "cid", some "hash"⟩)

/-- `InTime` as a test, of runs that receive the ten kilograms. -/
def inTime (c : Race Stage) : RaceEvent → Bool
  | .advance j o =>
    match stages c j, pending c j with
    | some s, some (.updateBatch _ data) => !o.delivery.applied || (c.world.batches.all fun b =>
        !isAccepted b.status && s.rows.all fun row =>
          row.destinationCenterId == b.destinationCenterId) &&
          data.status != some .received
    | some _, some (.receive receipt) => !o.delivery.applied ||
        (c.world.batches.all fun b => !isBrought b.status) && receipt.materials == tenKilograms
    | some _, some (.reroute _ _ _) => !o.delivery.applied
    | some _, some (.consolidate _ _ _) => !o.delivery.applied
    | _, _ => true
  | _ => true

theorem tenKilograms_decimals : ∀ entry ∈ tenKilograms, ∃ n :
    ℕ, entry.2.toDecimal.value = n / 100 := by
  intro entry hentry
  rw [List.mem_singleton.mp hentry]
  refine ⟨1000, ?_⟩
  have hvalue : (Double.ofNat 10 ten_lt).toDecimal.value = 10 := by decide +kernel
  rw [hvalue]
  norm_num

theorem inTime_of_test {c : Race Stage} {e : RaceEvent} (h : inTime c e = true) : InTime c e := by
  cases e with
  | advance j o =>
    intro happlied s i hs hi
    simp only [inTime, hs, hi, happlied, Bool.not_true, Bool.false_or] at h
    cases i with
    | updateBatch _ data =>
      simp only [Bool.and_eq_true, List.all_eq_true, bne_iff_ne, beq_iff_eq, Bool.not_eq_true'] at h
      obtain ⟨hall, hstatus⟩ := h
      intro _ b hb
      obtain ⟨haccepted, hcenter⟩ := hall b (mem_of_lookup hb)
      exact ⟨haccepted, fun hreceived => absurd hreceived hstatus, fun _ _ row hrow =>
        (hcenter row hrow).symm⟩
    | receive receipt =>
      simp only [Bool.and_eq_true, List.all_eq_true, beq_iff_eq, Bool.not_eq_true'] at h
      obtain ⟨hall, hmaterials⟩ := h
      refine ⟨fun b hb => hall b (mem_of_lookup hb), ?_⟩
      rw [hmaterials]
      exact tenKilograms_decimals
    | reroute id newCenterId dispute => cases h
    | consolidate centerId totalWeight batchIds => cases h
    | _ => trivial
  | _ => trivial

def weighing : List RaceEvent :=
  .start 0 (.endpoint ⟨"center", .centroAcopio⟩
    (.receive "batch" ⟨tenKilograms, none, none⟩)) :: answers 0 5 ++
    .start 1 (.worker 0) :: answers 1 13

theorem receptions_kept_weighed :
    (∃ c, run (race backend).step (quiescent (desk .inTransit none [])) weighing = some c ∧
      c.world.batches.map Batch.status = [.received] ∧
        movementsOf c.world.stock "batch" = [⟨"center", .in_, 10, "PET", .batch "batch"⟩]) ∧
    Along (race backend).step (Good backend) (quiescent (desk .inTransit none [])) weighing := by
  have hrun : (run (race backend).step (quiescent (desk .inTransit none [])) weighing).map (fun c =>
      (c.world.batches.map Batch.status, movementsOf c.world.stock "batch")) =
        some ([.received], [⟨"center", .in_, 10, "PET", .batch "batch"⟩]) := by decide +kernel
  have htest : Along (race backend).step (fun c e => inTime c e = true)
    (quiescent (desk .inTransit none []))
      weighing := by decide +kernel
  obtain ⟨c, hc, hbooks⟩ := Option.map_eq_some_iff.mp hrun
  refine ⟨⟨c, hc, Prod.mk.inj hbooks⟩, ?_⟩
  exact receptions_kept backend ⟨booked_desk rfl none [], fun job hjob =>
    absurd hjob List.not_mem_nil⟩
    (along_mono (fun _ _ h => inTime_of_test h) htest)

def batchJob : BatchJob := ⟨"batch", "collector", some "center", some tenKilograms, ["household"]⟩

def processing : World := desk .processing (some tenKilograms) [.new batchJob 5]

/-- A message fails after the transaction, and the queue tries the job again. -/
def triedTwice : List RaceEvent :=
  .start 0 (.worker 0) :: answers 0 6 ++ .advance 0 ⟨.lost, "", none⟩ :: answers 0 1 ++
    .start 1 (.worker 0) :: answers 1 13

def resolved : List RaceEvent :=
  .start 0 (.endpoint ⟨"admin", .admin⟩ (.resolveDispute "batch" none none)) :: answers 0 2

/-- How many movements there are of the batch, and how many are due. -/
def counts (c : Race Stage) : ℕ × ℕ :=
  ((movementsOf c.world.stock "batch").length,
    (((c.world.findBatch "batch").map (due backend.letters)).getD []).length)

theorem not_booked_of_counts {c : Race Stage} (h : (counts c).1 ≠ (counts c).2) :
    ¬Booked backend.letters c.world := fun hbooked => h (congrArg List.length (hbooked "batch"))

/-- Ten kilograms come in twice, or never. -/
theorem comes_in_twice_or_never :
    (Ready backend.letters processing ∧
      ∃ c, run (race backend).step (quiescent processing) triedTwice = some c ∧
      counts c = (2, 1) ∧ ¬Booked backend.letters c.world) ∧
    Ready backend.letters (desk .disputed (some tenKilograms) []) ∧
      ∃ c, run (race backend).step (quiescent (desk .disputed (some tenKilograms) [])) resolved =
        some c ∧
        counts c = (0, 1) ∧ ¬Booked backend.letters c.world := by
  have htwice : (run (race backend).step (quiescent processing) triedTwice).map counts =
      some (2, 1) := by
    decide +kernel
  have hnever : (run (race backend).step
    (quiescent (desk .disputed (some tenKilograms) [])) resolved).map counts =
      some (0, 1) := by decide +kernel
  obtain ⟨c, hc, hcounts⟩ := Option.map_eq_some_iff.mp htwice
  obtain ⟨c', hc', hcounts'⟩ := Option.map_eq_some_iff.mp hnever
  refine ⟨⟨⟨booked_desk rfl _ _, fun job hjob _ => ?_⟩, c, hc, hcounts, not_booked_of_counts ?_⟩,
    ⟨booked_desk rfl _ _, fun job hjob => absurd hjob List.not_mem_nil⟩, c', hc', hcounts',
      not_booked_of_counts ?_⟩
  · rw [List.mem_singleton.mp hjob]
    exact ⟨_, rfl, rfl, rfl, rfl⟩
  · rw [hcounts]
    decide
  · rw [hcounts']
    decide

end Livora.BatchReceptions
