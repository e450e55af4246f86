import Livora.BatchReceptions
import Livora.NamedPools
import Livora.Overtakings
import Livora.SummedPrograms
import Livora.VerificationRaces

/-! Verifications of any number of requests together with the services of the batches and the
worker. A verification looks for the open batch of its collector and centre and creates one where it
finds none, under a lock of its request only; the services and the worker never open a batch. -/

namespace Livora.OpenBatches

open TransitionRuns EffectPrograms EffectPrograms.Action ProgramPools ProgramPools.System NamedPools
open SummedPrograms Overtakings
open BatchBooks (Batch)
open PinVerification (CollectionRequest Submission verifyPin)
open VerificationStages
  (only_openRequest only_findVault only_collectorTransfer only_payTreasury only_conclude)

/-! ### The tables -/

def statusOf : BatchBooks.BatchStatus → PinVerification.BatchStatus
  | .open => .open
  | .inTransit => .inTransit
  | .processing => .processing
  | .partiallyAccepted => .partiallyAccepted
  | .received => .received
  | .consolidated => .consolidated
  | .flaggedForReview => .flaggedForReview
  | .disputed => .disputed
  | .rerouted => .rerouted

def seen (b : Batch) : PinVerification.Batch :=
  ⟨b.id, statusOf b.status, b.collectorId, b.destinationCenterId⟩

/-- The rows of the requests, and the keys of each in Redis; of the tables of the batches all but
the requests. -/
structure World where
  desk : BatchDesk.World
  rows : List (String × CollectionRequest)
  attempts : String → Option ℕ
  cachedPins : String → Option String
  locks : String → Bool
  vaults : String → Option String
  chain : List Submission

namespace World

def verification (w : World) (id : String) : PinVerification.World :=
  ⟨⟨w.rows.lookup id, w.attempts id, w.cachedPins id, w.vaults, w.desk.batches.map seen⟩,
    w.locks id, w.chain⟩

def tables (w : World) : BatchDesk.World :=
  { w.desk with requests := w.rows.map fun entry =>
    ⟨entry.2.household.id, entry.2.batchId, entry.2.itemsEstimated⟩ }

def setRow (rows : List (String × CollectionRequest)) (id : String) :
    Option CollectionRequest → List (String × CollectionRequest)
  | some row => rows.map fun entry => if entry.1 = id then (id, row) else entry
  | none => rows

def created (w : World) (i : PinVerification.Op) (o : PinVerification.Outcome) : List Batch :=
  match i with
  | .createOpenBatch collectorId centerId =>
    if o.delivery.applied then [BatchWorker.openBatch o.batchId collectorId centerId w.desk.now] else []
  | _ => []

def verified (w : World) (id : String) (i : PinVerification.Op) (o : PinVerification.Outcome) :
    World :=
  let after := ((w.verification id).serve i o).2
  { w with
    desk := { w.desk with batches := w.desk.batches ++ w.created i o }
    rows := setRow w.rows id after.store.request
    attempts := Function.update w.attempts id after.store.attempts
    cachedPins := Function.update w.cachedPins id after.store.cachedPin
    locks := Function.update w.locks id after.lock
    chain := after.chain }

end World

/-! ### The calls together -/

/-- A caller of `verifyPin`. -/
structure Verifier where
  requestId : String
  caller : VerificationRaces.Caller

inductive Actor where
  | verify (verifier : Verifier)
  | batches (actor : BatchWorker.Actor)

abbrev Op := (Verifier × PinVerification.Op) ⊕ BatchDesk.Op

abbrev Reply : Op → Type :=
  Sum.elim (fun i => Except PinVerification.Failure (PinVerification.Reply i.2))
    fun i => Except StoreBooks.Failure (BatchDesk.Reply i)

/-- How the answer of a call arrives, of a verification or of the others. -/
structure Outcome where
  verification : PinVerification.Outcome
  batches : BatchDesk.Outcome

def World.serve (letters : StockBooks.Letters) (w : World) : (i : Op) → Outcome → Reply i × World
  | .inl (verifier, i), o => (((w.verification verifier.requestId).serve i o.verification).1,
    w.verified verifier.requestId i o.verification)
  | .inr i, o => ((w.tables.serve letters i o.batches).1,
    { w with desk := (w.tables.serve letters i o.batches).2 })

inductive Outside where
  /-- What other operations change, the locks that expire among it. -/
  | amend (rows : List (String × CollectionRequest)) (attempts : String → Option ℕ)
      (cachedPins : String → Option String) (locks : String → Bool) (vaults : String →
        Option String)
      (chain : List Submission)
  | desk (d : BatchWorker.Outside)

/-- Only a verification opens a batch. -/
def outside (w : World) : Outside → Option World
  | .amend rows attempts cachedPins locks vaults chain =>
    some ⟨w.desk, rows, attempts, cachedPins, locks, vaults, chain⟩
  | .desk (.open _ _ _) => none
  | .desk d => (BatchWorker.outside w.desk d).map fun desk => { w with desk := desk }

inductive Answer where
  | verified (verifier : Verifier)
    (result : Except PinVerification.Failure (Option CollectionRequest))
  | answered (result : Except StoreBooks.Failure (Option BatchServices.Answer))

def program (svc : PinVerification.Service) (backend : BatchWorker.Backend) :
    Actor → Prog Op Reply Answer
  | .verify verifier => do
    let result ← relabel Sum.inl
      (inName verifier (verifyPin svc verifier.caller.collectorId verifier.caller.dto).run)
    pure (.verified result.1 result.2)
  | .batches actor => do
    let result ← relabel Sum.inr (BatchWorker.program backend actor).run
    pure (.answered result)

/-! ### What the calls have found -/

/-- A batch is opened for a collector and a centre for whom none was found open. -/
def searching : Protocol (Option (String × String)) PinVerification.Op
    fun i => Except PinVerification.Failure (PinVerification.Reply i) where
  Allowed searched
    | .createOpenBatch collectorId centerId => searched = some (collectorId, centerId)
    | _ => True
  next searched
    | .findOpenBatch collectorId centerId, .ok none => some (collectorId, centerId)
    | _, _ => searched

structure Stage where
  batches : BatchStages.Stage
  searched : Option (String × String)

def protocol : Protocol Stage Op Reply where
  Allowed s
    | .inl (_, i) => searching.Allowed s.searched i
    | .inr i => BatchStages.Allowed s.batches i
  next s
    | .inl (_, i), r => { s with searched := searching.next s.searched i r }
    | .inr i, r => { s with batches := BatchStages.next s.batches i r }

def system (svc : PinVerification.Service) (backend : BatchWorker.Backend) :
    System Actor World Outcome Outside Stage Op Reply Answer where
  program := program svc backend
  serve := World.serve backend.letters
  outside := outside
  protocol := protocol
  first := ⟨.first, none⟩

abbrev Depot := Pool World (Task Stage Op Reply Answer)

abbrev DepotEvent := Event Actor Outcome Outside

def quiescent (w : World) : Depot := ⟨w, fun _ => none⟩

section Programs

variable {svc : PinVerification.Service} {searched : Option (String × String)}

def Opens : PinVerification.Op → Prop
  | .createOpenBatch _ _ => True
  | _ => False

theorem follows_only {α : Type} {a : PinVerification.Verification α}
    (h : Only (fun i => ¬Opens i) a) :
    Follows searching searched a :=
  h.follows_of_allowed fun t i hi => by
    cases i with
    | createOpenBatch collectorId centerId => exact absurd trivial hi
    | _ => trivial

theorem only_payHousehold (row : CollectionRequest) (hogarAmount : ℚ) :
    Only (fun i => ¬Opens i) (PinVerification.payHousehold svc row hogarAmount) := by
  unfold PinVerification.payHousehold
  split
  · refine only_bind (only_findVault (fun _ => id) _) fun collectorVault => ?_
    refine only_bind (only_collectorTransfer (fun _ => id) (fun _ _ _ => id) _ _ _)
      fun transferred => ?_
    split
    · exact only_pure _
    · exact only_recover (only_perform id)
  · exact only_pure _

theorem follows_attachBatch (row : CollectionRequest) (collectorId : String) :
    Follows searching searched (PinVerification.attachBatch row collectorId) := by
  unfold PinVerification.attachBatch
  split
  · exact follows_pure _
  · refine follows_call trivial fun openBatch => ?_
    cases openBatch with
    | some batch => exact follows_pure _
    | none =>
      cases hcenter : PinVerification.truthy row.assignedCenterId with
      | none => exact follows_pure _
      | some centerId =>
        have hassigned : row.assignedCenterId.getD "" = centerId := by
          rw [(Option.filter_eq_some_iff.mp hcenter).1, Option.getD_some]
        exact follows_call (congrArg (fun id => some (collectorId, id)) hassigned) fun _ =>
          follows_pure _

theorem follows_settle (row : CollectionRequest) (collectorId : String)
    (actualWeights : RewardStrategies.NumberRecord)
    (calculation : RewardStrategies.RewardCalculation) :
    Follows searching searched
      (PinVerification.settle svc row collectorId actualWeights calculation) := by
  refine follows_bind (follows_only (only_payHousehold row _)) fun txHash t => ?_
  refine follows_bind
    (follows_only (only_payTreasury (fun _ => id) (fun _ => id) (fun _ _ _ => id) row _))
    fun _ t => ?_
  refine follows_bind (follows_attachBatch row collectorId) fun targetBatchId t => ?_
  exact follows_call trivial fun success => follows_only (only_conclude id (fun _ => id) success)

theorem follows_verifyPin (collectorId : String) (dto : PinVerification.VerifyPinDto) :
    Follows searching searched (verifyPin svc collectorId dto) := by
  have hacquire : Only (fun i => ¬Opens i) (PinVerification.acquireLock svc) := by
    unfold PinVerification.acquireLock
    split
    · refine only_bind (only_perform id) fun acquired => ?_
      split
      · exact only_pure _
      · exact only_throw _
    · exact only_pure _
  have hrelease : Only (fun i => ¬Opens i) (PinVerification.releaseLock svc) := by
    unfold PinVerification.releaseLock
    split
    · exact only_perform id
    · exact only_pure _
  have hopen : Only (fun i => ¬Opens i) (PinVerification.openRequest svc collectorId dto) :=
    (only_openRequest collectorId dto).mono fun i hi => by
      cases i <;> first | exact hi.elim | exact id
  refine follows_bind (follows_only hacquire) fun _ t => ?_
  have hbody : Follows searching t (do
      let row ← PinVerification.openRequest svc collectorId dto
      PinVerification.settle svc row collectorId (PinVerification.weightsOf row dto)
        (PinVerification.rewardOf svc row dto)) :=
    follows_bind (follows_only hopen) fun row u => follows_settle row collectorId _ _
  refine obeys_ensuring.mpr (hbody.mono ?_ ?_)
  all_goals
    intro u _ _
    exact (follows_only hrelease).mono (fun _ _ _ => trivial) fun _ _ _ => trivial

theorem keeps_program (svc : PinVerification.Service) (backend : BatchWorker.Backend)
    (actor : Actor) :
    Keeps protocol (fun _ _ => True) ⟨.first, none⟩ (program svc backend actor) := by
  cases actor with
  | verify verifier =>
    have hfollows : Follows searching none
      (verifyPin svc verifier.caller.collectorId verifier.caller.dto) :=
      follows_verifyPin _ _
    refine keeps_bind.mpr ((keeps_relabel (Q := fun _ _ => True)).mpr ?_)
    refine (keeps_inName (ρ := fun i => Except PinVerification.Failure (PinVerification.Reply i))
      (Q := fun _ _ => True)).mpr ?_
    exact keeps_part Stage.searched (fun _ _ h => h) (fun _ _ _ => rfl) hfollows
  | batches actor =>
    have hfollows := BatchStages.follows_program backend actor
    refine keeps_bind.mpr ((keeps_relabel (Q := fun _ _ => True)).mpr ?_)
    exact keeps_part Stage.batches (fun _ _ h => h) (fun _ _ _ => rfl) hfollows

end Programs

/-! ### What the calls change -/

section Changes

variable {w : World} {id x : String} {rows : List (String × CollectionRequest)}
    {row : CollectionRequest}

theorem lookup_setRow : (World.setRow rows id (some row)).lookup x =
    if x = id then (rows.lookup x).map fun _ => row else rows.lookup x := by
  induction rows with
  | nil => simp [World.setRow]
  | cons entry rest ih =>
    obtain ⟨key, old⟩ := entry
    simp only [World.setRow, List.map_cons] at ih ⊢
    by_cases hkey : key = id
    · subst hkey
      by_cases hx : x = key
      · subst hx
        simp
      · have hne : (x == key) = false := beq_false_of_ne hx
        simp only [if_true, List.lookup_cons, hne, ih, if_neg hx]
    · by_cases hx : x = key
      · subst hx
        simp [hkey]
      · have hne : (x == key) = false := beq_false_of_ne hx
        simp only [if_neg hkey, List.lookup_cons, hne, ih]

theorem request_serve (w : PinVerification.World) (i : PinVerification.Op)
    (o : PinVerification.Outcome) :
    (w.serve i o).2.store.request = w.store.request := by
  cases i with
  | setAttempts count =>
    unfold PinVerification.World.serve PinVerification.World.update; split <;> rfl
  | deleteCachedPin =>
    unfold PinVerification.World.serve PinVerification.World.update; split <;> rfl
  | deleteAttempts => unfold PinVerification.World.serve PinVerification.World.update; split <;> rfl
  | createOpenBatch collectorId centerId =>
    unfold PinVerification.World.serve PinVerification.World.update
    split <;> rfl
  | acquireLock => unfold PinVerification.World.serve PinVerification.World.setLock; split <;> rfl
  | releaseLock => unfold PinVerification.World.serve PinVerification.World.setLock; split <;> rfl
  | pay payment => unfold PinVerification.World.serve PinVerification.World.submit; split <;> rfl
  | completeRequest targetBatchId actualWeights reward txHash => rfl
  | _ => rfl

theorem rows_verified (i : PinVerification.Op) (o : PinVerification.Outcome) :
    (w.verified id i o).rows.lookup x = w.rows.lookup x := by
  change (World.setRow w.rows id ((w.verification id).serve i o).2.store.request).lookup x = _
  rw [request_serve]
  change (World.setRow w.rows id (w.rows.lookup id)).lookup x = _
  cases hrow : w.rows.lookup id with
  | none => rfl
  | some row =>
    rw [lookup_setRow]
    split
    · rename_i hx
      rw [hx, hrow]
      rfl
    · rfl

end Changes

/-! ### One open batch for each collector and centre -/

def isOpenFor (collectorId centerId : String) (b : Batch) : Bool :=
  b.status == .open && b.collectorId == collectorId && b.destinationCenterId == some centerId

def openCount (w : World) (collectorId centerId : String) : ℕ :=
  w.desk.batches.countP (isOpenFor collectorId centerId)

def OneOpen (w : World) : Prop := ∀ collectorId centerId, openCount w collectorId centerId ≤ 1

/-- The collector and the centre for whom an applied call opens a batch. -/
def opened : Op → Outcome → List (String × String)
  | .inl (_, .createOpenBatch collectorId centerId), o =>
    if o.verification.delivery.applied then [(collectorId, centerId)] else []
  | _, _ => []

/-- The collector and the centre for whom a call has found no open batch. -/
def missed (w : World) : Op → Outcome → List (String × String)
  | .inl (verifier, .findOpenBatch collectorId centerId), o =>
    match ((w.verification verifier.requestId).serve
      (.findOpenBatch collectorId centerId) o.verification).1 with
    | .ok none => [(collectorId, centerId)]
    | _ => []
  | _, _ => []

def openings : Traffic World Op Outcome Outside (String × String) where
  reads := missed
  writes _ := opened
  rests _ := opened
  outside _ _ := []

/-- Where a call attaches a request to a batch, the batch is open and goes to the centre of the
request. -/
def AttachesOpen (letters : StockBooks.Letters) (c : Depot) : DepotEvent → Prop
  | .advance j o => ∀ i ∈ pending c j, ∀ id row row', c.world.rows.lookup id = some row →
    (c.world.serve letters i o).2.rows.lookup id = some row' → row'.batchId ≠ row.batchId →
      ∃ b ∈ c.world.desk.batches, row'.batchId = some b.id ∧ b.status = .open ∧
        b.destinationCenterId = row.assignedCenterId
  | _ => True

section Counting

variable {letters : StockBooks.Letters} {w : World} {i : Op} {o : Outcome} {k centerId : String}
  {c : Depot} {e : DepotEvent}

theorem isOpenFor_change {i : BatchDesk.Op} {o : BatchDesk.Outcome} {b : Batch}
    {s : BatchStages.Stage} (hallowed : BatchStages.Allowed s i)
    (h : isOpenFor k centerId (BatchDesk.World.change o i b) = true) :
    isOpenFor k centerId b = true := by
  cases i with
  | updateBatch id data =>
    obtain ⟨read, -, -, hupdate⟩ := hallowed
    simp only [BatchDesk.World.change] at h
    split at h
    · cases hupdate with
      | settle now found => exact h
      | accept isPartial materialsActual note found => cases isPartial <;> cases h
      | _ => cases h
    · exact h
  | reroute id newCenterId dispute =>
    simp only [BatchDesk.World.change] at h
    split at h
    · cases h
    · exact h
  | consolidate centerId' totalWeight batchIds =>
    simp only [BatchDesk.World.change] at h
    split at h
    · cases h
    · exact h
  | receive receipt =>
    simp only [BatchDesk.World.change, BatchDesk.World.receivedAs] at h
    split at h
    · cases h
    · exact h
  | _ => exact h

theorem openCount_desk {i : BatchDesk.Op} {o : BatchDesk.Outcome} {s : BatchStages.Stage}
    (hallowed : BatchStages.Allowed s i) :
    (w.tables.after letters i o).batches.countP (isOpenFor k centerId) ≤
      openCount w k centerId := by
  rcases (BatchDesk.World.batches_after : (w.tables.after letters i o).batches = w.tables.batches ∨
      _) with h | h
  · rw [h]
    exact Nat.le_refl _
  · rw [h, List.countP_map]
    exact List.countP_mono_left fun b _ hb => isOpenFor_change hallowed hb

theorem openCount_created (id : String) (i : PinVerification.Op) (o : PinVerification.Outcome) :
    openCount (w.verified id i o) k centerId =
      openCount w k centerId + (w.created i o).countP (isOpenFor k centerId) :=
  List.countP_append

theorem openCount_serve {s : Stage} (hallowed : protocol.Allowed s i) :
    openCount (w.serve letters i o).2 k centerId ≤
      openCount w k centerId + (opened i o).count (k, centerId) := by
  rcases i with ⟨verifier, i⟩ | i
  · change openCount (w.verified verifier.requestId i o.verification) k centerId ≤ _
    rw [openCount_created]
    refine Nat.add_le_add_left ?_ _
    cases i with
    | createOpenBatch collectorId destination =>
      simp only [World.created, opened]
      split
      · rw [List.countP_singleton, List.count_singleton]
        split
        · rename_i hopen
          simp only [isOpenFor, BatchWorker.openBatch, Bool.and_eq_true, beq_iff_eq] at hopen
          obtain ⟨⟨-, rfl⟩, hcenter⟩ := hopen
          cases hcenter
          simp
        · exact Nat.zero_le _
      · exact Nat.le_refl _
    | _ => exact Nat.le_refl _
  · exact openCount_desk hallowed

theorem count_opened_le_one (i : Op) (o : Outcome) (x : String × String) :
    (opened i o).count x ≤ 1 := by
  unfold opened
  split
  · split
    · rw [List.count_singleton]
      split <;> omega
    · exact Nat.zero_le 1
  · exact Nat.zero_le 1

theorem openCount_outside {w' : World} {d : Outside} (h : outside w d = some w') :
    openCount w' k centerId = openCount w k centerId := by
  cases d with
  | amend rows attempts cachedPins locks vaults chain =>
    cases h
    rfl
  | desk d =>
    cases d with
    | «open» id collectorId centerId => cases h
    | stock stock =>
      obtain ⟨desk, hdesk, rfl⟩ := Option.map_eq_some_iff.mp h
      obtain ⟨-, hdesk⟩ := Option.ite_none_right_eq_some.mp hdesk
      cases hdesk
      rfl
    | _ =>
      cases h
      rfl

theorem none_of_reply {α : Type} {d : PinVerification.Delivery} {a : Option α}
    (h : (d.reply a : Except PinVerification.Failure (Option α)) = .ok none) : a = none := by
  cases d <;> first
    | exact Except.ok.inj h
    | cases h

theorem openCount_of_missed {x : String × String} (h : x ∈ missed w i o) :
    openCount w x.1 x.2 = 0 := by
  unfold missed at h
  split at h
  · split at h
    · rename_i hnone
      obtain rfl := List.mem_singleton.mp h
      refine List.countP_eq_zero.mpr fun b hb hopen => ?_
      have hfound := List.find?_eq_none.mp (none_of_reply hnone) (seen b) (List.mem_map_of_mem hb)
      refine hfound ?_
      simp only [isOpenFor, Bool.and_eq_true, beq_iff_eq] at hopen
      simp [seen, hopen.1.1, hopen.1.2, hopen.2, statusOf]
    · cases h
  · cases h

end Counting

/-! ### Runs -/

section Runs

variable {svc : PinVerification.Service} {backend : BatchWorker.Backend} {c c' : Depot}
    {e : DepotEvent}

/-- None is open for whom the call has found none, where none was opened since. -/
def Missing (w : World) (s : Stage) (late : List (String × String)) : Prop :=
  ∀ x, s.searched = some x → x ∉ late → openCount w x.1 x.2 = 0

theorem next_searched {w : World} {s : Stage} {i : Op} {o : Outcome}
    {letters : StockBooks.Letters} :
    (protocol.next s i (w.serve letters i o).1).searched = s.searched ∧ missed w i o = [] ∨
      ∃ x ∈ missed w i o, (protocol.next s i (w.serve letters i o).1).searched = some x := by
  rcases i with ⟨verifier, i⟩ | i
  · change
      (searching.next s.searched i ((w.verification verifier.requestId).serve i o.verification).1) =
      s.searched ∧ _ ∨ ∃ x ∈ _, searching.next s.searched i
        ((w.verification verifier.requestId).serve i o.verification).1 = some x
    cases i with
    | findOpenBatch collectorId centerId =>
      simp only [missed]
      split
      · rename_i hnone
        rw [hnone]
        exact .inr ⟨_, List.mem_singleton_self _, rfl⟩
      · rename_i hother
        refine .inl ⟨?_, rfl⟩
        unfold searching
        dsimp only
        split
        · exact absurd ‹_› hother
        · rfl
    | _ => exact .inl ⟨rfl, rfl⟩
  · exact .inl ⟨rfl, rfl⟩

theorem searched_of_opened {s : Stage} {i : Op} {o : Outcome} {x : String × String}
    (hallowed : protocol.Allowed s i) (hx : x ∈ opened i o) : s.searched = some x := by
  unfold opened at hx
  split at hx
  · split at hx
    · obtain rfl := List.mem_singleton.mp hx
      exact hallowed
    · cases hx
  · cases hx

theorem openCount_spared {w : World} {s : Stage} {i : Op} {o : Outcome}
    {letters : StockBooks.Letters}
    {x : String × String} (hallowed : protocol.Allowed s i) (hnone : openCount w x.1 x.2 = 0)
    (hnot : x ∉ opened i o) : openCount (w.serve letters i o).2 x.1 x.2 = 0 := by
  have hserve : openCount (w.serve letters i o).2 x.1 x.2 ≤
      openCount w x.1 x.2 + (opened i o).count (x.1, x.2) := openCount_serve hallowed
  rw [hnone, List.count_eq_zero.mpr hnot] at hserve
  omega

theorem steady_openings : openings.Steady (system svc backend)
    (fun _ _ => True) OneOpen Missing where
  first w x h := by cases h
  call c j o s i late hone hmissing _ hallowed _ hfresh := by
    change OneOpen (c.world.serve backend.letters i o).2 ∧
      Missing (c.world.serve backend.letters i o).2 _ _ ∧
      ∀ t late, Missing c.world t late →
        Missing (c.world.serve backend.letters i o).2 t (opened i o ++ late)
    refine ⟨fun k centerId => ?_, fun x hx hnot => ?_, fun t late ht x hx hnot => ?_⟩
    · have hserve : openCount (c.world.serve backend.letters i o).2 k centerId ≤
          openCount c.world k centerId + (opened i o).count (k, centerId) :=
            openCount_serve hallowed
      by_cases hmem : (k, centerId) ∈ opened i o
      · have hnone := hmissing _ (searched_of_opened hallowed hmem) (hfresh _ hmem)
        have hsingle := count_opened_le_one i o (k, centerId)
        dsimp only at hnone
        omega
      · rw [List.count_eq_zero.mpr hmem] at hserve
        exact hserve.trans (hone k centerId)
    · obtain ⟨hopened, hlate⟩ := Traffic.not_mem_own.mp hnot
      refine openCount_spared hallowed ?_ hopened
      rcases next_searched with ⟨hsame, hnil⟩ | ⟨y, hy, hsearched⟩
      · refine hmissing x (hsame.symm.trans hx) (hlate.resolve_left ?_)
        change x ∉ missed c.world i o
        rw [hnil]
        exact List.not_mem_nil
      · cases hsearched.symm.trans hx
        exact openCount_of_missed hy
    · rw [List.mem_append, not_or] at hnot
      exact openCount_spared hallowed (ht x hx hnot.2) hnot.1
  outside c d w hone _ hw := by
    refine ⟨fun k centerId => (openCount_outside hw).trans_le (hone k centerId),
      fun t late ht x hx hnot => ?_⟩
    exact (openCount_outside hw).trans (ht x hx hnot)

theorem attachesOpen (letters : StockBooks.Letters) (c : Depot) (e : DepotEvent) :
    AttachesOpen letters c e := by
  cases e with
  | advance j o =>
    intro i hi id row row' hrow hrow' hchanged
    have hsame : (c.world.serve letters i o).2.rows.lookup id = c.world.rows.lookup id := by
      rcases i with ⟨verifier, i⟩ | i
      · exact rows_verified i o.verification
      · rfl
    rw [hsame, hrow] at hrow'
    cases hrow'
    exact absurd rfl hchanged
  | _ => trivial

/-- In a run in which no other batch is opened for a collector and a centre between the look for one
and the insertion, a collector has one open batch at most for each centre, and a request is attached
only to an open batch that goes to its centre. -/
theorem one_open_batch {w : World} {es : List DepotEvent} (hone : OneOpen w)
    (hfresh : openings.Undisturbed (system svc backend) (quiescent w) es)
    (hrun : run (system svc backend).step (quiescent w) es = some c) :
    OneOpen c.world ∧ Along (system svc backend).step (AttachesOpen backend.letters)
    (quiescent w) es := by
  refine ⟨?_, along_mono (fun c e _ => attachesOpen backend.letters c e) along_true⟩
  have hstart : Traffic.Known (system svc backend) OneOpen Missing (quiescent w, fun _ => []) :=
    ⟨fun j t ht => (by cases ht), hone, fun j s hs => by cases hs⟩
  exact steady_openings.run (keeps_program svc backend) hstart along_true hfresh hrun

end Runs

/-! ### Two requests of one collector -/

def twoRequests : World where
  desk := ⟨[], [], [], [], [], ⟨[], []⟩, [], 0⟩
  rows := [("first", PinVerification.sampleRequest), ("second", PinVerification.sampleRequest)]
  attempts _ := none
  cachedPins _ := none
  locks _ := false
  vaults _ := none
  chain := []

/-- The next `n` calls of a verification are answered; what they create is given the id. -/
def answered (j n : ℕ) (batchId : String) : List DepotEvent :=
  List.replicate n
    (.advance j ⟨{ PinVerification.answered with batchId := batchId }, ⟨.done, "", none⟩⟩)

def verification (j : ℕ) (requestId : String) : DepotEvent :=
  .start j (.verify ⟨requestId, "collector", "4829", []⟩)

def sampleSystem : System Actor World Outcome Outside Stage Op Reply Answer :=
  system PinVerification.sampleService BatchReceptions.backend

theorem one_open_batch_twoRequests : ∃ c, run sampleSystem.step (quiescent twoRequests)
    (verification 0 "first" :: answered 0 13 "batch" ++
      verification 1 "second" :: answered 1 12 "other") = some c ∧
    openCount c.world "collector" "center" = 1 ∧ OneOpen c.world := by
  have hrun : (run sampleSystem.step (quiescent twoRequests)
    (verification 0 "first" :: answered 0 13 "batch" ++
      verification 1 "second" :: answered 1 12 "other")).map (fun c =>
        openCount c.world "collector" "center") =
        some 1 := by decide +kernel
  obtain ⟨c, hc, hcount⟩ := Option.map_eq_some_iff.mp hrun
  exact ⟨c, hc, hcount, (one_open_batch (fun _ _ => Nat.zero_le _) (by decide +kernel) hc).1⟩

/-- Both verifications have looked for an open batch when the first one creates it. -/
theorem two_open_batches : ∃ c, OneOpen twoRequests ∧ run sampleSystem.step (quiescent twoRequests)
    (verification 0 "first" :: verification 1 "second" :: answered 0 10 "batch" ++
      answered 1 10 "other" ++
      answered 0 1 "batch" ++ answered 1 1 "other") = some c ∧
    openCount c.world "collector" "center" = 2 := by
  have hrun : (run sampleSystem.step (quiescent twoRequests)
      (verification 0 "first" :: verification 1 "second" :: answered 0 10 "batch" ++
        answered 1 10 "other" ++
        answered 0 1 "batch" ++ answered 1 1 "other")).map (fun c =>
          openCount c.world "collector" "center") =
          some 2 := by decide +kernel
  obtain ⟨c, hc, hcount⟩ := Option.map_eq_some_iff.mp hrun
  exact ⟨c, fun _ _ => Nat.zero_le _, hc, hcount⟩

end Livora.OpenBatches
