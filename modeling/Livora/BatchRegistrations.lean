import Livora.AnsweredRuns
import Livora.BatchCalls
import Livora.BatchReceptions
import Livora.PromisedJobs

/-! An accepted batch and the job that registers it. A reception, or the approval of a
flagged batch, writes the status and then adds the job; in between it owes it. A batch has
one job at most under its name. Where nobody is cut off in between, every batch that is
PROCESSING or PARTIALLY_ACCEPTED has its job, or somebody who adds it as soon as his calls
are answered. -/

namespace Livora.BatchRegistrations

open TransitionRuns EffectPrograms EffectPrograms.Action ProgramPools ProgramPools.System PromisedJobs
open AnsweredRuns JobQueues KeyedRows BatchBooks BatchDesk BatchServices BatchWorker BatchCalls
open StockBooks (Letters)
open StoreBooks (Failure)

/-! ### The protocol -/

abbrev Debt := Option String

def Allowed (s : Debt) : Op → Prop
  | .updateBatch _ _ => s = none
  | .addJob job => s = some job.batchId
  | _ => True

def next (s : Debt) : (i : Op) → Except Failure (Reply i) → Debt
  | .updateBatch _ data, .ok updated => if accepts data then some updated.id else s
  | .addJob _, _ => none
  | _, _ => s

def protocol : Protocol Debt Op fun i => Except Failure (Reply i) where
  Allowed := Allowed
  next := next

def Quiet : Op → Prop
  | .updateBatch _ data => accepts data = false
  | .addJob _ => False
  | _ => True

theorem stays_quiet {i : Op} (h : Quiet i) :
    protocol.Allowed none i ∧ ∀ r, protocol.next none i r = none := by
  cases i with
  | updateBatch id data =>
    refine ⟨rfl, fun r => ?_⟩
    cases r with
    | error e => rfl
    | ok updated =>
      change (if accepts data then some updated.id else none) = none
      rw [show accepts data = false from h]
      rfl
  | addJob job => exact False.elim h
  | _ => exact ⟨trivial, fun r => rfl⟩

theorem plain_quiet : Plain Quiet where
  findBatch _ := trivial
  findBatches _ := trivial
  findUser _ := trivial
  now := trivial
  updateBatch _ _ h := h
  consolidate _ _ _ := trivial
  emit _ _ := trivial
  uploadManifest _ := trivial
  findWallets _ _ := trivial
  notarize _ _ := trivial
  receive _ := trivial
  takeJob _ := trivial
  finishJob _ _ _ := trivial

def Clears {α : Type} (a : Work α) : Prop := Obeys protocol (fun t _ => t = none) none a

section Services

variable {α β : Type} {id userId centerId : String} {svc : Service}

theorem clears_quiet {a : Work α} (h : Only Quiet a) : Clears a := h.obeys fun _ => stays_quiet

theorem clears_bind {a : Work β} {f : β → Work α} (ha : Only Quiet a) (hf : ∀ x, Clears (f x)) :
    Clears (a >>= f) := by
  refine obeys_bind.mpr ((clears_quiet ha).mono (fun t x ht => ?_) fun t e ht => ht)
  change Obeys protocol _ t (f x)
  rw [ht]
  exact hf x

theorem clears_accept {data : BatchData} {job : Batch → BatchJob} {f : Batch → Work α}
    (hjob : ∀ b, (job b).batchId = b.id) (haccepts : accepts data = true)
    (hf : ∀ b, Only Quiet (f b)) :
    Clears (do
      let updated ← call (.updateBatch id data)
      call (.addJob (job updated))
      f updated) := by
  refine obeys_call.mpr ⟨rfl, fun updated => ?_, fun e => rfl⟩
  have hnext : protocol.next none (.updateBatch id data) (.ok updated) = some updated.id :=
    if_pos haccepts
  rw [hnext]
  refine obeys_call.mpr ⟨congrArg some (hjob updated).symm, fun _ => ?_, fun e => rfl⟩
  exact clears_quiet (hf updated)

theorem clears_acceptBatch {batch : FoundBatch} {dto : ReceiveBatchDto} :
    Clears (acceptBatch id batch centerId dto) := by
  refine clears_accept (fun _ => rfl) ?_ fun updated => ?_
  · cases h : isPartial dto <;> simp [accepts, isAccepted]
  · exact only_bind plain_quiet.only_emit fun _ => only_bind plain_quiet.only_emit fun _ =>
      only_pure updated

theorem clears_receiveBatch {dto : ReceiveBatchDto} :
    Clears (receiveBatch svc id centerId dto) := by
  refine clears_bind plain_quiet.only_requireBatch fun batch => clears_bind only_require fun _ => ?_
  refine clears_bind only_require fun _ => clears_bind only_require fun _ => ?_
  cases discrepancyNote svc (totalEstimatedKg batch.requests)
    (addWeights 0 dto.materialsActual) with
  | some note => exact clears_quiet plain_quiet.only_flagBatch
  | none => exact clears_acceptBatch

theorem clears_approveFlaggedBatch {customNote : Option String} :
    Clears (approveFlaggedBatch id userId customNote) := by
  refine clears_bind plain_quiet.only_requireBatch fun batch => clears_bind only_require fun _ => ?_
  exact clears_accept (fun _ => rfl) rfl fun updated => only_pure updated

theorem clears_one {a : Work Batch} (h : Clears a) : Clears (one a) :=
  obeys_bind.mpr (h.mono (fun _ _ ht => ht) fun _ _ ht => ht)

theorem clears_service (svc : Service) (caller : Caller) (e : Endpoint) :
    Clears (service svc caller e) := by
  cases e with
  | update id destinationCenterId => exact clears_one (clears_quiet plain_quiet.only_updateBatch)
  | receive id dto => exact clears_one clears_receiveBatch
  | approveFlagged id => exact clears_one clears_approveFlaggedBatch
  | overrideDiscrepancy id note => exact clears_one clears_approveFlaggedBatch
  | fiatSettlement id => exact clears_one (clears_quiet plain_quiet.only_fiatSettlement)
  | dispute id reason => exact clears_one (clears_quiet plain_quiet.only_disputeBatch)
  | resolveDispute id materialsActual resolutionNote =>
    exact clears_one (clears_quiet plain_quiet.only_resolveDispute)
  | reroute id newCenterId reason proofPhotoUrl =>
    exact clears_one (clears_quiet (plain_quiet.only_rerouteBatch fun _ _ _ => trivial))
  | consolidate batchIds =>
    exact clears_quiet (only_bind plain_quiet.only_createConsolidatedBatch fun row => only_pure _)

theorem clears_program (svc : Backend) (actor : Actor) : Clears (program svc actor) := by
  cases actor with
  | endpoint caller e =>
    have h : Clears (endpoint svc.service caller e) :=
      clears_bind only_require fun _ => clears_service svc.service caller e
    exact obeys_bind.mpr (h.mono (fun _ _ ht => ht) fun _ _ ht => ht)
  | worker n => exact clears_quiet (only_bind (plain_quiet.only_attempt n) fun _ => only_pure none)

end Services

/-! ### Batches and their jobs -/

def race (svc : Backend) :
    System Actor World Outcome Outside Debt Op (fun i => Except Failure (Reply i))
    (Except Failure (Option Answer)) :=
  system svc protocol none

/-- The batch waits for the worker. A job that is forgotten leaves the empty name behind. -/
def Due (w : World) (id : String) : Prop :=
  id ≠ "" ∧ ∃ b, w.findBatch id = some b ∧ isAccepted b.status = true

def names (w : World) : List String := w.jobs.map fun job => job.data.batchId

def jobs (w : World) (id : String) : ℕ := (names w).count id

def owed (st : ℕ → Option Debt) (j : ℕ) : Option String := (st j).join

/-- An update that accepts a batch is answered if it is carried out, and a job that is added is
taken. -/
def UncutCall (i : Op) (o : Outcome) : Prop :=
  match i with
  | .updateBatch _ data => accepts data = true → o.delivery.applied = true → o.delivery = .done
  | .addJob _ => o.delivery.applied = true
  | _ => True

/-- Nobody stops while he owes a job, and no job is forgotten while its batch waits for it. -/
def Uncut (c : Race Debt) : RaceEvent → Prop
  | .advance j o => ∀ i, pending c j = some i → UncutCall i o
  | .stop j => owed (stages c) j = none
  | .outside (.forget n) => ∀ job, c.world.jobs[n]? = some job → ¬ Due c.world job.data.batchId
  | _ => True

structure Kept (w : World) (st : ℕ → Option Debt) : Prop where
  single : ∀ id, id ≠ "" → jobs w id ≤ 1
  met : Met (Due w) (jobs w) (owed st)

section Calls

variable {t : Letters} {w w' : World} {st : ℕ → Option Debt} {s : Debt} {i : Op}
    {o : Outcome} {j : ℕ}
  {id x : String} {b : Batch}

theorem owed_update (u : Option Debt) :
    owed (Function.update st j u) = Function.update (owed st) j u.join := by
  funext k
  by_cases hk : k = j
  · subst hk
    simp [owed]
  · simp [owed, hk]

theorem owed_keep (hj : st j = some s) : owed (Function.update st j (some s)) = owed st := by
  rw [owed_update, Function.update_eq_self_iff, owed, hj]

theorem names_modify {q : List (Job BatchJob)} {n : ℕ} {f : Job BatchJob → Job BatchJob}
    (hf : ∀ job, (f job).data = job.data) :
    (q.modify n f).map (fun job => job.data.batchId) = q.map fun job => job.data.batchId := by
  induction q generalizing n with
  | nil => simp
  | cons first rest ih =>
    cases n with
    | zero => rw [List.modify_zero_cons, List.map_cons, hf, List.map_cons]
    | succ n => rw [List.modify_succ_cons, List.map_cons, ih, List.map_cons]

theorem names_after (h : ∀ data, i ≠ .addJob data) : names (w.after t i o) = names w := by
  have hwrite (c : Bool) : names (if c then (w.attempt t o i).getD w else w) = names w := by
    cases c with
    | false => rfl
    | true =>
      change names ((w.attempt t o i).getD w) = names w
      cases hattempt : w.attempt t o i with
      | none => rfl
      | some w' =>
        rcases BatchReceptions.jobs_attempt hattempt with hsame | ⟨data, hdata, -⟩
        · exact congrArg (List.map fun job => job.data.batchId) hsame
        · exact absurd hdata (h data)
  cases i with
  | takeJob n => exact names_modify Job.take_data
  | finishJob n token ok => exact names_modify fun job => job.finish_data token ok
  | _ => exact hwrite o.delivery.applied

theorem jobs_addJob (data : BatchJob) : jobs (w.addJob data) x =
    if x = data.batchId then max 1 (jobs w x) else jobs w x := by
  have hknown : (w.jobs.any fun job => job.data.batchId == data.batchId) = true ↔
      data.batchId ∈ names w := by
    simp [names]
  unfold World.addJob
  split
  · rename_i hany
    have hpos := List.count_pos_iff.mpr (hknown.mp hany)
    split
    · rename_i hx
      subst hx
      exact (max_eq_right hpos).symm
    · rfl
  · rename_i hany
    have hnone : (names w).count data.batchId = 0 := List.count_eq_zero.mpr fun hmem =>
      hany (hknown.mpr hmem)
    have hnames : names { w with jobs := w.jobs ++ [.new data 5] } = names w ++ [data.batchId] :=
      List.map_append
    rw [jobs, hnames, List.count_append]
    split
    · rename_i hx
      subst hx
      rw [hnone, List.count_singleton_self, jobs, hnone]
      rfl
    · rename_i hx
      rw [List.count_singleton, if_neg (fun h => hx (beq_iff_eq.mp h).symm)]
      rfl

theorem due_change (h : isAccepted (World.change o i b).status = true) :
    isAccepted b.status = true ∨ ∃ data, i = .updateBatch b.id data ∧ accepts data = true := by
  cases i with
  | updateBatch id data =>
    simp only [World.change] at h
    split at h
    · rename_i hid
      cases hstatus : data.status with
      | none =>
        simp only [BatchDesk.set, hstatus, Option.getD_none] at h
        exact Or.inl h
      | some status =>
        simp only [BatchDesk.set, hstatus, Option.getD_some] at h
        refine Or.inr ⟨data, by rw [hid], ?_⟩
        rw [accepts, hstatus]
        exact h
    · exact Or.inl h
  | reroute id newCenterId dispute =>
    simp only [World.change] at h
    split at h
    · cases h
    · exact Or.inl h
  | consolidate centerId totalWeight batchIds =>
    simp only [World.change] at h
    split at h
    · cases h
    · exact Or.inl h
  | receive receipt =>
    simp only [World.change, World.receivedAs] at h
    split at h
    · cases h
    · exact Or.inl h
  | _ => exact Or.inl h

theorem due_after (h : Due (w.after t i o) x) :
    Due w x ∨ ∃ data, i = .updateBatch x data ∧ accepts data = true := by
  obtain ⟨hx, b, hb, haccepted⟩ := h
  rcases (World.findBatch_after : (w.after t i o).findBatch x = w.findBatch x ∨ _) with hsame | hmap
  · exact Or.inl ⟨hx, b, hsame ▸ hb, haccepted⟩
  · rw [hmap] at hb
    obtain ⟨old, hold, rfl⟩ := Option.map_eq_some_iff.mp hb
    rcases due_change haccepted with hdue | ⟨data, hi, hdata⟩
    · exact Or.inl ⟨hx, old, hold, hdue⟩
    · exact Or.inr ⟨data, by rw [hi, key_of_lookup hold], hdata⟩

theorem after_of_error {data : BatchData} {e : Failure}
    (huncut : o.delivery.applied = true → o.delivery = .done)
    (hreply : w.reply t (.updateBatch id data) o = .error e) :
    w.after t (.updateBatch id data) o = w := by
  change (if o.delivery.applied then (w.attempt t o (.updateBatch id data)).getD w else w) = w
  split
  · rename_i happlied
    cases hfound : w.findBatch id with
    | none =>
      have hattempt : w.attempt t o (.updateBatch id data) = none := by
        change (w.findBatch id).map _ = none
        rw [hfound]
        rfl
      rw [hattempt]
      rfl
    | some b =>
      have hattempt : w.attempt t o (.updateBatch id data) = some (w.updateBatch id data) := by
        change (w.findBatch id).map _ = _
        rw [hfound]
        rfl
      have hanswer : (w.updateBatch id data).findBatch id = some (set data b) := by
        have hids : ∀ b : Batch, (if b.id = id then set data b else b).id = b.id := fun b => by
          split <;> rfl
        refine (lookup_map hids).trans ?_
        rw [show lookup Batch.id w.batches id = some b from hfound, Option.map_some,
          if_pos (key_of_lookup hfound)]
      have hok : w.reply t (.updateBatch id data) o = .ok (set data b) := by
        change World.written (w.attempt t o (.updateBatch id data)) o.delivery (fun w' =>
          w'.findBatch id) = _
        rw [hattempt, World.written, Option.bind_some, hanswer, huncut happlied]
        rfl
      rw [hok] at hreply
      cases hreply
  · rfl

theorem next_of_quiet {r : Except Failure (Reply i)}
    (hupdate : ∀ id data, i = .updateBatch id data → accepts data = false)
    (hadd : ∀ data, i ≠ .addJob data) : next s i r = s := by
  cases i with
  | updateBatch id data =>
    cases r with
    | error e => rfl
    | ok updated =>
      change (if accepts data then some updated.id else s) = s
      rw [hupdate id data rfl]
      rfl
  | addJob data => exact absurd rfl (hadd data)
  | _ => rfl

theorem single_after (h : ∀ id, id ≠ "" → jobs w id ≤ 1) (id : String) (hid : id ≠ "") :
    jobs (w.after t i o) id ≤ 1 := by
  by_cases hadd : ∀ data, i ≠ .addJob data
  · rw [jobs, names_after hadd]
    exact h id hid
  · obtain ⟨data, hi⟩ := not_forall_not.mp hadd
    subst hi
    change jobs (if o.delivery.applied then w.addJob data else w) id ≤ 1
    have hold := h id hid
    split
    · rw [jobs_addJob]
      split <;> omega
    · exact hold

theorem kept_call (h : Kept w st) (hj : st j = some s) (hallowed : Allowed s i)
    (huncut : UncutCall i o) :
    Kept (w.after t i o) (Function.update st j (some (next s i (w.reply t i o)))) := by
  refine ⟨single_after h.single, ?_⟩
  by_cases hadd : ∀ data, i ≠ .addJob data
  swap
  · obtain ⟨data, hi⟩ := not_forall_not.mp hadd
    subst hi
    have hafter : w.after t (.addJob data) o = w.addJob data := if_pos huncut
    have howed : owed st j = some data.batchId := by
      rw [owed, hj]
      exact hallowed
    rw [hafter, owed_update]
    intro x hx
    have hdue : Due w x := by
      obtain ⟨hx, b, hb, haccepted⟩ := hx
      refine ⟨hx, b, ?_, haccepted⟩
      unfold World.addJob at hb
      split at hb <;> exact hb
    rw [jobs_addJob]
    by_cases hxd : x = data.batchId
    · rw [if_pos hxd]
      exact Or.inl (by omega)
    · rw [if_neg hxd]
      refine (h.met x hdue).imp_right fun ⟨k, hk⟩ => ⟨k, ?_⟩
      have hkj : k ≠ j := by
        intro he
        rw [he, howed] at hk
        exact hxd (Option.some.inj hk).symm
      rw [Function.update_of_ne hkj]
      exact hk
  · have hjobs (x : String) : jobs (w.after t i o) x = jobs w x := by
      rw [jobs, names_after hadd, jobs]
    by_cases hupdate : ∀ id data, i = .updateBatch id data → accepts data = false
    · rw [next_of_quiet hupdate hadd, owed_keep hj]
      refine h.met.mono (fun x hx => ?_) hjobs
      rcases due_after hx with hdue | ⟨data, hi, hdata⟩
      · exact hdue
      · rw [hupdate x data hi] at hdata
        cases hdata
    · push Not at hupdate
      obtain ⟨id, data, hi, hdata⟩ := hupdate
      subst hi
      have haccepts : accepts data = true := Bool.eq_true_of_not_eq_false hdata
      have hs : s = none := hallowed
      subst hs
      cases hreply : w.reply t (.updateBatch id data) o with
      | error e =>
        rw [after_of_error (huncut haccepts) hreply,
          show next none (.updateBatch id data) (.error e) = none from rfl, owed_keep hj]
        exact h.met
      | ok updated =>
        obtain ⟨-, -, hfound⟩ := World.updateBatch_ok hreply
        have hnext : next none (.updateBatch id data) (.ok updated) = some updated.id :=
          if_pos haccepts
        have hfree : owed st j = none := by
          rw [owed, hj]
          rfl
        rw [hnext, owed_update, show (some (some updated.id) : Option Debt).join =
          some updated.id from rfl, key_of_lookup hfound]
        refine Met.mono ?_ (fun _ hx => hx) hjobs
        refine h.met.incur hfree fun x hx => ?_
        rcases due_after hx with hdue | ⟨data', hi, -⟩
        · exact Or.inl hdue
        · cases hi
          exact Or.inr rfl

theorem count_forgotten {q : List (Job BatchJob)} {n : ℕ} (hx : x ≠ "")
    (hkept : ∀ job, q[n]? = some job → job.data.batchId ≠ x) :
    ((q.modify n forgotten).map fun job => job.data.batchId).count x =
      (q.map fun job => job.data.batchId).count x := by
  induction q generalizing n with
  | nil => simp
  | cons first rest ih =>
    cases n with
    | zero =>
      have hfirst : first.data.batchId ≠ x := hkept first rfl
      rw [List.modify_zero_cons, List.map_cons, List.map_cons, List.count_cons_of_ne hfirst]
      refine List.count_cons_of_ne ?_
      unfold forgotten
      split
      · exact hx.symm
      · exact hfirst
    | succ n =>
      rw [List.modify_succ_cons, List.map_cons, List.map_cons, List.count_cons, List.count_cons,
        ih fun job hjob => hkept job hjob]

theorem count_forgotten_le {q : List (Job BatchJob)} {n : ℕ} (hx : x ≠ "") :
    ((q.modify n forgotten).map fun job => job.data.batchId).count x ≤
      (q.map fun job => job.data.batchId).count x := by
  induction q generalizing n with
  | nil => simp
  | cons first rest ih =>
    cases n with
    | zero =>
      rw [List.modify_zero_cons, List.map_cons, List.map_cons]
      unfold forgotten
      split
      · rw [List.count_cons_of_ne hx.symm]
        exact List.count_le_count_cons
      · exact le_rfl
    | succ n =>
      rw [List.modify_succ_cons, List.map_cons, List.map_cons, List.count_cons, List.count_cons]
      exact Nat.add_le_add_right ih _

theorem kept_outside {d : Outside} (h : Kept w st) (hw : outside w d = some w')
    (huncut : ∀ n, d = .forget n → ∀ job, w.jobs[n]? = some job → ¬ Due w job.data.batchId) :
    Kept w' st := by
  cases d with
  | «open» id collectorId centerId =>
    obtain ⟨hfresh, hw⟩ := Option.ite_none_right_eq_some.mp hw
    cases hw
    refine ⟨h.single, h.met.mono (fun x hx => ?_) fun _ => rfl⟩
    obtain ⟨hx, b, hb, haccepted⟩ := hx
    have hfind : (w.findBatch x).or
      (if id = x then some (openBatch id collectorId centerId w.now) else none) =
        some b := lookup_append.symm.trans hb
    cases hold : w.findBatch x with
    | some old =>
      rw [hold, Option.some_or] at hfind
      cases hfind
      exact ⟨hx, b, hold, haccepted⟩
    | none =>
      rw [hold, Option.none_or] at hfind
      split at hfind
      · cases hfind
        cases haccepted
      · cases hfind
  | stock stock =>
    obtain ⟨-, hw⟩ := Option.ite_none_right_eq_some.mp hw
    cases hw
    exact ⟨h.single, h.met⟩
  | stall n =>
    cases hw
    have hjobs (x : String) : jobs { w with jobs := w.jobs.modify n Job.stall } x = jobs w x :=
      congrArg (List.count x) (names_modify Job.stall_data)
    exact ⟨fun id hid => (hjobs id).trans_le (h.single id hid), h.met.mono (fun _ hx => hx) hjobs⟩
  | retry n =>
    cases hw
    have hjobs (x : String) : jobs { w with jobs := w.jobs.modify n Job.retry } x = jobs w x :=
      congrArg (List.count x) (names_modify Job.retry_data)
    exact ⟨fun id hid => (hjobs id).trans_le (h.single id hid), h.met.mono (fun _ hx => hx) hjobs⟩
  | forget n =>
    cases hw
    refine ⟨fun id hid => (count_forgotten_le hid).trans (h.single id hid), fun x hx => ?_⟩
    have hdue : Due w x := hx
    have hjobs : jobs { w with jobs := w.jobs.modify n forgotten } x = jobs w x :=
      count_forgotten hdue.1 fun job hjob he => huncut n rfl job hjob (he ▸ hdue)
    rw [hjobs]
    exact h.met x hdue
  | _ =>
    cases hw
    exact ⟨h.single, h.met⟩

end Calls

/-! ### Runs -/

/-- Where a run may begin: an accepted batch has its job. -/
def Opening (w : World) : Prop := ∀ id, id ≠ "" → jobs w id ≤ 1 ∧ (Due w id → jobs w id ≠ 0)

section Runs

variable {svc : Backend} {w : World} {es : List RaceEvent} {c : Race Debt} {s : Debt} {i : Op}
    {o : Outcome}
  {id : String}

theorem keeps_program (svc : Backend) (actor : Actor) :
    Keeps protocol (fun _ _ => True) none (program svc actor).run :=
  (clears_program svc actor).mono (fun _ _ _ => trivial) fun _ _ _ => trivial

theorem run_kept (hopening : Opening w) (huncut : Along (race svc).step Uncut (quiescent w) es)
    (hrun : run (race svc).step (quiescent w) es = some c) : Kept c.world (stages c) := by
  refine run_stages (S := race svc) (C := Uncut) (I := Kept) (fun actor =>
    keeps_program svc actor) ?_
    (fun c j o s i h hj hi hallowed hC => kept_call h hj hallowed (hC i hi)) ?_ ?_
      (fun j t ht => by cases ht) ?_
    huncut hrun
  · intro w st j h hj
    refine ⟨h.single, ?_⟩
    have hfree : owed (Function.update st j (some none)) = owed st := by
      rw [owed_update, Function.update_eq_self_iff, owed, hj]
      rfl
    change Met (Due w) (jobs w) (owed (Function.update st j (some none)))
    rw [hfree]
    exact h.met
  · intro c j h hC
    refine ⟨h.single, ?_⟩
    rw [owed_update]
    exact h.met.release hC
  · intro c d w h hC hw
    refine kept_outside h hw fun n hd job hjob => ?_
    subst hd
    exact hC job hjob
  · exact ⟨fun id hid => (hopening id hid).1, fun id hdue => Or.inl ((hopening id hdue.1).2 hdue)⟩

theorem owes_call (hid : id ≠ "") (howes : s = some id ∧ ∀ id, id ≠ "" → jobs w id ≤ 1)
    (hallowed : Allowed s i) (hdone : o.delivery = .done) : jobs ((race svc).serve w i o).2 id = 1 ∨
      (next s i ((race svc).serve w i o).1 = some id ∧
        ∀ id, id ≠ "" → jobs ((race svc).serve w i o).2 id ≤ 1) := by
  obtain ⟨hs, hsingle⟩ := howes
  subst hs
  by_cases hadd : ∀ data, i ≠ .addJob data
  · refine Or.inr ⟨next_of_quiet (fun id' data hi => ?_) hadd, single_after hsingle⟩
    subst hi
    cases hallowed
  · obtain ⟨data, hi⟩ := not_forall_not.mp hadd
    subst hi
    have hdata : id = data.batchId := Option.some.inj hallowed
    have hafter : ((race svc).serve w (.addJob data) o).2 = w.addJob data :=
      if_pos (by rw [hdone]; rfl)
    refine Or.inl ?_
    rw [hafter, jobs_addJob, if_pos hdata]
    have hle := hsingle id hid
    omega

/-- In a run in which nobody is cut off between the update that accepts a batch and its job, a batch
has one job at most; while it is PROCESSING or PARTIALLY_ACCEPTED it has it, or some program that is
answered goes on to add it. -/
theorem accepted_batches_registered (hopening : Opening w)
    (huncut : Along (race svc).step Uncut (quiescent w) es)
    (hrun : run (race svc).step (quiescent w) es = some c) (hid : id ≠ "") :
    jobs c.world id ≤ 1 ∧ ∀ b, c.world.findBatch id = some b → isAccepted b.status = true →
      jobs c.world id = 1 ∨ ∀ o : Outcome, o.delivery = .done →
        Attains (race svc) o c fun w => jobs w id = 1 := by
  have hkept := run_kept hopening huncut hrun
  have hsingle := hkept.single id hid
  refine ⟨hsingle, fun b hb haccepted => ?_⟩
  rcases hkept.met id ⟨hid, b, hb, haccepted⟩ with hjobs | ⟨j, howed⟩
  · exact Or.inl (by omega)
  · refine Or.inr fun o hdone => ?_
    have hs : stages c j = some (some id) := by
      unfold owed at howed
      cases hstage : stages c j with
      | none =>
        rw [hstage] at howed
        cases howed
      | some s =>
        rw [hstage] at howed
        exact congrArg some howed
    obtain ⟨⟨s, rest⟩, ht, hstage⟩ := Option.map_eq_some_iff.mp hs
    have hends : (race svc).Ends (fun t _ => t = none) c :=
      run_ends (fun actor => clears_program svc actor) (fun j t ht => by cases ht) hrun
    refine attains_of_keeps (D := fun w s => s = some id ∧ ∀ id, id ≠ "" → jobs w id ≤ 1)
      (Q := fun t _ => t = none) (fun w s i howes hallowed =>
        owes_call hid howes hallowed hdone) ?_ ht
      (hends j _ ht) ⟨hstage, hkept.single⟩
    intro w s a hs howes
    rw [hs] at howes
    cases howes.1

end Runs

def written : List RaceEvent :=
  .start 0 (.endpoint ⟨"center", .centroAcopio⟩
    (.receive "batch" ⟨BatchReceptions.tenKilograms, none, none⟩)) ::
    BatchReceptions.answers 0 2

theorem accepted_batches_registered_written : ∃ c,
    run (race BatchReceptions.backend).step
      (quiescent (BatchReceptions.desk .inTransit none [])) written = some c ∧
      c.world.batches.map Batch.status = [.processing] ∧ jobs c.world "batch" = 0 ∧
      Attains (race BatchReceptions.backend) ⟨.done, "cid", some "hash"⟩ c fun w =>
        jobs w "batch" = 1 := by
  have hrun : (run (race BatchReceptions.backend).step
    (quiescent (BatchReceptions.desk .inTransit none []))
      written).map (fun c => (c.world.batches.map Batch.status, jobs c.world "batch",
        (c.world.findBatch "batch").map Batch.status)) =
          some ([.processing], 0, some .processing) := by
    decide +kernel
  obtain ⟨c, hc, hpair⟩ := Option.map_eq_some_iff.mp hrun
  obtain ⟨hstatuses, hpair⟩ := Prod.mk.inj hpair
  obtain ⟨hjobs, hstatus⟩ := Prod.mk.inj hpair
  obtain ⟨b, hb, hprocessing⟩ := Option.map_eq_some_iff.mp hstatus
  have hopening : Opening (BatchReceptions.desk .inTransit none []) := by
    refine fun id _ => ⟨Nat.zero_le _, fun hdue => ?_⟩
    obtain ⟨-, b, hb, haccepted⟩ := hdue
    obtain rfl := List.mem_singleton.mp (mem_of_lookup hb)
    cases haccepted
  have huncut : ∀ e ∈ written, ∀ c, Uncut c e := by
    intro e he c
    rcases List.mem_cons.mp he with rfl | he
    · trivial
    · cases List.eq_of_mem_replicate he
      intro i hi
      cases i <;> first | trivial | exact rfl | exact fun _ _ => rfl
  have hout := (accepted_batches_registered hopening (along_of_forall huncut) hc (by decide)).2 b hb
    (by rw [hprocessing]; rfl)
  exact ⟨c, hc, hstatuses, hjobs, hout.resolve_left (by omega) _ rfl⟩

end Livora.BatchRegistrations
