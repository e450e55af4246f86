import Livora.JobQueues
import Livora.TransitionRuns
import Mathlib.Data.List.Nodup
import Mathlib.Data.Rat.Init

/-! The dead letters of the blockchain queue. A job whose attempts are used up is wrapped into an
entry of a second queue, which counts its ids on its own; what an administrator retries is looked up
in the first queue and, where nothing is found there, put back wrapped as it is. -/

namespace Livora.DeadLetters

open TransitionRuns
open JobQueues (Phase)

inductive Json where
  | null
  | bool (b : Bool)
  | number (n : ℚ)
  | text (s : String)
  | list (items : List Json)
  | record (fields : List (String × Json))

/-- The id of a job: counted by its queue, or given by whoever adds it, who may not give a
number. -/
inductive JobId where
  | counted (n : ℕ)
  | given (text : String)
deriving DecidableEq

structure Job where
  id : JobId
  name : String
  data : Json
  /-- The option, zero where it was not set. -/
  attempts : ℕ
  attemptsMade : ℕ
  phase : Phase

structure Queue where
  lastId : ℕ
  jobs : List Job

namespace Queue

def getJob (q : Queue) (id : JobId) : Option Job := q.jobs.find? fun job => job.id == id

def nextId (q : Queue) (jobId : Option String) : JobId :=
  match jobId with
  | some text => .given text
  | none => .counted (q.lastId + 1)

/-- The counter goes up in any case; a job that is there under the id stays. -/
def add (q : Queue) (name : String) (data : Json) (attempts : ℕ) (jobId : Option String) :
    Queue where
  lastId := q.lastId + 1
  jobs :=
    if (q.getJob (q.nextId jobId)).isSome then q.jobs
    else q.jobs ++ [⟨q.nextId jobId, name, data, attempts, 0, .waiting⟩]

def remove (q : Queue) (id : JobId) : Queue :=
  { q with jobs := q.jobs.filter fun job => job.id != id }

def modify (q : Queue) (id : JobId) (f : Job → Job) : Queue :=
  { q with jobs := q.jobs.map fun job => if job.id = id then f job else job }

end Queue

inductive Failure where
  | notFound (message : String)
  | outside

/-! ### The processor -/

inductive Handler where
  | processBatchBlockchain
  | processRedemptionTransfer
  | processSettlementTransfer
  | processIzipayMintTokens
  | processRedemptionRefundTransfer
deriving DecidableEq

def process (job : Job) : Except String (Handler × Json) :=
  match job.name with
  | "process-batch-blockchain" => .ok (.processBatchBlockchain, job.data)
  | "redemption-transfer" => .ok (.processRedemptionTransfer, job.data)
  | "settlement-transfer" => .ok (.processSettlementTransfer, job.data)
  | "izipay-mint-tokens" => .ok (.processIzipayMintTokens, job.data)
  | "redemption-refund-transfer" => .ok (.processRedemptionRefundTransfer, job.data)
  | name => .error ("Job no reconocido: " ++ name)

structure JobError where
  message : String
  stack : Option String

/-- `job.opts?.attempts || 5` -/
def maxAttempts (job : Job) : ℕ := if job.attempts = 0 then 5 else job.attempts

def deadName (job : Job) : String := "dlq-" ++ job.name

def idText : JobId → String
  | .counted n => toString n
  | .given text => text

/-- What is kept of the job; a stack that is not there is left out. -/
def envelope (job : Job) (error : JobError) (failedAt : String) : Json :=
  .record ([("originalJobId", .text (idText job.id)), ("originalJobName", .text job.name),
    ("originalData", job.data), ("failedReason", .text error.message)] ++
      (error.stack.map fun stack => ("stack", Json.text stack)).toList ++
      [("attemptsMade", .number job.attemptsMade), ("failedAt", .text failedAt)])

/-- `reached`: the second queue takes the entry. A failure to add it is only logged. -/
def onFailed (dlq : Queue) (job : Job) (error : JobError) (failedAt : String) (reached : Bool) :
    Queue :=
  if maxAttempts job ≤ job.attemptsMade && reached then
    dlq.add (deadName job) (envelope job error failedAt) 0 none
  else dlq

/-! ### The administrator -/

structure Queues where
  blockchainQueue : Queue
  blockchainDlq : Queue

structure RetryResponse where
  message : String
  queue : String

/-- A job can be retried only once it has failed for good. -/
def Queue.retry (q : Queue) (job : Job) : Except Failure Queue :=
  if job.phase = .failed then .ok (q.modify job.id fun job => { job with phase := .waiting })
  else .error .outside

def retryQueueJob (s : Queues) (jobId : JobId) : Except Failure (RetryResponse × Queues) :=
  match s.blockchainQueue.getJob jobId with
  | some job => do
    let queue ← s.blockchainQueue.retry job
    pure (⟨"Trabajo " ++ idText jobId ++ " re-encolado para ejecución inmediata",
      "blockchain-queue"⟩, { s with blockchainQueue := queue })
  | none =>
    match s.blockchainDlq.getJob jobId with
    | some dlqJob =>
      .ok (⟨"Trabajo " ++ idText jobId ++ " restaurado desde DLQ a la cola primaria",
        "blockchain-queue"⟩,
        ⟨s.blockchainQueue.add dlqJob.name dlqJob.data 5 none, s.blockchainDlq.remove jobId⟩)
    | none =>
      .error (.notFound ("Trabajo " ++ idText jobId ++ " no encontrado en las colas de ejecución"))

def retried (s : Queues) (jobId : JobId) : Queues :=
  match retryQueueJob s jobId with
  | .ok (_, s') => s'
  | .error _ => s

/-! ### Runs -/

/-- What happens to the queues: services add jobs; a worker takes a job, finishes it, fails or goes
silent, and is not waited for in the end; a job that is done with is dropped; the administrator
retries. -/
inductive Event where
  | add (name : String) (data : Json) (attempts : ℕ) (jobId : Option String)
  | take (id : JobId)
  | complete (id : JobId)
  | fail (id : JobId) (error : JobError) (failedAt : String) (reached : Bool)
  | stall (id : JobId)
  | giveUp (id : JobId) (error : JobError) (failedAt : String) (reached : Bool)
  | drop (id : JobId)
  | retry (id : JobId)

def Job.failed (job : Job) : Job :=
  { job with
    attemptsMade := job.attemptsMade + 1
    phase := if job.attemptsMade + 1 < job.attempts then .waiting else .failed }

def step (s : Queues) : Event → Option Queues
  | .add name data attempts jobId =>
    some { s with blockchainQueue := s.blockchainQueue.add name data attempts jobId }
  | .take id => (s.blockchainQueue.getJob id).bind fun job =>
    if job.phase = .waiting then
      some { s with blockchainQueue := s.blockchainQueue.modify id fun job =>
        { job with phase := .active } }
    else none
  | .complete id => (s.blockchainQueue.getJob id).bind fun job =>
    if job.phase = .active then
      some { s with
        blockchainQueue := s.blockchainQueue.modify id fun job =>
          { job with attemptsMade := job.attemptsMade + 1, phase := .completed } }
    else none
  | .fail id error failedAt reached => (s.blockchainQueue.getJob id).bind fun job =>
    if job.phase = .active then
      some {
        blockchainQueue := s.blockchainQueue.modify id Job.failed
        blockchainDlq := onFailed s.blockchainDlq job.failed error failedAt reached }
    else none
  | .stall id => (s.blockchainQueue.getJob id).bind fun job =>
    if job.phase = .active then
      some { s with blockchainQueue := s.blockchainQueue.modify id fun job =>
        { job with phase := .waiting } }
    else none
  | .giveUp id error failedAt reached => (s.blockchainQueue.getJob id).bind fun job =>
    if job.phase = .active then
      some {
        blockchainQueue := s.blockchainQueue.modify id fun job => { job with phase := .failed }
        blockchainDlq :=
          onFailed s.blockchainDlq { job with phase := .failed } error failedAt reached }
    else none
  | .drop id => (s.blockchainQueue.getJob id).bind fun job =>
    if job.phase = .completed ∨ job.phase = .failed then
      some { s with blockchainQueue := s.blockchainQueue.remove id }
    else none
  | .retry id => some (retried s id)

def start : Queues := ⟨⟨0, []⟩, ⟨0, []⟩⟩

/-! ### Ids -/

/-- No two jobs of the queue have an id in common, and the ones it has counted are not above its
counter. -/
structure Keyed (q : Queue) : Prop where
  nodup : (q.jobs.map Job.id).Nodup
  below : ∀ job ∈ q.jobs, ∀ n, job.id = .counted n → n ≤ q.lastId

section Keyed

variable {q : Queue} {job : Job} {id : JobId}

theorem mem_of_getJob (h : q.getJob id = some job) : job ∈ q.jobs ∧ job.id = id :=
  ⟨List.mem_of_find?_eq_some h, by simpa using List.find?_some h⟩

theorem Keyed.getJob_of_mem (h : Keyed q) (hjob : job ∈ q.jobs) : q.getJob job.id = some job := by
  cases hfound : q.getJob job.id with
  | none => exact absurd (List.find?_eq_none.mp hfound job hjob) (by simp)
  | some other =>
    obtain ⟨hother, hid⟩ := mem_of_getJob hfound
    rw [List.inj_on_of_nodup_map h.nodup hother hjob hid]

theorem not_mem_ids_of_getJob (h : q.getJob id = none) : id ∉ q.jobs.map Job.id := by
  rintro hmem
  obtain ⟨job, hjob, rfl⟩ := List.mem_map.mp hmem
  exact absurd (List.find?_eq_none.mp h job hjob) (by simp)

theorem Keyed.add (h : Keyed q) (name : String) (data : Json) (attempts : ℕ)
    (jobId : Option String) :
    Keyed (q.add name data attempts jobId) := by
  unfold Queue.add
  split
  · exact ⟨h.nodup, fun job hjob n hn => Nat.le_succ_of_le (h.below job hjob n hn)⟩
  · rename_i hfresh
    rw [Bool.not_eq_true, Option.isSome_eq_false_iff, Option.isNone_iff_eq_none] at hfresh
    refine ⟨?_, fun job hjob n hn => ?_⟩
    · rw [List.map_append, List.map_singleton]
      refine List.Nodup.append h.nodup (List.nodup_singleton _) ?_
      rw [List.disjoint_singleton]
      exact not_mem_ids_of_getJob hfresh
    · rcases List.mem_append.mp hjob with hjob | hjob
      · exact Nat.le_succ_of_le (h.below job hjob n hn)
      · obtain rfl := List.mem_singleton.mp hjob
        cases jobId with
        | some text => cases hn
        | none =>
          cases hn
          exact Nat.le_refl _

theorem Keyed.remove (h : Keyed q) (id : JobId) : Keyed (q.remove id) :=
  ⟨h.nodup.sublist (List.filter_sublist.map _), fun job hjob =>
    h.below job (List.mem_of_mem_filter hjob)⟩

theorem Keyed.modify (h : Keyed q) (id : JobId) {f : Job → Job} (hf : ∀ job, (f job).id = job.id) :
    Keyed (q.modify id f) := by
  have hid (job : Job) : (if job.id = id then f job else job).id = job.id := by
    split
    · exact hf job
    · rfl
  constructor
  · rw [Queue.modify, List.map_map, show Job.id ∘ (fun job => if job.id = id then f job else job) =
      Job.id from
      funext hid]
    exact h.nodup
  · intro job hjob n hn
    obtain ⟨old, hold, rfl⟩ := List.mem_map.mp hjob
    exact h.below old hold n ((hid old).symm.trans hn)

theorem Keyed.add_counted (h : Keyed q) (name : String) (data : Json) (attempts : ℕ) :
    (q.add name data attempts none).jobs =
      q.jobs ++ [⟨.counted (q.lastId + 1), name, data, attempts, 0, .waiting⟩] := by
  have hfresh : q.getJob (.counted (q.lastId + 1)) = none := by
    cases hfound : q.getJob (.counted (q.lastId + 1)) with
    | none => rfl
    | some job =>
      obtain ⟨hjob, hid⟩ := mem_of_getJob hfound
      exact absurd (h.below job hjob _ hid) (by omega)
  simp only [Queue.add, Queue.nextId, hfresh, Option.isSome_none, Bool.false_eq_true, if_false]

end Keyed

/-! ### What an entry holds -/

def Exhausted (job : Job) : Prop := maxAttempts job ≤ job.attemptsMade

def Written (job entry : Job) : Prop :=
  ∃ error failedAt, entry.name = deadName job ∧ entry.data = envelope job error failedAt

/-- Every entry was written for a job that had used up its attempts. -/
structure Sound (s : Queues) : Prop where
  blockchainQueue : Keyed s.blockchainQueue
  blockchainDlq : Keyed s.blockchainDlq
  entries : ∀ entry ∈ s.blockchainDlq.jobs, ∃ job, Exhausted job ∧ Written job entry

section Sound

variable {s s' : Queues} {job : Job} {jobId : JobId} {e : Event}

theorem sound_start : Sound start :=
  ⟨⟨List.nodup_nil, fun _ h => by cases h⟩, ⟨List.nodup_nil, fun _ h => by cases h⟩,
    fun _ h => by cases h⟩

theorem Sound.withQueue {q : Queue} (h : Sound s) (hq : Keyed q) :
    Sound { s with blockchainQueue := q } :=
  ⟨hq, h.blockchainDlq, h.entries⟩

theorem Sound.onFailed {q : Queue} (h : Sound s) (hq : Keyed q) (job : Job) (error : JobError)
    (failedAt : String) (reached : Bool) :
    Sound ⟨q, onFailed s.blockchainDlq job error failedAt reached⟩ := by
  unfold DeadLetters.onFailed
  split
  · rename_i hreached
    rw [Bool.and_eq_true, decide_eq_true_eq] at hreached
    refine ⟨hq, h.blockchainDlq.add _ _ _ _, fun entry hentry => ?_⟩
    rw [h.blockchainDlq.add_counted] at hentry
    rcases List.mem_append.mp hentry with hentry | hentry
    · exact h.entries entry hentry
    · obtain rfl := List.mem_singleton.mp hentry
      exact ⟨job, hreached.1, error, failedAt, rfl, rfl⟩
  · exact ⟨hq, h.blockchainDlq, h.entries⟩

theorem retried_cases (s : Queues) (jobId : JobId) :
    (∃ job, s.blockchainQueue.getJob jobId = some job ∧ job.phase = .failed ∧
      retried s jobId = { s with
        blockchainQueue := s.blockchainQueue.modify job.id fun job =>
          { job with phase := .waiting } }) ∨
    (∃ job, s.blockchainQueue.getJob jobId = some job ∧ job.phase ≠ .failed ∧ retried s jobId = s) ∨
    (∃ entry, s.blockchainQueue.getJob jobId = none ∧ s.blockchainDlq.getJob jobId = some entry ∧
      retried s jobId =
        ⟨s.blockchainQueue.add entry.name entry.data 5 none, s.blockchainDlq.remove jobId⟩) ∨
    s.blockchainQueue.getJob jobId = none ∧ s.blockchainDlq.getJob jobId = none ∧
      retried s jobId = s := by
  unfold retried retryQueueJob
  cases hjob : s.blockchainQueue.getJob jobId with
  | some job =>
    by_cases hfailed : job.phase = .failed
    · refine .inl ⟨job, rfl, hfailed, ?_⟩
      have hretry : s.blockchainQueue.retry job =
          .ok (s.blockchainQueue.modify job.id fun job => { job with phase := .waiting }) :=
            if_pos hfailed
      simp only [hretry]
      rfl
    · refine .inr (.inl ⟨job, rfl, hfailed, ?_⟩)
      have hretry : s.blockchainQueue.retry job = .error .outside := if_neg hfailed
      simp only [hretry]
      rfl
  | none =>
    cases hentry : s.blockchainDlq.getJob jobId with
    | some entry => exact .inr (.inr (.inl ⟨entry, rfl, rfl, rfl⟩))
    | none => exact .inr (.inr (.inr ⟨rfl, rfl, rfl⟩))

theorem Sound.retried (h : Sound s) (jobId : JobId) : Sound (retried s jobId) := by
  rcases retried_cases s jobId with ⟨job, -, -, he⟩ | ⟨job, -, -, he⟩ | ⟨entry, -, -, he⟩ | ⟨-, -,
    he⟩ <;> rw [he]
  · exact h.withQueue (h.blockchainQueue.modify _ fun _ => rfl)
  · exact h
  · exact ⟨h.blockchainQueue.add _ _ _ _, h.blockchainDlq.remove _,
      fun other hother => h.entries other (List.mem_of_mem_filter hother)⟩
  · exact h

theorem of_asked {id : JobId} {p : Job → Prop} [DecidablePred p] {f : Job → Queues}
    (h : ((s.blockchainQueue.getJob id).bind fun job => if p job then some (f job) else none) =
      some s') :
    ∃ job, p job ∧ f job = s' := by
  obtain ⟨job, -, h⟩ := Option.bind_eq_some_iff.mp h
  split at h
  · exact ⟨job, ‹_›, Option.some.inj h⟩
  · cases h

theorem sound_step (h : Sound s) (hstep : step s e = some s') : Sound s' := by
  cases e with
  | add name data attempts jobId =>
    obtain rfl := Option.some.inj hstep
    exact h.withQueue (h.blockchainQueue.add _ _ _ _)
  | take id =>
    obtain ⟨job, -, rfl⟩ := of_asked hstep
    exact h.withQueue (h.blockchainQueue.modify _ fun _ => rfl)
  | complete id =>
    obtain ⟨job, -, rfl⟩ := of_asked hstep
    exact h.withQueue (h.blockchainQueue.modify _ fun _ => rfl)
  | fail id error failedAt reached =>
    obtain ⟨job, -, rfl⟩ := of_asked hstep
    exact h.onFailed (h.blockchainQueue.modify id (f := Job.failed) fun _ => rfl) _ _ _ _
  | stall id =>
    obtain ⟨job, -, rfl⟩ := of_asked hstep
    exact h.withQueue (h.blockchainQueue.modify _ fun _ => rfl)
  | giveUp id error failedAt reached =>
    obtain ⟨job, -, rfl⟩ := of_asked hstep
    exact h.onFailed (h.blockchainQueue.modify id (f := fun job => { job with phase := .failed })
      fun _ => rfl)
      _ _ _ _
  | drop id =>
    obtain ⟨job, -, rfl⟩ := of_asked hstep
    exact h.withQueue (h.blockchainQueue.remove _)
  | retry id =>
    obtain rfl := Option.some.inj hstep
    exact h.retried _

theorem sound_run {es : List Event} (hrun : run step start es = some s) : Sound s :=
  run_preserves (fun _ _ _ h hstep => sound_step h hstep) sound_start hrun

end Sound

/-! ### The way back -/

/-- The retry puts back a job with the name and the data of the one that had failed, and no other
job. -/
structure Restores (s : Queues) (jobId : JobId) (job : Job) : Prop where
  again : ∃ j ∈ (retried s jobId).blockchainQueue.jobs, j ∉ s.blockchainQueue.jobs ∧
    j.phase = .waiting ∧ j.name = job.name ∧ j.data = job.data
  only : ∀ j ∈ (retried s jobId).blockchainQueue.jobs, j ∉ s.blockchainQueue.jobs →
    j.name = job.name ∧ j.data = job.data

/-- A job put back under the id is the failed one, in the name and the data of the job asked for. -/
def KeptAs (s : Queues) (jobId : JobId) (job : Job) : Prop :=
  ∃ kept, s.blockchainQueue.getJob jobId = some kept ∧ kept.phase = .failed ∧
    kept.name = job.name ∧ kept.data = job.data

section Restoring

variable {s : Queues} {job entry kept : Job} {jobId : JobId}

theorem new_of_modify (h : Keyed s.blockchainQueue) (hkept : kept ∈ s.blockchainQueue.jobs)
    (hfailed : kept.phase = .failed) (j : Job) :
    (j ∈ (s.blockchainQueue.modify kept.id fun job => { job with phase := .waiting }).jobs ∧
      j ∉ s.blockchainQueue.jobs) ↔ j = { kept with phase := .waiting } := by
  constructor
  · rintro ⟨hmem, hnew⟩
    obtain ⟨old, hold, rfl⟩ := List.mem_map.mp hmem
    split at hnew
    · rename_i hid
      rw [if_pos hid, List.inj_on_of_nodup_map h.nodup hold hkept hid]
    · exact absurd hold hnew
  · rintro rfl
    refine ⟨List.mem_map.mpr ⟨kept, hkept, if_pos rfl⟩, fun hmem => ?_⟩
    have hsame := congrArg Job.phase (List.inj_on_of_nodup_map h.nodup hmem hkept rfl)
    rw [hfailed] at hsame
    cases hsame

theorem deadName_ne (job : Job) : deadName job ≠ job.name := by
  intro h
  have hlength := congrArg String.length h
  rw [deadName, String.length_append] at hlength
  have : "dlq-".length = 4 := rfl
  omega

theorem process_dead {job entry : Job} (h : entry.name = deadName job) :
    process entry = .error ("Job no reconocido: " ++ entry.name) := by
  have hfirst : entry.name.toList.head? = some 'd' := by
    rw [h, deadName, String.toList_append]
    rfl
  unfold process
  split
  all_goals first
    | rfl
    | (rename_i hname
       rw [hname] at hfirst
       exact absurd hfirst (by decide))

theorem restores_iff_keptAs (h : Sound s) (hentry : entry ∈ s.blockchainDlq.jobs)
    (hwritten : Written job entry) :
    Restores s entry.id job ↔ KeptAs s entry.id job := by
  rcases retried_cases s entry.id with ⟨kept, hfound, hfailed, he⟩ | ⟨kept, hfound, hnot, he⟩ |
    ⟨found, hnone, hfound, he⟩ | ⟨-, hnone, -⟩
  · have hkept := (mem_of_getJob hfound).1
    have hnew := new_of_modify h.blockchainQueue hkept hfailed
    constructor
    · intro hrestores
      obtain ⟨hname, hdata⟩ :=
        hrestores.only { kept with phase := .waiting } (he ▸ ((hnew _).mpr rfl).1)
        ((hnew _).mpr rfl).2
      exact ⟨kept, hfound, hfailed, hname, hdata⟩
    · rintro ⟨kept', hfound', -, hname, hdata⟩
      obtain rfl := Option.some.inj (hfound.symm.trans hfound')
      refine ⟨⟨{ kept with phase := .waiting }, he ▸ ((hnew _).mpr rfl).1, ((hnew _).mpr rfl).2,
        rfl, hname, hdata⟩, fun j hj hjnew => ?_⟩
      rw [he] at hj
      obtain rfl := (hnew j).mp ⟨hj, hjnew⟩
      exact ⟨hname, hdata⟩
  · refine iff_of_false (fun hrestores => ?_) ?_
    · obtain ⟨j, hj, hjnew, -⟩ := hrestores.again
      rw [he] at hj
      exact hjnew hj
    · rintro ⟨kept', hfound', hfailed, -⟩
      obtain rfl := Option.some.inj (hfound.symm.trans hfound')
      exact hnot hfailed
  · -- the entry itself is added, under the name of a dead letter
    refine iff_of_false (fun hrestores => ?_) ?_
    · obtain ⟨j, hj, hjnew, -, hname, -⟩ := hrestores.again
      rw [h.blockchainDlq.getJob_of_mem hentry] at hfound
      obtain rfl := Option.some.inj hfound
      rw [he, h.blockchainQueue.add_counted] at hj
      rcases List.mem_append.mp hj with hj | hj
      · exact hjnew hj
      · obtain rfl := List.mem_singleton.mp hj
        obtain ⟨-, -, hdead, -⟩ := hwritten
        exact deadName_ne job (hdead.symm.trans hname)
    · rintro ⟨kept, hkept, -⟩
      rw [hnone] at hkept
      cases hkept
  · rw [h.blockchainDlq.getJob_of_mem hentry] at hnone
    cases hnone

/-- In every state that a run reaches, an entry was written for a job that had used up its attempts,
and retrying it restores that job exactly where the blockchain queue keeps a failed job of this name
and data under the entry's own id. -/
theorem retry_restores_iff {es : List Event} (hrun : run step start es = some s)
    (hentry : entry ∈ s.blockchainDlq.jobs) :
    (∃ job, Exhausted job ∧ Written job entry) ∧
      ∀ job, Written job entry → (Restores s entry.id job ↔ KeptAs s entry.id job) :=
  ⟨(sound_run hrun).entries entry hentry, fun _ hwritten =>
    restores_iff_keptAs (sound_run hrun) hentry hwritten⟩

end Restoring

/-! ### Two payments that fail -/

def redemption : Json := .record [("redemptionId", .text "r")]

def settlement : Json := .record [("settlementId", .text "s")]

def timeout : JobError := ⟨"timeout", none⟩

def failThrice (id : JobId) : List Event :=
  [.take id, .fail id timeout "t" true, .take id, .fail id timeout "t" true, .take id,
    .fail id timeout "t" true]

def lone : List Event :=
  .add "settlement-transfer" settlement 3 none :: failThrice (.counted 1)

def crossed : List Event :=
  .add "redemption-transfer" redemption 3 none :: .add "settlement-transfer" settlement 3 none ::
    (failThrice (.counted 2) ++ failThrice (.counted 1))

def spent (n : ℕ) : Job := ⟨.counted n, "settlement-transfer", settlement, 3, 3, .failed⟩

def entryOf (job : Job) (n : ℕ) : Job :=
  ⟨.counted n, deadName job, envelope job timeout "t", 0, 0, .waiting⟩

theorem written_entryOf (job : Job) (n : ℕ) : Written job (entryOf job n) :=
  ⟨timeout, "t", rfl, rfl⟩

/-- With a single job the two queues have counted alike. -/
theorem retry_restores_iff_lone : ∃ s, run step start lone = some s ∧
    entryOf (spent 1) 1 ∈ s.blockchainDlq.jobs ∧ Restores s (.counted 1) (spent 1) := by
  have hrun : run step start lone = some _ := rfl
  refine ⟨_, hrun, List.mem_singleton.mpr rfl, ?_⟩
  have hiff :=
    (retry_restores_iff hrun (List.mem_singleton.mpr rfl)).2 _ (written_entryOf (spent 1) 1)
  exact hiff.mpr ⟨_, rfl, rfl, rfl, rfl⟩

/-- The entry of the settlement has the id of the redemption, which is paid once more; and once the
failed jobs are dropped, the entry comes back as a job that no handler takes. -/
theorem other_job_retried :
    (∃ s, run step start crossed = some s ∧ entryOf (spent 2) 1 ∈ s.blockchainDlq.jobs ∧
      ¬Restores s (.counted 1) (spent 2) ∧
      (retried s (.counted 1)).blockchainQueue.jobs.map (fun job => (job.name, job.phase)) =
        [("redemption-transfer", .waiting), ("settlement-transfer", .failed)]) ∧
    ∃ s, run step start (lone ++ [.drop (.counted 1)]) = some s ∧
      entryOf (spent 1) 1 ∈ s.blockchainDlq.jobs ∧ ¬Restores s (.counted 1) (spent 1) ∧
      ((retried s (.counted 1)).blockchainQueue.jobs.map process).map Except.toOption = [none] := by
  constructor
  · have hrun : run step start crossed = some _ := rfl
    refine ⟨_, hrun, List.mem_cons_self, ?_, by decide +kernel⟩
    have hiff :=
      restores_iff_keptAs (sound_run hrun) List.mem_cons_self (written_entryOf (spent 2) 1)
    refine mt hiff.mp ?_
    rintro ⟨kept, hfound, -, hname, -⟩
    cases hfound
    exact absurd hname (by decide)
  · have hrun : run step start (lone ++ [.drop (.counted 1)]) = some _ := rfl
    refine ⟨_, hrun, List.mem_cons_self, ?_, by rfl⟩
    have hiff :=
      restores_iff_keptAs (sound_run hrun) List.mem_cons_self (written_entryOf (spent 1) 1)
    refine mt hiff.mp ?_
    rintro ⟨kept, hfound, -⟩
    cases hfound

end Livora.DeadLetters
