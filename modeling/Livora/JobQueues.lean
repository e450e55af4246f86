import Mathlib.Data.List.Basic
import Mathlib.Tactic.Common

/-! A queue of jobs that are tried several times. A worker takes a waiting job and
reports how the attempt ended; a failed attempt puts the job back until its
attempts are used up. A job whose worker has been silent is put back too, while
the worker may still be running: its report, made under an old token, is then
ignored. -/

namespace Livora.JobQueues

inductive Phase where
  | waiting
  | active
  | completed
  | failed
deriving DecidableEq

structure Job (δ : Type*) where
  data : δ
  attempts : ℕ
  attemptsMade : ℕ
  /-- How often a worker has taken the job: the token of the attempt that is active. -/
  started : ℕ
  stalls : ℕ
  phase : Phase
deriving DecidableEq

/-- How often a silent worker is forgiven. -/
def maxStalledCount : ℕ := 1

namespace Job

variable {δ : Type*}

def new (data : δ) (attempts : ℕ) : Job δ := ⟨data, attempts, 0, 0, 0, .waiting⟩

def take (job : Job δ) : Job δ :=
  if job.phase = .waiting then { job with started := job.started + 1, phase := .active } else job

def finish (job : Job δ) (token : ℕ) (ok : Bool) : Job δ :=
  if job.phase = .active ∧ job.started = token then
    { job with
      attemptsMade := job.attemptsMade + 1
      phase :=
        if ok then .completed
        else if job.attemptsMade + 1 < job.attempts then .waiting
        else .failed }
  else job

def stall (job : Job δ) : Job δ :=
  if job.phase = .active then
    { job with
      stalls := job.stalls + 1
      phase := if job.stalls < maxStalledCount then .waiting else .failed }
  else job

def retry (job : Job δ) : Job δ :=
  if job.phase = .failed then { job with phase := .waiting } else job

@[simp] theorem take_data (job : Job δ) : job.take.data = job.data := by
  unfold take
  split <;> rfl

@[simp] theorem finish_data (job : Job δ) (token : ℕ) (ok : Bool) :
    (job.finish token ok).data = job.data := by
  unfold finish
  split <;> rfl

@[simp] theorem stall_data (job : Job δ) : job.stall.data = job.data := by
  unfold stall
  split <;> rfl

@[simp] theorem retry_data (job : Job δ) : job.retry.data = job.data := by
  unfold retry
  split <;> rfl

end Job

section Queues

variable {δ : Type*} {q : List (Job δ)} {n : ℕ} {f : Job δ → Job δ} {job : Job δ}

/-- The `n`-th job, where a worker can take it. -/
def waiting (q : List (Job δ)) (n : ℕ) : Option (Job δ) :=
  q[n]?.filter fun job => job.phase = .waiting

theorem mem_of_waiting (h : waiting q n = some job) : job ∈ q := by
  obtain ⟨h, -⟩ := Option.filter_eq_some_iff.mp h
  exact List.mem_of_getElem? h

theorem data_of_mem_modify (hf : ∀ job, (f job).data = job.data) (h : job ∈ q.modify n f) :
    ∃ old ∈ q, old.data = job.data := by
  induction q generalizing n with
  | nil => simp at h
  | cons first rest ih =>
    cases n with
    | zero =>
      rw [List.modify_zero_cons] at h
      rcases List.mem_cons.mp h with rfl | h
      · exact ⟨first, List.mem_cons_self, (hf first).symm⟩
      · exact ⟨job, List.mem_cons_of_mem _ h, rfl⟩
    | succ n =>
      rw [List.modify_succ_cons] at h
      rcases List.mem_cons.mp h with rfl | h
      · exact ⟨job, List.mem_cons_self, rfl⟩
      · obtain ⟨old, hold, hdata⟩ := ih h
        exact ⟨old, List.mem_cons_of_mem _ hold, hdata⟩

end Queues

end Livora.JobQueues
