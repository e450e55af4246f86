import Mathlib.Data.Option.Basic
import Mathlib.Tactic.Common

/-! The loops of `BlockchainService` that wait for a submitted transaction: the status is asked for
again every two seconds, until it is final or half a minute is over. The loop is written three
times, and one of them does not go on after a `NOT_FOUND`. -/

namespace Livora.ConfirmationLoops

inductive Status where
  | pending
  | notFound
  | success
  | failed
  | duplicate
  | tryAgainLater
  | error
deriving DecidableEq

def Status.name : Status → String
  | .pending => "PENDING"
  | .notFound => "NOT_FOUND"
  | .success => "SUCCESS"
  | .failed => "FAILED"
  | .duplicate => "DUPLICATE"
  | .tryAgainLater => "TRY_AGAIN_LATER"
  | .error => "ERROR"

/-- An answer of the RPC; `json` is its text. -/
structure Answer where
  status : Status
  ledger : Option ℕ
  json : String
deriving DecidableEq

structure SendResponse where
  hash : String
  answer : Answer
  /-- The text of `errorResult`, if the answer has one. -/
  errorResult : Option String
deriving DecidableEq

/-- A poll: the milliseconds since the loop began, when its condition is looked at, and the
answer. -/
structure Poll where
  elapsed : ℕ
  answer : Answer
deriving DecidableEq

structure Receipt where
  hash : String
  status : ℕ
  ledger : Option ℕ
deriving DecidableEq

def timeout : ℕ := 30000

structure Stop where
  getTxResponse : Answer
  polls : ℕ
deriving DecidableEq

def Stop.later (r : Stop) : Stop := { r with polls := r.polls + 1 }

def goesOn (again : Status → Bool) (getTxResponse : Answer) (elapsed : ℕ) : Bool :=
  again getTxResponse.status && decide (elapsed < timeout)

/-- Where the loop stops; `none` when it asks for a poll after the last. -/
def poll (again : Status → Bool) : Answer → List Poll → Option Stop
  | getTxResponse, [] => if again getTxResponse.status then none else some ⟨getTxResponse, 0⟩
  | getTxResponse, p :: polls =>
    if goesOn again getTxResponse p.elapsed then (poll again p.answer polls).map Stop.later
    else some ⟨getTxResponse, 0⟩

def untilFound (s : Status) : Bool := s == .pending || s == .notFound

def whilePending (s : Status) : Bool := s == .pending

structure Outcome where
  result : Except String Receipt
  polls : ℕ

def result (failure : Status → Answer → String) (hash : String) (getTxResponse : Answer) :
    Except String Receipt :=
  if getTxResponse.status = .success then .ok ⟨hash, 1, getTxResponse.ledger⟩
  else .error (failure getTxResponse.status getTxResponse)

def conclude (failure : Status → Answer → String) (hash : String) (r : Stop) : Outcome :=
  ⟨result failure hash r.getTxResponse, r.polls⟩

def confirm (again : Status → Bool) (refusal : String) (failure : Status → Answer → String)
    (response : SendResponse) (polls : List Poll) : Option Outcome :=
  if response.answer.status = .error then
    some ⟨.error (refusal ++ response.errorResult.getD response.answer.json), 0⟩
  else (poll again response.answer polls).map (conclude failure response.hash)

def failedOrExpired (txStatus : Status) (getTxResponse : Answer) : String :=
  "La transacción falló o expiró con estado: " ++ txStatus.name ++ ". Respuesta: " ++
    getTxResponse.json

def failedWithStatus (txStatus : Status) (getTxResponse : Answer) : String :=
  "Transaction failed with status " ++ txStatus.name ++ ": " ++ getTxResponse.json

/-- The wait of `sendTransaction`. -/
def sendTransaction : SendResponse → List Poll → Option Outcome :=
  confirm untilFound "Fallo al enviar la transacción: " failedOrExpired

def executeSubsidizedTransfer : SendResponse → List Poll → Option Outcome :=
  confirm untilFound "Transaction submission error: " failedOrExpired

def executeFeeBumpTransaction : SendResponse → List Poll → Option Outcome :=
  confirm whilePending "Transaction submission error: " failedWithStatus

/-! ### What the loops have in common -/

def Outcome.verdict (o : Outcome) : Option Receipt × ℕ := (o.result.toOption, o.polls)

def verdict (o : Option Outcome) : Option (Option Receipt × ℕ) := o.map Outcome.verdict

def Stop.verdict (hash : String) (r : Stop) : Option Receipt × ℕ :=
  (if r.getTxResponse.status = .success then some ⟨hash, 1, r.getTxResponse.ledger⟩ else none,
    r.polls)

variable {again : Status → Bool} {refusal : String} {failure : Status → Answer → String}
variable {response : SendResponse} {answer : Answer} {polls : List Poll}

theorem verdict_conclude (hash : String) (r : Stop) :
    (conclude failure hash r).verdict = r.verdict hash := by
  unfold conclude result Outcome.verdict Stop.verdict
  split <;> rfl

theorem verdict_confirm : verdict (confirm again refusal failure response polls) =
    if response.answer.status = .error then some (none, 0)
    else (poll again response.answer polls).map (Stop.verdict response.hash) := by
  unfold confirm verdict
  split
  · rfl
  · rw [Option.map_map]
    congr 1
    funext r
    exact verdict_conclude response.hash r

theorem subsidized_verdict (response : SendResponse) (polls : List Poll) :
    verdict (executeSubsidizedTransfer response polls) =
      verdict (sendTransaction response polls) := by
  rw [executeSubsidizedTransfer, sendTransaction, verdict_confirm, verdict_confirm]

/-- A `NOT_FOUND` comes first of all statuses but `PENDING`, and in time. -/
def NotFoundFirst : Answer → List Poll → Prop
  | answer, [] => answer.status = .notFound
  | answer, p :: polls =>
    p.elapsed < timeout ∧
      (answer.status = .notFound ∨ answer.status = .pending ∧ NotFoundFirst p.answer polls)

theorem map_later (hash : String) (o : Option Stop) :
    (o.map Stop.later).map (Stop.verdict hash) =
      (o.map (Stop.verdict hash)).map fun v => (v.1, v.2 + 1) := by
  cases o <;> rfl

theorem later_injective : Function.Injective fun v : Option Receipt × ℕ => (v.1, v.2 + 1) := by
  rintro ⟨o, n⟩ ⟨o', n'⟩ h
  simpa using h

theorem poll_agree_iff (hash : String) (answer : Answer) (polls : List Poll) :
    (poll whilePending answer polls).map (Stop.verdict hash) =
        (poll untilFound answer polls).map (Stop.verdict hash) ↔
      ¬ NotFoundFirst answer polls := by
  induction polls generalizing answer with
  | nil =>
    cases hs : answer.status <;>
      simp [poll, NotFoundFirst, whilePending, untilFound, hs]
  | cons p polls ih =>
    by_cases ht : p.elapsed < timeout
    · cases hs : answer.status with
      | pending =>
        simp only [poll, goesOn, whilePending, untilFound, hs, ht, NotFoundFirst]
        simp only [beq_self_eq_true, Bool.true_or, decide_true, Bool.and_self, if_true, map_later,
          reduceCtorEq, false_or, true_and]
        rw [(Option.map_injective later_injective).eq_iff]
        exact ih p.answer
      | notFound =>
        -- one loop has stopped, and the other has at least one poll to make
        refine iff_of_false (fun h => ?_) fun h => h ⟨ht, Or.inl hs⟩
        have hstopped : poll whilePending answer (p :: polls) = some ⟨answer, 0⟩ := by
          simp [poll, goesOn, whilePending, hs]
        have hgoes : poll untilFound answer (p :: polls) =
            (poll untilFound p.answer polls).map Stop.later := by
          simp [poll, goesOn, untilFound, hs, ht]
        rw [hstopped, hgoes, map_later] at h
        obtain ⟨v, -, hv⟩ := Option.map_eq_some_iff.mp h.symm
        exact absurd (congrArg Prod.snd hv) (Nat.succ_ne_zero v.2)
      | success | failed | duplicate | tryAgainLater | error =>
        simp [poll, goesOn, whilePending, untilFound, hs, NotFoundFirst]
    · simp [poll, goesOn, ht, NotFoundFirst]

theorem poll_stops {n : ℕ} (h : ∀ k p, polls[k]? = some p → 2000 * (n + k) ≤ p.elapsed)
    (hn : n ≤ 15) (hlen : 15 < n + polls.length) :
    ∃ r, poll again answer polls = some r ∧ n + r.polls ≤ 15 := by
  induction polls generalizing n answer with
  | nil => simp at hlen; omega
  | cons p polls ih =>
    by_cases hon : goesOn again answer p.elapsed = true
    · have helapsed : 2000 * n ≤ p.elapsed := h 0 p rfl
      have hlt : p.elapsed < timeout := by
        simp only [goesOn, Bool.and_eq_true, decide_eq_true_eq] at hon
        exact hon.2
      have hn' : n + 1 ≤ 15 := by
        unfold timeout at hlt
        omega
      have hrest : ∀ k q, polls[k]? = some q → 2000 * (n + 1 + k) ≤ q.elapsed := by
        intro k q hq
        have := h (k + 1) q hq
        omega
      have hlen' : 15 < n + 1 + polls.length := by
        rw [List.length_cons] at hlen
        omega
      obtain ⟨r, hr, hle⟩ : ∃ r, poll again p.answer polls = some r ∧ n + 1 + r.polls ≤ 15 :=
        ih hrest hn' hlen'
      refine ⟨r.later, ?_, ?_⟩
      · rw [poll, if_pos hon, hr]
        rfl
      · simp only [Stop.later]
        omega
    · exact ⟨⟨answer, 0⟩, by rw [poll, if_neg hon], hn⟩

/-- The three loops give the same verdict after the same poll exactly when the submission fails, or
no `NOT_FOUND` comes first. -/
theorem confirmations_agree_iff (response : SendResponse) (polls : List Poll) :
    (verdict (executeSubsidizedTransfer response polls) = verdict (sendTransaction response polls) ∧
      verdict (executeFeeBumpTransaction response polls) =
        verdict (sendTransaction response polls)) ↔
      response.answer.status = .error ∨ ¬ NotFoundFirst response.answer polls := by
  rw [and_iff_right (subsidized_verdict response polls), executeFeeBumpTransaction, sendTransaction,
    verdict_confirm, verdict_confirm]
  by_cases h : response.answer.status = .error
  · simp [h]
  · rw [if_neg h, if_neg h, poll_agree_iff, or_iff_right h]

/-- A transaction that is not found at first, and succeeds. -/
theorem lateFound_disagrees :
    let response : SendResponse := ⟨"hash", ⟨.pending, none, "pending"⟩, none⟩
    let polls : List Poll :=
      [⟨0, ⟨.notFound, none, "not found"⟩⟩, ⟨2000, ⟨.success, some 7, "success"⟩⟩]
    verdict (sendTransaction response polls) = some (some ⟨"hash", 1, some 7⟩, 2) ∧
      verdict (executeFeeBumpTransaction response polls) = some (none, 1) := by
  decide

end Livora.ConfirmationLoops
