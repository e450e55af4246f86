import Livora.OrderStages

/-! Webhooks, administrators and workers against one queue and one chain, in any
order of their steps. Between the steps time passes, jobs stall or are put back,
other services enqueue their transfers, and transactions in flight are applied or
dropped. The property is that a job, or an order, moves its tokens at most once. -/

namespace Livora.OrderRaces

open TransitionRuns EffectPrograms ProgramPools ProgramPools.System JobQueues SequencedLedgers
open BackOffice OrderStages
open PinVerification (Failure Delivery)

inductive Outside where
  | tick (time : ℕ)
  | amend (users : List User) (vaults : String → Option String)
      (redemptions : String → Option (Option String))
  /-- Another service enqueues a transfer; mints are only enqueued by the payments. -/
  | enqueue (data : JobData) (attempts : ℕ)
  | stall (n : ℕ)
  | retry (n : ℕ)
  | settle (n : ℕ) (applies : Bool)
  /-- Another transaction of an account. -/
  | advance (account : Guard)

def outside (w : World) : Outside → Option World
  | .tick time => some { w with now := w.now + time }
  | .amend users vaults redemptions =>
    some { w with users := users, vaults := vaults, redemptions := redemptions }
  | .enqueue data attempts =>
    if data.mintsFor = none then some { w with queue := w.queue ++ [Job.new data attempts] }
    else none
  | .stall n => some { w with queue := w.queue.modify n Job.stall }
  | .retry n => some { w with queue := w.queue.modify n Job.retry }
  | .settle n applies => (w.ledger.settle n applies).map fun ledger => { w with ledger := ledger }
  | .advance account => some { w with ledger := w.ledger.advance account }

def system (svc : Service) : System Caller World Outcome Outside Stage Op
    (fun i => Except Failure (Reply i)) (Except Failure Unit) where
  program caller := (program svc caller).run
  serve := World.serve svc
  outside := outside
  protocol := protocol
  first := .first

abbrev Race := Pool World (Task Stage Op (fun i => Except Failure (Reply i)) (Except Failure Unit))

abbrev RaceEvent := Event Caller Outcome Outside

def quiescent (w : World) : Race := ⟨w, fun _ => none⟩

def held (st : ℕ → Option Stage) (j : ℕ) : Option (Movement × Ticket Guard) :=
  (st j).bind Stage.ticket

/-- The movements of the `n`-th job. -/
def ofJob (n : ℕ) (m : Movement) : Bool := m.job == some n

def ofOrder (order : String) (m : Movement) : Bool := m.order == some order

/-! ### What a step does to the ledger -/

variable {svc : Service} {w w' : World} {st : ℕ → Option Stage} {j : ℕ} {s : Stage} {i : Op}
  {o : Outcome} {p : Movement → Bool}

theorem held_update {t : Option Stage} :
    held (Function.update st j t) = Function.update (held st) j (t.bind Stage.ticket) := by
  funext k
  by_cases hk : k = j
  · subst hk
    simp [held]
  · simp [held, hk]

theorem update_held (h : st j = some s) : Function.update (held st) j s.ticket = held st := by
  rw [Function.update_eq_self_iff, held, h]
  rfl

theorem reply_done {α : Type} {d : Delivery} {a b : α} (h : d.reply a = .ok b) : a = b :=
  (Delivery.answer_ok h).2

theorem ledger_effect (w : World) (i : Op) : (w.effect i).ledger = w.ledger := by
  cases i <;> rfl

theorem ledger_after (h : ∀ m t, i ≠ .submit m t) : (w.after svc i o).ledger = w.ledger := by
  unfold World.after
  split
  · split <;> rfl
  · exact absurd rfl (h _ _)
  · unfold World.update
    split
    · exact ledger_effect w _
    · rfl

theorem next_ticket {r : Except Failure (Reply i)} (hsubmit : ∀ m t, i ≠ .submit m t)
    (hread : ∀ m account, i ≠ .readNumber m account) : (next s i r).ticket = s.ticket := by
  unfold next
  split
  · exact absurd rfl (hread _ _)
  · exact absurd rfl (hsubmit _ _)
  all_goals first | rfl | (split <;> rfl)

/-! ### Reading a number in time -/

/-- A number that is the next one of its account is read only while nothing of the kind has been
applied, nor can be from another account. -/
def SafeCall (p : Movement → Bool) (w : World) (st : ℕ → Option Stage) (i : Op) (o : Outcome) :
    Prop :=
  match i with
  | .readNumber m account => p m = true → o.delivery = .done →
      w.ledger.counter account - o.behind = w.ledger.counter account →
      w.ledger.Unspent p (held st) account
  | _ => True

def Safe (p : Movement → Bool) (c : Race) : RaceEvent → Prop
  | .advance j o => ∀ i, pending c j = some i → SafeCall p c.world (stages c) i o
  | _ => True

theorem readNumber_guarded {m : Movement} {account : Guard} (h : w.ledger.Guarded p (held st))
    (hj : st j = some s) (hsafe : SafeCall p w st (.readNumber m account) o) :
    (w.serve svc (.readNumber m account) o).2.ledger.Guarded p (held (Function.update st j
      (some (next s (.readNumber m account) (w.serve svc (.readNumber m account) o).1)))) := by
  change (w.after svc (.readNumber m account) o).ledger.Guarded p _
  rw [held_update, ledger_after fun m t he => by cases he]
  by_cases hdone : o.delivery = .done
  · have hreply : (w.serve svc (.readNumber m account) o).1 =
        .ok (w.ledger.counter account - o.behind) := if_pos hdone
    rw [hreply]
    exact h.hold (Nat.sub_le _ _) fun hp hfresh => hsafe hp hdone hfresh
  · have hreply : (w.serve svc (.readNumber m account) o).1 = .error .outside := if_neg hdone
    rw [hreply]
    change w.ledger.Guarded p (Function.update (held st) j s.ticket)
    rw [update_held hj]
    exact h

theorem submit_guarded {m : Movement} {t : Ticket Guard} (h : w.ledger.Guarded p (held st))
    (hj : st j = some s) (hticket : s.ticket = some (m, t)) :
    (w.serve svc (.submit m t) o).2.ledger.Guarded p (held (Function.update st j
      (some (next s (.submit m t) (w.serve svc (.submit m t) o).1)))) := by
  have hheld : held st j = some (m, t) := by rw [held, hj]; exact hticket
  have hnext : (next s (.submit m t) (w.serve svc (.submit m t) o).1).ticket = none := rfl
  rw [held_update, Option.bind_some, hnext]
  change (w.submit m t o.delivery).ledger.Guarded p _
  unfold World.submit
  split
  · exact Ledger.guarded_apply h hheld
  · exact Ledger.guarded_apply h hheld
  · exact Ledger.guarded_post h hheld
  · exact Ledger.guarded_drop h j

theorem call_guarded (h : w.ledger.Guarded p (held st)) (hj : st j = some s)
    (hallowed : Allowed s i) (hsafe : SafeCall p w st i o) :
    (w.serve svc i o).2.ledger.Guarded p
      (held (Function.update st j (some (next s i (w.serve svc i o).1)))) := by
  by_cases hsubmit : ∃ m t, i = .submit m t
  · obtain ⟨m, t, rfl⟩ := hsubmit
    exact submit_guarded h hj hallowed
  by_cases hread : ∃ m account, i = .readNumber m account
  · obtain ⟨m, account, rfl⟩ := hread
    exact readNumber_guarded h hj hsafe
  have hsubmit' : ∀ m t, i ≠ .submit m t := fun m t he => hsubmit ⟨m, t, he⟩
  change (w.after svc i o).ledger.Guarded p _
  rw [held_update, ledger_after hsubmit', Option.bind_some,
    next_ticket hsubmit' fun m account he => hread ⟨m, account, he⟩, update_held hj]
  exact h

theorem outside_guarded {d : Outside} {held : ℕ → Option (Movement × Ticket Guard)}
    (h : w.ledger.Guarded p held) (hw : outside w d = some w') : w'.ledger.Guarded p held := by
  cases d with
  | settle n applies =>
    obtain ⟨ledger, hledger, rfl⟩ := Option.map_eq_some_iff.mp hw
    exact Ledger.guarded_settle h hledger
  | advance account =>
    cases hw
    exact h.advance account
  | enqueue data attempts =>
    simp only [outside] at hw
    split at hw
    · cases hw
      exact h
    · cases hw
  | _ =>
    cases hw
    exact h

theorem applied_le_one {es : List RaceEvent} {c : Race}
    (hfresh : ∀ s ∈ w.ledger.submissions, p s.movement = false)
    (hsafe : Along (system svc).step (Safe p) (quiescent w) es)
    (hrun : run (system svc).step (quiescent w) es = some c) : c.world.ledger.applied p ≤ 1 := by
  have hinvariant : c.world.ledger.Guarded p (held (stages c)) := by
    refine run_stages (S := system svc) (I := fun w st => w.ledger.Guarded p (held st))
      (fun caller => keeping_program svc caller) ?_ ?_ ?_ ?_ ?_ ?_ hsafe hrun
    · intro w st j h _
      rw [held_update]
      exact Ledger.guarded_drop h j
    · exact fun c j o s i h hj hi hallowed hC => call_guarded h hj hallowed (hC i hi)
    · intro c j h _
      rw [held_update]
      exact Ledger.guarded_drop h j
    · exact fun c d w h _ hw => outside_guarded h hw
    · exact fun j t ht => by cases ht
    · exact Ledger.guarded_of_absent hfresh
  exact hinvariant.single

/-! ### Races of few programs -/

/-- `Safe` as a test, where only the first `n` places are taken. -/
def safeBelow (n : ℕ) (p : Movement → Bool) (c : Race) : RaceEvent → Bool
  | .advance j o => match pending c j with
    | some (.readNumber m account) => !p m || o.delivery != .done ||
        decide (c.world.ledger.UnspentBelow n p (held (stages c)) account)
    | _ => true
  | _ => true

theorem safe_of_safeBelow {n : ℕ} {c : Race} {e : RaceEvent} (hc : Below n c)
    (h : safeBelow n p c e = true) : Safe p c e := by
  cases e with
  | advance j o =>
    intro i hi
    unfold SafeCall
    split
    · rename_i m account
      simp only [safeBelow, hi] at h
      intro hp hdone _
      rw [hp, hdone] at h
      refine Ledger.unspent_of_below (n := n) (fun j hj => ?_)
        (of_decide_eq_true (by simpa using h))
      rw [held, stages, hc j hj]
      rfl
    · trivial
  | _ => trivial

theorem along_safe {n : ℕ} {es : List RaceEvent}
    (h : Along (system svc).step (fun c e => startsBelow n e = true ∧ safeBelow n p c e = true)
      (quiescent w) es) : Along (system svc).step (Safe p) (quiescent w) es :=
  along_of_below (fun _ _ hc he => safe_of_safeBelow hc he) (fun _ _ => rfl) h

/-- The program `j` gets its next calls answered in these ways. -/
def answers (j : ℕ) (deliveries : List Delivery) : List RaceEvent :=
  deliveries.map fun d => .advance j ⟨d, some "worker", 0⟩

def sampleAnswer : KrAnswer := ⟨some ⟨some "ECO-1", none⟩, none, some "PAID", []⟩

def sampleService : Service where
  privateKey := ""
  sha256Key := ""
  hmacSha256 _ answer := answer
  hexBytes text := text.toList.map Char.toNat
  parseJson _ := none
  stringify _ := "signed"
  queue := true
  walletEncryptionKey := ""
  unlock _ _ := some "account"
  validAddress _ := true
  contractId := "contract"
  toUpperCase := String.toUpper

def sampleIpn : IzipayIpnDto := ⟨some (.object sampleAnswer), some "signed", none⟩

def samplePayment : PaymentTransaction :=
  { Payments.newPayment "user" "ECO-1" Payments.ten [] with
    amountPen := ⟨1000⟩
    tokenAmount := 10 }

def sampleWorld (queue : List (Job JobData)) : World where
  now := 0
  users := [⟨"user", "user@livora", .tienda, some "wallet"⟩]
  payments := [samplePayment]
  vaults _ := some "vault"
  redemptions _ := some none
  queue := queue
  ledger := ⟨fun _ => 0, []⟩
  received := []
  completions := []

def sampleMint : Job JobData := .new (.izipayMintTokens "user" "wallet" 10 "ECO-1") 5

/-! ### Jobs -/

/-- In every run whose steps are safe for the job, it moves its tokens at most once. -/
theorem job_moves_once {n : ℕ} {es : List RaceEvent} {c : Race}
    (hfresh : ∀ s ∈ w.ledger.submissions, s.movement.job ≠ some n)
    (hsafe : Along (system svc).step (Safe (ofJob n)) (quiescent w) es)
    (hrun : run (system svc).step (quiescent w) es = some c) :
    c.world.ledger.applied (ofJob n) ≤ 1 :=
  applied_le_one (fun s hs => beq_false_of_ne (hfresh s hs)) hsafe hrun

def twoAttempts (first : Delivery) : List RaceEvent :=
  .start 0 (.attempt 0) :: answers 0 [.done, .done, .done, first, .done] ++
    .start 1 (.attempt 0) :: answers 1 (List.replicate 6 .done)

theorem job_moves_once_retried : ∃ c,
    run (system sampleService).step (quiescent (sampleWorld [sampleMint])) (twoAttempts .refused) =
      some c ∧ c.world.ledger.applied (ofJob 0) ≤ 1 := by
  obtain ⟨c, hc⟩ := Option.isSome_iff_exists.mp (show (run (system sampleService).step
    (quiescent (sampleWorld [sampleMint])) (twoAttempts .refused)).isSome = true by decide +kernel)
  refine ⟨c, hc, job_moves_once (fun s hs => by cases hs) (along_safe (n := 2) ?_) hc⟩
  decide +kernel

/-- The mint is applied but reported as failed, and the second attempt mints again. -/
theorem lostConfirmation_moves_twice : ∃ c,
    run (system sampleService).step (quiescent (sampleWorld [sampleMint])) (twoAttempts .lost) =
      some c ∧ c.world.ledger.applied (ofJob 0) = 2 := by
  have happlied : (run (system sampleService).step (quiescent (sampleWorld [sampleMint]))
      (twoAttempts .lost)).map (fun c => c.world.ledger.applied (ofJob 0)) = some 2 := by
    decide +kernel
  exact Option.map_eq_some_iff.mp happlied

/-! ### Orders -/

/-- In every run whose steps are safe for the order, it is minted at most once. -/
theorem order_minted_once {order : String} {es : List RaceEvent} {c : Race}
    (hfresh : ∀ s ∈ w.ledger.submissions, s.movement.order ≠ some order)
    (hsafe : Along (system svc).step (Safe (ofOrder order)) (quiescent w) es)
    (hrun : run (system svc).step (quiescent w) es = some c) :
    c.world.ledger.applied (ofOrder order) ≤ 1 :=
  applied_le_one (fun s hs => beq_false_of_ne (hfresh s hs)) hsafe hrun

def notifiedOnce : List RaceEvent :=
  .start 0 (.processIzipayIpn sampleIpn) :: answers 0 (List.replicate 5 .done) ++
    .start 1 (.attempt 0) :: answers 1 (List.replicate 6 .done)

theorem order_minted_once_notified : ∃ c,
    run (system sampleService).step (quiescent (sampleWorld [])) notifiedOnce = some c ∧
      c.world.ledger.applied (ofOrder "ECO-1") ≤ 1 := by
  obtain ⟨c, hc⟩ := Option.isSome_iff_exists.mp (show (run (system sampleService).step
    (quiescent (sampleWorld [])) notifiedOnce).isSome = true by decide +kernel)
  refine ⟨c, hc, order_minted_once (fun s hs => by cases hs) (along_safe (n := 2) ?_) hc⟩
  decide +kernel

def notifiedTwice : List RaceEvent :=
  .start 0 (.processIzipayIpn sampleIpn) :: answers 0 [.done, .done] ++
    .start 1 (.processIzipayIpn sampleIpn) :: answers 1 (List.replicate 5 .done) ++
    answers 0 (List.replicate 3 .done) ++
    .start 2 (.attempt 0) :: answers 2 (List.replicate 6 .done) ++
    .start 3 (.attempt 1) :: answers 3 (List.replicate 6 .done)

theorem notifiedTwice_mints_twice : ∃ c,
    run (system sampleService).step (quiescent (sampleWorld [])) notifiedTwice = some c ∧
      c.world.ledger.applied (ofOrder "ECO-1") = 2 := by
  have happlied : (run (system sampleService).step (quiescent (sampleWorld []))
      notifiedTwice).map (fun c => c.world.ledger.applied (ofOrder "ECO-1")) = some 2 := by
    decide +kernel
  exact Option.map_eq_some_iff.mp happlied

end Livora.OrderRaces
