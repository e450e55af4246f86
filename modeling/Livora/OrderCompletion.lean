import Livora.OrderRaces

/-! When an order is COMPLETED. Along a run it should be only after a notification
reported it paid with the amount of the order, and for good; the same holds of
the jobs and the mints for it. Both fail by what the webhook does not check: the
amount of the notification, and the status at the time it writes. -/

namespace Livora.OrderCompletion

open DoubleRounding TransitionRuns EffectPrograms ProgramPools ProgramPools.System JobQueues
open SequencedLedgers BackOffice OrderStages OrderRaces
open PinVerification (Failure Delivery)

/-- A notification reported the order paid, with the amount of the order. -/
def PaidInFull (order : String) (w : World) : Prop :=
  ∃ v ∈ w.received, v.orderId = order ∧ v.isPaid = true ∧ w.hasPayment order = true ∧
    ∀ row ∈ w.payments, row.purchaseNumber = order → v.amountPen = some row.amountPen.number

def Completed (order : String) (w : World) : Prop :=
  ∃ row ∈ w.payments, row.purchaseNumber = order ∧ row.status = .completed

/-- The tokens of the order are to be minted by a job, or have been sent to the chain. -/
def Accredited (order : String) (w : World) : Prop :=
  (∃ job ∈ w.queue, job.data.mintsFor = some order) ∨
    ∃ s ∈ w.ledger.submissions, s.movement.order = some order

/-- A program that takes the order for paid. -/
def Trusts (order : String) (s : Stage) : Prop :=
  s.entitled = some order ∨ ∃ m t, s.ticket = some (m, t) ∧ m.order = some order

instance (order : String) (w : World) : Decidable (PaidInFull order w) :=
  inferInstanceAs (Decidable (∃ v ∈ w.received, _))

instance (order : String) (w : World) : Decidable (Completed order w) :=
  inferInstanceAs (Decidable (∃ row ∈ w.payments, _))

instance (order : String) (w : World) : Decidable (Accredited order w) :=
  inferInstanceAs (Decidable ((∃ job ∈ w.queue, _) ∨ ∃ s ∈ w.ledger.submissions, _))

/-- Everything that depends on the payment of the order is backed by a notification. -/
structure Backed (order : String) (w : World) (st : ℕ → Option Stage) : Prop where
  notified : ∀ j s v, st j = some s → s.notification = some v → v ∈ w.received
  trusted : ∀ j s, st j = some s → Trusts order s → PaidInFull order w
  completed : Completed order w → PaidInFull order w
  accredited : Accredited order w → PaidInFull order w

variable {order : String} {svc : Service} {w w' : World} {st : ℕ → Option Stage} {j : ℕ}
  {s : Stage} {i : Op} {o : Outcome}

/-! ### What a step does to the rows -/

theorem hasPayment_iff {purchaseNumber : String} :
    w.hasPayment purchaseNumber = true ↔ ∃ row ∈ w.payments,
      row.purchaseNumber = purchaseNumber := by
  simp [World.hasPayment]

theorem Backed.replace (h : Backed order w st) {t : Option Stage}
    (ht : ∀ s, t = some s → (∀ v, s.notification = some v → v ∈ w.received) ∧
      (Trusts order s → PaidInFull order w)) :
    Backed order w (Function.update st j t) := by
  constructor
  · intro k s v hk hv
    by_cases hkj : k = j
    · subst hkj
      rw [Function.update_self] at hk
      exact (ht s hk).1 v hv
    · rw [Function.update_of_ne hkj] at hk
      exact h.notified k s v hk hv
  · intro k s hk htrusts
    by_cases hkj : k = j
    · subst hkj
      rw [Function.update_self] at hk
      exact (ht s hk).2 htrusts
    · rw [Function.update_of_ne hkj] at hk
      exact h.trusted k s hk htrusts
  · exact h.completed
  · exact h.accredited

/-- Nothing has been paid, enqueued or minted for the order. -/
structure Fresh (order : String) (w : World) : Prop where
  completed : ¬ Completed order w
  accredited : ¬ Accredited order w

/-- A notification of the order of ten soles, with an amount in cents. -/
def notification (orderStatus : String) (cents : Double) : IzipayIpnDto :=
  ⟨some (.object ⟨some ⟨some "ECO-1", some cents⟩, none, some orderStatus, []⟩), some "signed",
    none⟩

/-- The program `j` handles a notification, all its calls answered. -/
def notify (j : ℕ) (orderStatus : String) (cents : Double) (calls : ℕ) : List RaceEvent :=
  .start j (.processIzipayIpn (notification orderStatus cents)) ::
    answers j (List.replicate calls .done)

end Livora.OrderCompletion
