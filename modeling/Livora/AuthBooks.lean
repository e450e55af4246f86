import Livora.BackOffice

/-! What the services around the accounts throw, and how the answer of an outside call arrives. -/

namespace Livora.AuthBooks

open BackOffice (Role)
open PinVerification (Delivery)

inductive Failure where
  | unauthorized (message : String)
  | badRequest (message : String)
  | notFound (message : String)
  /-- Whatever a call outside threw. -/
  | outside
deriving DecidableEq

theorem applied_of_done {d : Delivery} (h : d = .done) : d.applied = true := by
  rw [h]
  rfl

/-- `Date.now()` plus so many minutes. -/
def minutes (n : ℕ) : ℕ := n * (60 * 1000)

def seconds (n : ℕ) : ℕ := n * 1000

end Livora.AuthBooks
