import Mathlib.Data.Option.Basic
import Mathlib.Logic.Function.Basic
import Mathlib.Tactic.Common

/-! Jobs that are promised before they are enqueued. Whoever makes a key due owes it its
job; the job is enqueued in a step of its own, and whoever owes it may be cut off in
between. A key gets one job at most where nobody makes it due again, and has got it, or
has somebody who owes it, where nobody is cut off. -/

namespace Livora.PromisedJobs

variable {κ : Type*}

/-- No key has more than one job, and none that still owes one has got it. -/
structure Orderly (due : κ → Prop) (jobs : κ → ℕ) (owes : ℕ → Option κ) : Prop where
  single : ∀ k, jobs k ≤ 1
  done : ∀ k, jobs k ≠ 0 → due k
  promised : ∀ j k, owes j = some k → due k
  unmet : ∀ j k, owes j = some k → jobs k = 0
  alone : ∀ i j k, owes i = some k → owes j = some k → i = j

/-- Every key that is due has its job, or somebody who owes it. -/
def Met (due : κ → Prop) (jobs : κ → ℕ) (owes : ℕ → Option κ) : Prop :=
  ∀ k, due k → jobs k ≠ 0 ∨ ∃ j, owes j = some k

variable {due due' : κ → Prop} {jobs jobs' : κ → ℕ} {owes : ℕ → Option κ} {j : ℕ} {k : κ}

theorem owes_of_release {i : ℕ} (h : Function.update owes j none i = some k) :
    i ≠ j ∧ owes i = some k := by
  by_cases hij : i = j
  · subst hij
    rw [Function.update_self] at h
    cases h
  · rw [Function.update_of_ne hij] at h
    exact ⟨hij, h⟩

namespace Orderly

theorem mono (h : Orderly due jobs owes) (hdue : ∀ k, due k → due' k)
    (hjobs : ∀ k, jobs' k = jobs k) : Orderly due' jobs' owes where
  single k := by rw [hjobs]; exact h.single k
  done k hk := hdue k (h.done k (by rwa [hjobs] at hk))
  promised j k hj := hdue k (h.promised j k hj)
  unmet j k hj := by rw [hjobs]; exact h.unmet j k hj
  alone := h.alone

theorem release (h : Orderly due jobs owes) (j : ℕ) :
    Orderly due jobs (Function.update owes j none) where
  single := h.single
  done := h.done
  promised i k hi := h.promised i k (owes_of_release hi).2
  unmet i k hi := h.unmet i k (owes_of_release hi).2
  alone i i' k hi hi' := h.alone i i' k (owes_of_release hi).2 (owes_of_release hi').2

theorem incur (h : Orderly due jobs owes) (hnew : ¬ due k) (hdue : ∀ x, due x → due' x)
    (hk : due' k) (j : ℕ) : Orderly due' jobs (Function.update owes j (some k)) := by
  have hold {i : ℕ} {x : κ} (hi : Function.update owes j (some k) i = some x) :
      i = j ∧ x = k ∨ i ≠ j ∧ owes i = some x ∧ x ≠ k := by
    by_cases hij : i = j
    · subst hij
      rw [Function.update_self] at hi
      exact .inl ⟨rfl, (Option.some.inj hi).symm⟩
    · rw [Function.update_of_ne hij] at hi
      exact .inr ⟨hij, hi, fun hx => hnew (hx ▸ h.promised i x hi)⟩
  constructor
  · exact h.single
  · exact fun x hx => hdue x (h.done x hx)
  · intro i x hi
    rcases hold hi with ⟨-, rfl⟩ | ⟨-, hx, -⟩
    · exact hk
    · exact hdue x (h.promised i x hx)
  · intro i x hi
    rcases hold hi with ⟨-, rfl⟩ | ⟨-, hx, -⟩
    · by_contra hjob
      exact hnew (h.done x hjob)
    · exact h.unmet i x hx
  · intro i i' x hi hi'
    rcases hold hi with ⟨rfl, rfl⟩ | ⟨-, hx, hne⟩
      <;> rcases hold hi' with ⟨rfl, he⟩ | ⟨-, hx', hne'⟩
    · rfl
    · exact absurd rfl hne'
    · exact absurd he hne
    · exact h.alone i i' x hx hx'

theorem enqueue [DecidableEq κ] (h : Orderly due jobs owes) (hj : owes j = some k)
    (hjobs : ∀ x, jobs' x = jobs x + if x = k then 1 else 0) :
    Orderly due jobs' (Function.update owes j none) := by
  have hunmet := h.unmet j k hj
  constructor
  · intro x
    rw [hjobs]
    split
    · rename_i hx
      subst hx
      omega
    · exact h.single x
  · intro x hx
    by_cases hxk : x = k
    · rw [hxk]
      exact h.promised j k hj
    · rw [hjobs, if_neg hxk, Nat.add_zero] at hx
      exact h.done x hx
  · exact fun i x hi => h.promised i x (owes_of_release hi).2
  · intro i x hi
    obtain ⟨hne, hi⟩ := owes_of_release hi
    have hx : x ≠ k := fun hx => hne (h.alone i j x hi (hx ▸ hj))
    rw [hjobs, if_neg hx, Nat.add_zero]
    exact h.unmet i x hi
  · exact fun i i' x hi hi' => h.alone i i' x (owes_of_release hi).2 (owes_of_release hi').2

end Orderly

namespace Met

theorem mono (h : Met due jobs owes) (hdue : ∀ k, due' k → due k)
    (hjobs : ∀ k, jobs' k = jobs k) : Met due' jobs' owes := by
  intro k hk
  rw [hjobs]
  exact h k (hdue k hk)

theorem release (h : Met due jobs owes) (hj : owes j = none) :
    Met due jobs (Function.update owes j none) := by
  rwa [← hj, Function.update_eq_self]

theorem incur (h : Met due jobs owes) (hj : owes j = none) (hdue : ∀ x, due' x → due x ∨ x = k) :
    Met due' jobs (Function.update owes j (some k)) := by
  intro x hx
  rcases hdue x hx with hold | rfl
  · refine (h x hold).imp_right ?_
    rintro ⟨i, hi⟩
    refine ⟨i, ?_⟩
    rw [Function.update_of_ne]
    · exact hi
    · rintro rfl
      rw [hj] at hi
      cases hi
  · exact .inr ⟨j, Function.update_self ..⟩

theorem enqueue [DecidableEq κ] (h : Met due jobs owes) (hj : owes j = some k)
    (hjobs : ∀ x, jobs' x = jobs x + if x = k then 1 else 0) :
    Met due jobs' (Function.update owes j none) := by
  intro x hx
  rw [hjobs]
  by_cases hxk : x = k
  · rw [if_pos hxk]
    exact .inl (by omega)
  · rw [if_neg hxk, Nat.add_zero]
    refine (h x hx).imp_right ?_
    rintro ⟨i, hi⟩
    refine ⟨i, ?_⟩
    rw [Function.update_of_ne]
    · exact hi
    · rintro rfl
      exact hxk (Option.some.inj (hi.symm.trans hj))

end Met

end Livora.PromisedJobs
