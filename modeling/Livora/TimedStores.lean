import Mathlib.Logic.Function.Basic
import Mathlib.Tactic.Common

/-! A store whose entries expire, kept by events of which some are answered and some are lost. What
is found under a key was written there within its time, and nothing that was answered has cleared it
since. -/

namespace Livora.TimedStores

structure Entry (α : Type*) where
  value : α
  expiresAt : ℕ

abbrev Store (κ : Type*) (V : κ → Type*) := (k : κ) → Option (Entry (V k))

variable {κ : Type*} {V : κ → Type*} {ε : Type*} {s s' : Store κ V} {now now' : ℕ} {k : κ} {v : V k}

def Store.empty : Store κ V := fun _ => none

def Store.get (s : Store κ V) (now : ℕ) (k : κ) : Option (V k) :=
  ((s k).filter fun e => now < e.expiresAt).map Entry.value

def Store.left (s : Store κ V) (now : ℕ) (k : κ) : Option ℕ :=
  ((s k).filter fun e => now < e.expiresAt).map fun e => e.expiresAt - now

theorem Store.get_eq_some : s.get now k = some v ↔ ∃ e, s k = some e ∧ now < e.expiresAt ∧
    e.value = v := by
  simp [Store.get, Option.filter_eq_some_iff, and_assoc]

theorem Store.left_eq_some {n : ℕ} :
    s.left now k = some n ↔ ∃ e, s k = some e ∧ now < e.expiresAt ∧ e.expiresAt - now = n := by
  simp [Store.left, Option.filter_eq_some_iff, and_assoc]

/-- When an event happens, what it writes under a key and for how long, and what it is known to
clear. -/
structure Ledger (ε κ : Type*) (V : κ → Type*) where
  time : ε → ℕ
  Writes : ε → (k : κ) → V k → ℕ → Prop
  Clears : ε → κ → Prop

variable {a : Ledger ε κ V} {h : List ε} {m : ε}

/-- The value was written under the key at a time, for so long, and has not been cleared since. -/
def Ledger.Written (a : Ledger ε κ V) (h : List ε) (k : κ) (v : V k) (time ttl : ℕ) : Prop :=
  ∃ p m q, h = p ++ m :: q ∧ a.Writes m k v ttl ∧ a.time m = time ∧ ∀ m' ∈ q, ¬ a.Clears m' k

def Ledger.Standing (a : Ledger ε κ V) (h : List ε) (now : ℕ) (k : κ) (v : V k) : Prop :=
  ∃ time ttl, a.Written h k v time ttl ∧ time ≤ now ∧ now < time + ttl

/-- What the store holds was written, and has not been cleared. -/
def Ledger.Sound (a : Ledger ε κ V) (h : List ε) (s : Store κ V) (now : ℕ) : Prop :=
  ∀ k e, s k = some e → ∃ time ttl, a.Written h k e.value time ttl ∧ time ≤ now ∧
    e.expiresAt = time + ttl

theorem Ledger.Written.append {time ttl : ℕ} (hw : a.Written h k v time ttl) (hm : ¬ a.Clears m k) :
    a.Written (h ++ [m]) k v time ttl := by
  obtain ⟨p, m', q, rfl, hwrites, htime, hq⟩ := hw
  refine ⟨p, m',
    q ++ [m], by rw [List.append_assoc, List.cons_append], hwrites, htime, fun x hx => ?_⟩
  rcases List.mem_append.mp hx with hx | hlast
  · exact hq x hx
  · rw [List.mem_singleton.mp hlast]
    exact hm

theorem Ledger.Written.last {ttl : ℕ} (hwrites : a.Writes m k v ttl) :
    a.Written (h ++ [m]) k v (a.time m) ttl :=
  ⟨h, m, [], rfl, hwrites, rfl, fun _ hx => by cases hx⟩

namespace Ledger.Sound

theorem empty : a.Sound h Store.empty now := fun _ _ he => by cases he

theorem standing (hs : a.Sound h s now) (hget : s.get now k = some v) : a.Standing h now k v := by
  obtain ⟨e, he, hnow, rfl⟩ := Store.get_eq_some.mp hget
  obtain ⟨time, ttl, hwritten, hbefore, hexpires⟩ := hs k e he
  exact ⟨time, ttl, hwritten, hbefore, hexpires ▸ hnow⟩

/-- After one more event, what is found was there before and is not cleared by it, or is what it
writes. -/
theorem step (hs : a.Sound h s now) (htime : a.time m = now) (hm : ∀ k e, s' k = some e →
      (s k = some e ∧ ¬ a.Clears m k) ∨ ∃ ttl, a.Writes m k e.value ttl ∧ e.expiresAt = now + ttl) :
    a.Sound (h ++ [m]) s' now := by
  intro k e he
  rcases hm k e he with ⟨hold, hkept⟩ | ⟨ttl, hwrites, hexpires⟩
  · obtain ⟨time, ttl, hwritten, hrest⟩ := hs k e hold
    exact ⟨time, ttl, hwritten.append hkept, hrest⟩
  · exact ⟨now, ttl, htime ▸ Written.last hwrites, Nat.le_refl _, hexpires⟩

theorem wane (hs : a.Sound h s now) (hnow : now ≤ now')
    (hsub : ∀ k e, s' k = some e → s k = some e) :
    a.Sound h s' now' := by
  intro k e he
  obtain ⟨time, ttl, hwritten, hbefore, hexpires⟩ := hs k e (hsub k e he)
  exact ⟨time, ttl, hwritten, Nat.le_trans hbefore hnow, hexpires⟩

end Ledger.Sound

end Livora.TimedStores
