import Mathlib.Logic.Basic
import Mathlib.Tactic.Common

/-! Stateful computations that may trap. A computation is read through the
relation `Returns`, which has one rewriting rule per constructor of the monad,
so the specification of a whole function is obtained by simplification.
`commit` is the transactional reading: a trap discards every write. -/

namespace Livora.TrappingState

variable {ε σ α β : Type}

abbrev Trapping (ε σ α : Type) := StateT σ (Except ε) α

/-- Started in `s`, the computation terminates normally with result `a` in state `s'`. -/
def Returns (m : Trapping ε σ α) (s : σ) (a : α) (s' : σ) : Prop :=
  m.run s = .ok (a, s')

/-- Stop with `e` when the condition holds. -/
def trapIf (c : Prop) [Decidable c] (e : ε) : Trapping ε σ Unit :=
  if c then throw e else pure ()

def orTrap (e : ε) : Option α → Trapping ε σ α
  | some a => pure a
  | none => throw e

@[simp] theorem returns_pure {a b : α} {s s' : σ} :
    Returns (pure a : Trapping ε σ α) s b s' ↔ a = b ∧ s = s' := by
  simp only [Returns, StateT.run_pure]
  simp [pure, Except.pure]

@[simp] theorem returns_throw {e : ε} {a : α} {s s' : σ} :
    Returns (throw e : Trapping ε σ α) s a s' ↔ False := by
  simp [Returns, throw, throwThe, MonadExceptOf.throw]

@[simp] theorem returns_bind {m : Trapping ε σ α} {f : α → Trapping ε σ β} {s s' : σ} {b : β} :
    Returns (m >>= f) s b s' ↔ ∃ a t, Returns m s a t ∧ Returns (f a) t b s' := by
  simp only [Returns, StateT.run_bind]
  cases m.run s with
  | error e => simp [bind, Except.bind]
  | ok r =>
    obtain ⟨a, t⟩ := r
    simp only [bind, Except.bind, Except.ok.injEq, Prod.mk.injEq]
    constructor
    · exact fun h => ⟨a, t, ⟨rfl, rfl⟩, h⟩
    · rintro ⟨_, _, ⟨rfl, rfl⟩, h⟩
      exact h

@[simp] theorem returns_map {m : Trapping ε σ α} {f : α → β} {s s' : σ} {b : β} :
    Returns (f <$> m) s b s' ↔ ∃ a, Returns m s a s' ∧ f a = b := by
  rw [map_eq_pure_bind, returns_bind]
  constructor
  · rintro ⟨a, t, ha, hp⟩
    obtain ⟨rfl, rfl⟩ := returns_pure.mp hp
    exact ⟨a, ha, rfl⟩
  · rintro ⟨a, ha, rfl⟩
    exact ⟨a, s', ha, returns_pure.mpr ⟨rfl, rfl⟩⟩

@[simp] theorem returns_get {s s' t : σ} :
    Returns (get : Trapping ε σ σ) s t s' ↔ t = s ∧ s = s' := by
  simp [Returns, get, getThe, MonadStateOf.get, StateT.get, StateT.run, pure, Except.pure, eq_comm]

@[simp] theorem returns_modify {f : σ → σ} {s s' : σ} {u : Unit} :
    Returns (modify f : Trapping ε σ Unit) s u s' ↔ s' = f s := by
  simp [Returns, modify, modifyGet, MonadStateOf.modifyGet, StateT.modifyGet, StateT.run, pure,
    Except.pure, eq_comm]

@[simp] theorem returns_trapIf {c : Prop} [Decidable c] {e : ε} {s s' : σ} {u : Unit} :
    Returns (trapIf c e : Trapping ε σ Unit) s u s' ↔ ¬ c ∧ s = s' := by
  unfold trapIf
  split <;> simp_all

@[simp] theorem returns_orTrap {e : ε} {o : Option α} {a : α} {s s' : σ} :
    Returns (orTrap e o : Trapping ε σ α) s a s' ↔ o = some a ∧ s = s' := by
  cases o <;> simp [orTrap]

theorem returns_ite {c : Prop} [Decidable c] {m n : Trapping ε σ α} {s s' : σ} {a : α} :
    Returns (if c then m else n) s a s' ↔ (c ∧ Returns m s a s') ∨ (¬ c ∧ Returns n s a s') := by
  split <;> simp_all

/-- Run as a transaction: the state is kept when the computation traps. -/
def commit (m : Trapping ε σ α) (s : σ) : σ :=
  match m.run s with
  | .ok (_, s') => s'
  | .error _ => s

theorem commit_of_returns {m : Trapping ε σ α} {s s' : σ} {a : α} (h : Returns m s a s') :
    commit m s = s' := by
  have hrun : m.run s = .ok (a, s') := h
  simp only [commit, hrun]

theorem commit_of_trap {m : Trapping ε σ α} {s : σ} (h : ∀ a s', ¬ Returns m s a s') :
    commit m s = s := by
  unfold commit
  split
  · rename_i a s' hrun
    exact absurd hrun (h a s')
  · rfl

/-- A transaction either keeps the state or ends in a state the computation returns. -/
theorem commit_cases (m : Trapping ε σ α) (s : σ) :
    (∃ a, Returns m s a (commit m s)) ∨ (commit m s = s ∧ ∀ a s', ¬ Returns m s a s') := by
  by_cases h : ∃ a s', Returns m s a s'
  · obtain ⟨a, s', h⟩ := h
    exact Or.inl ⟨a, by rwa [commit_of_returns h]⟩
  · push Not at h
    exact Or.inr ⟨commit_of_trap h, h⟩

/-! ### Traps -/

/-- Started in `s`, the computation traps with `e`. -/
def Traps (m : Trapping ε σ α) (s : σ) (e : ε) : Prop := m.run s = .error e

variable {s : σ} {e : ε}

@[simp] theorem traps_pure {a : α} : Traps (pure a : Trapping ε σ α) s e ↔ False := by
  refine iff_of_false (fun h => ?_) id
  cases h

@[simp] theorem traps_get : Traps (get : Trapping ε σ σ) s e ↔ False := by
  refine iff_of_false (fun h => ?_) id
  cases h

@[simp] theorem traps_modify {f : σ → σ} :
    Traps (modify f : Trapping ε σ Unit) s e ↔ False := by
  refine iff_of_false (fun h => ?_) id
  cases h

@[simp] theorem traps_bind {m : Trapping ε σ α} {f : α → Trapping ε σ β} :
    Traps (m >>= f) s e ↔ Traps m s e ∨ ∃ a t, Returns m s a t ∧ Traps (f a) t e := by
  simp only [Traps, Returns, StateT.run_bind]
  cases m.run s with
  | error e' => simp [bind, Except.bind]
  | ok r =>
    obtain ⟨a, t⟩ := r
    simp only [bind, Except.bind, reduceCtorEq, Except.ok.injEq, Prod.mk.injEq, false_or]
    constructor
    · exact fun h => ⟨a, t, ⟨rfl, rfl⟩, h⟩
    · rintro ⟨_, _, ⟨rfl, rfl⟩, h⟩
      exact h

@[simp] theorem traps_map {m : Trapping ε σ α} {f : α → β} :
    Traps (f <$> m) s e ↔ Traps m s e := by
  rw [map_eq_pure_bind, traps_bind]
  simp

@[simp] theorem traps_trapIf {c : Prop} [Decidable c] {e' : ε} :
    Traps (trapIf c e' : Trapping ε σ Unit) s e ↔ c ∧ e' = e := by
  unfold trapIf
  split
  · rename_i hc
    refine ⟨fun h => ⟨hc, Except.error.inj h⟩, fun h => congrArg Except.error h.2⟩
  · rename_i hc
    refine iff_of_false (fun h => ?_) fun h => hc h.1
    cases h

@[simp] theorem traps_orTrap {e' : ε} {o : Option α} :
    Traps (orTrap e' o : Trapping ε σ α) s e ↔ o = none ∧ e' = e := by
  cases o with
  | none => exact ⟨fun h => ⟨rfl, Except.error.inj h⟩, fun h => congrArg Except.error h.2⟩
  | some a =>
    refine iff_of_false (fun h => ?_) fun h => by cases h.1
    cases h

theorem traps_ite {c : Prop} [Decidable c] {m n : Trapping ε σ α} :
    Traps (if c then m else n) s e ↔ (c ∧ Traps m s e) ∨ (¬ c ∧ Traps n s e) := by
  split <;> simp_all

end Livora.TrappingState
