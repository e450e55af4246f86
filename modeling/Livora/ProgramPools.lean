import Livora.EffectPrograms
import Livora.TransitionRuns

/-! Programs in progress against one world. Each event starts a program, lets one
program make its next call, stops one, or changes the world from outside; the
order is free. Every program carries the stage its protocol gives it, so that an
invariant of a pool speaks of the world and the stages only. -/

namespace Livora.ProgramPools

open EffectPrograms TransitionRuns

structure Task (σ : Type*) (ι : Type*) (ρ : ι → Type*) (α : Type*) where
  stage : σ
  rest : Prog ι ρ α

structure Pool (W : Type*) (τ : Type*) where
  world : W
  tasks : ℕ → Option τ

inductive Event (κ Ω Δ : Type*) where
  | start (j : ℕ) (a : κ)
  | advance (j : ℕ) (o : Ω)
  | stop (j : ℕ)
  | outside (d : Δ)

structure System (κ W Ω Δ σ : Type*) (ι : Type*) (ρ : ι → Type*) (α : Type*) where
  program : κ → Prog ι ρ α
  serve : W → (i : ι) → Ω → ρ i × W
  outside : W → Δ → Option W
  protocol : Protocol σ ι ρ
  first : σ

namespace System

variable {κ W Ω Δ σ ι : Type*} {ρ : ι → Type*} {α : Type*}

def step (S : System κ W Ω Δ σ ι ρ α) (c : Pool W (Task σ ι ρ α)) :
    Event κ Ω Δ → Option (Pool W (Task σ ι ρ α))
  | .start j a =>
    match c.tasks j with
    | none => some { c with tasks := Function.update c.tasks j (some ⟨S.first, S.program a⟩) }
    | some _ => none
  | .advance j o =>
    match c.tasks j with
    | some ⟨s, .call i k⟩ =>
      let r := (S.serve c.world i o).1
      some ⟨(S.serve c.world i o).2,
        Function.update c.tasks j (some ⟨S.protocol.next s i r, k r⟩)⟩
    | _ => none
  | .stop j =>
    match c.tasks j with
    | none => none
    | some _ => some { c with tasks := Function.update c.tasks j none }
  | .outside d => (S.outside c.world d).map fun w => { c with world := w }

variable {S : System κ W Ω Δ σ ι ρ α} {c c' : Pool W (Task σ ι ρ α)} {j : ℕ}

theorem step_start {a : κ} :
    S.step c (.start j a) = some c' ↔ c.tasks j = none ∧
      c' = { c with tasks := Function.update c.tasks j (some ⟨S.first, S.program a⟩) } := by
  cases h : c.tasks j <;> simp [step, h, eq_comm]

theorem step_advance {o : Ω} :
    S.step c (.advance j o) = some c' ↔ ∃ s i k, c.tasks j = some ⟨s, .call i k⟩ ∧
      c' = ⟨(S.serve c.world i o).2, Function.update c.tasks j
        (some ⟨S.protocol.next s i (S.serve c.world i o).1, k (S.serve c.world i o).1⟩)⟩ := by
  constructor
  · intro h
    rcases ht : c.tasks j with _ | ⟨s, _ | ⟨i, k⟩⟩ <;> simp only [step, ht] at h
    · cases h
    · cases h
    · exact ⟨s, i, k, rfl, (Option.some.inj h).symm⟩
  · rintro ⟨s, i, k, ht, rfl⟩
    simp only [step, ht]

theorem step_stop :
    S.step c (.stop j) = some c' ↔ (∃ t, c.tasks j = some t) ∧
      c' = { c with tasks := Function.update c.tasks j none } := by
  cases h : c.tasks j <;> simp [step, h, eq_comm]

theorem step_outside {d : Δ} :
    S.step c (.outside d) = some c' ↔ ∃ w, S.outside c.world d = some w ∧
      c' = { c with world := w } := by
  cases h : S.outside c.world d <;> simp [step, h, eq_comm]

/-- Every program in progress keeps to the protocol from its stage on. -/
def Disciplined (S : System κ W Ω Δ σ ι ρ α) (c : Pool W (Task σ ι ρ α)) : Prop :=
  ∀ j t, c.tasks j = some t → Keeps S.protocol (fun _ _ => True) t.stage t.rest

/-- Every program in progress keeps to the protocol from its stage on, and ends as `Q` says. -/
def Ends (S : System κ W Ω Δ σ ι ρ α) (Q : σ → α → Prop) (c : Pool W (Task σ ι ρ α)) : Prop :=
  ∀ j t, c.tasks j = some t → Keeps S.protocol Q t.stage t.rest

variable {Q : σ → α → Prop}

theorem ends_update (h : S.Ends Q c) {w : W} {t : Option (Task σ ι ρ α)}
    (ht : ∀ u, t = some u → Keeps S.protocol Q u.stage u.rest) :
    S.Ends Q ⟨w, Function.update c.tasks j t⟩ := by
  intro i u hu
  by_cases hij : i = j
  · subst hij
    exact ht u (by simpa using hu)
  · exact h i u (by simpa [hij] using hu)

theorem step_ends (hprogram : ∀ a, Keeps S.protocol Q S.first (S.program a))
    {e : Event κ Ω Δ} (h : S.Ends Q c) (hstep : S.step c e = some c') : S.Ends Q c' := by
  cases e with
  | start j a =>
    obtain ⟨-, rfl⟩ := step_start.mp hstep
    refine ends_update h fun u hu => ?_
    cases hu
    exact hprogram a
  | advance j o =>
    obtain ⟨s, i, k, ht, rfl⟩ := step_advance.mp hstep
    refine ends_update h fun u hu => ?_
    cases hu
    exact (h j _ ht).2 _
  | stop j =>
    obtain ⟨-, rfl⟩ := step_stop.mp hstep
    exact ends_update h fun u hu => by cases hu
  | outside d =>
    obtain ⟨w, -, rfl⟩ := step_outside.mp hstep
    exact h

theorem run_ends (hprogram : ∀ a, Keeps S.protocol Q S.first (S.program a))
    {es : List (Event κ Ω Δ)} (h : S.Ends Q c) (hrun : run S.step c es = some c') : S.Ends Q c' :=
  run_preserves (fun _ _ _ h hstep => step_ends hprogram h hstep) h hrun

theorem step_disciplined (hprogram : ∀ a, Keeps S.protocol (fun _ _ => True) S.first (S.program a))
    {e : Event κ Ω Δ} (h : S.Disciplined c) (hstep : S.step c e = some c') : S.Disciplined c' :=
  step_ends hprogram h hstep

def stages (c : Pool W (Task σ ι ρ α)) (j : ℕ) : Option σ := (c.tasks j).map Task.stage

theorem stages_update {w : W} {t : Option (Task σ ι ρ α)} :
    stages ⟨w, Function.update c.tasks j t⟩ =
      Function.update (stages c) j (t.map Task.stage) := by
  funext i
  by_cases hij : i = j
  · subst hij
    simp [stages]
  · simp [stages, hij]

def pending (c : Pool W (Task σ ι ρ α)) (j : ℕ) : Option ι :=
  match c.tasks j with
  | some ⟨_, .call i _⟩ => some i
  | _ => none

theorem pending_eq {s : σ} {i : ι} {k : ρ i → Prog ι ρ α} (h : c.tasks j = some ⟨s, .call i k⟩) :
    pending c j = some i := by
  simp only [pending, h]

theorem stages_eq {t : Task σ ι ρ α} (h : c.tasks j = some t) : stages c j = some t.stage := by
  simp only [stages, h, Option.map_some]

theorem task_of_pending {i : ι} (h : pending c j = some i) :
    ∃ s k, c.tasks j = some ⟨s, .call i k⟩ := by
  rcases ht : c.tasks j with _ | ⟨s, _ | ⟨i', k⟩⟩
  · simp only [pending, ht] at h
    cases h
  · simp only [pending, ht] at h
    cases h
  · cases (pending_eq ht).symm.trans h
    exact ⟨s, k, rfl⟩

theorem stage_of_pending {i : ι} (h : pending c j = some i) : ∃ s, stages c j = some s := by
  cases ht : c.tasks j with
  | none =>
    simp only [pending, ht] at h
    cases h
  | some t => exact ⟨t.stage, stages_eq ht⟩

/-- The next call of a program that keeps to the protocol is allowed at its stage. -/
theorem allowed_pending {s : σ} {i : ι} (hd : S.Disciplined c) (hs : stages c j = some s)
    (hi : pending c j = some i) : S.protocol.Allowed s i := by
  obtain ⟨t, ht, rfl⟩ := Option.map_eq_some_iff.mp hs
  obtain ⟨s, _ | ⟨i', k⟩⟩ := t
  · simp [pending, ht] at hi
  · cases hi.symm.trans (pending_eq ht)
    exact (hd j _ ht).1

/-- A property of the world and the stages that every allowed call preserves holds along every
run of protocol-keeping programs. The calls may assume the condition `C` of their event. -/
theorem run_stages {C : Pool W (Task σ ι ρ α) → Event κ Ω Δ → Prop}
    {I : W → (ℕ → Option σ) → Prop}
    (hprogram : ∀ a, Keeps S.protocol (fun _ _ => True) S.first (S.program a))
    (hstart : ∀ w st j, I w st → st j = none → I w (Function.update st j (some S.first)))
    (hcall : ∀ c j o s i, I c.world (stages c) → stages c j = some s → pending c j = some i →
      S.protocol.Allowed s i → C c (.advance j o) →
      I (S.serve c.world i o).2
        (Function.update (stages c) j (some (S.protocol.next s i (S.serve c.world i o).1))))
    (hstop : ∀ c j, I c.world (stages c) → C c (.stop j) →
      I c.world (Function.update (stages c) j none))
    (houtside : ∀ c d w, I c.world (stages c) → C c (.outside d) →
      S.outside c.world d = some w → I w (stages c))
    {es : List (Event κ Ω Δ)} (hd : S.Disciplined c) (hI : I c.world (stages c))
    (hC : Along S.step C c es) (hrun : run S.step c es = some c') : I c'.world (stages c') := by
  have hboth : S.Disciplined c' ∧ I c'.world (stages c') := by
    refine run_invariant (I := fun c => S.Disciplined c ∧ I c.world (stages c)) ?_ ⟨hd, hI⟩ hC hrun
    rintro c e c' ⟨hd, hI⟩ hC hstep
    refine ⟨step_disciplined hprogram hd hstep, ?_⟩
    cases e with
    | start j a =>
      obtain ⟨hj, rfl⟩ := step_start.mp hstep
      rw [stages_update]
      exact hstart _ _ j hI (by rw [stages, hj]; rfl)
    | advance j o =>
      obtain ⟨s, i, k, ht, rfl⟩ := step_advance.mp hstep
      rw [stages_update]
      exact hcall c j o s i hI (stages_eq ht) (pending_eq ht) (hd j _ ht).1 hC
    | stop j =>
      obtain ⟨-, rfl⟩ := step_stop.mp hstep
      rw [stages_update]
      exact hstop c j hI hC
    | outside d =>
      obtain ⟨w, hw, rfl⟩ := step_outside.mp hstep
      exact houtside c d w hI hC hw
  exact hboth.2

def Task.current : Option (Task σ ι ρ α) → Option σ
  | some ⟨s, .call _ _⟩ => some s
  | _ => none

/-- The stages of the programs that still have a call to make. -/
def active (c : Pool W (Task σ ι ρ α)) (j : ℕ) : Option σ := Task.current (c.tasks j)

theorem active_eq {s : σ} {i : ι} {k : ρ i → Prog ι ρ α} (h : c.tasks j = some ⟨s, .call i k⟩) :
    active c j = some s := by
  rw [active, h]
  rfl

theorem stage_of_current {t : Task σ ι ρ α} {s : σ} (h : Task.current (some t) = some s) :
    s = t.stage := by
  obtain ⟨s', _ | ⟨i, k⟩⟩ := t
  · cases h
  · cases h
    rfl

theorem active_some {s : σ} : active c j = some s ↔ ∃ i k, c.tasks j = some ⟨s, .call i k⟩ := by
  constructor
  · intro h
    rcases ht : c.tasks j with _ | ⟨s', _ | ⟨i, k⟩⟩ <;> rw [active, ht] at h <;> cases h
    exact ⟨i, k, rfl⟩
  · rintro ⟨i, k, ht⟩
    exact active_eq ht

theorem active_update {w : W} {t : Option (Task σ ι ρ α)} :
    active ⟨w, Function.update c.tasks j t⟩ =
      Function.update (active c) j (Task.current t) := by
  funext i
  by_cases hij : i = j
  · subst hij
    simp [active]
  · simp [active, hij]

/-- As `run_stages`, of the programs that still have a call to make: one that has made its last call
is no different from one that was stopped. -/
theorem run_active {C : Pool W (Task σ ι ρ α) → Event κ Ω Δ → Prop}
    {I : W → (ℕ → Option σ) → Prop}
    (hprogram : ∀ a, Keeps S.protocol (fun _ _ => True) S.first (S.program a))
    (hstart : ∀ w st j, I w st → st j = none → I w (Function.update st j (some S.first)))
    (hcall : ∀ c j o s i, I c.world (active c) → active c j = some s → pending c j = some i →
      S.protocol.Allowed s i → C c (.advance j o) →
      I (S.serve c.world i o).2
        (Function.update (active c) j (some (S.protocol.next s i (S.serve c.world i o).1))))
    (hstop : ∀ w st j, I w st → I w (Function.update st j none))
    (houtside : ∀ c d w, I c.world (active c) → C c (.outside d) →
      S.outside c.world d = some w → I w (active c))
    {es : List (Event κ Ω Δ)} (hd : S.Disciplined c) (hI : I c.world (active c))
    (hC : Along S.step C c es) (hrun : run S.step c es = some c') : I c'.world (active c') := by
  have hboth : S.Disciplined c' ∧ I c'.world (active c') := by
    refine run_invariant (I := fun c => S.Disciplined c ∧ I c.world (active c)) ?_ ⟨hd, hI⟩ hC hrun
    rintro c e c' ⟨hd, hI⟩ hC hstep
    refine ⟨step_disciplined hprogram hd hstep, ?_⟩
    cases e with
    | start j a =>
      obtain ⟨hj, rfl⟩ := step_start.mp hstep
      rw [active_update]
      cases S.program a with
      | done x => exact hstop _ _ j hI
      | call i k => exact hstart _ _ j hI (by rw [active, hj]; rfl)
    | advance j o =>
      obtain ⟨s, i, k, ht, rfl⟩ := step_advance.mp hstep
      have hnext := hcall c j o s i hI (active_eq ht) (pending_eq ht) (hd j _ ht).1 hC
      rw [active_update]
      cases k (S.serve c.world i o).1 with
      | done x =>
        have hlast := hstop _ _ j hnext
        rwa [Function.update_idem] at hlast
      | call i' k' => exact hnext
    | stop j =>
      obtain ⟨-, rfl⟩ := step_stop.mp hstep
      rw [active_update]
      exact hstop _ _ j hI
    | outside d =>
      obtain ⟨w, hw, rfl⟩ := step_outside.mp hstep
      exact houtside c d w hI hC hw
  exact hboth.2

/-- Only the first `n` places are taken. -/
def Below (n : ℕ) (c : Pool W (Task σ ι ρ α)) : Prop := ∀ j, n ≤ j → c.tasks j = none

def startsBelow (n : ℕ) : Event κ Ω Δ → Bool
  | .start j _ => decide (j < n)
  | _ => true

theorem below_update {n : ℕ} (h : Below n c) {w : W} {t : Option (Task σ ι ρ α)}
    (ht : j < n ∨ t = none) : Below n ⟨w, Function.update c.tasks j t⟩ := by
  intro i hi
  change Function.update c.tasks j t i = none
  by_cases hij : i = j
  · subst hij
    rw [Function.update_self]
    exact ht.resolve_left (by omega)
  · rw [Function.update_of_ne hij]
    exact h i hi

theorem step_below {n : ℕ} {e : Event κ Ω Δ} (h : Below n c) (he : startsBelow n e = true)
    (hstep : S.step c e = some c') : Below n c' := by
  cases e with
  | start j a =>
    obtain ⟨-, rfl⟩ := step_start.mp hstep
    exact below_update h (.inl (of_decide_eq_true he))
  | advance j o =>
    obtain ⟨s, op, k, ht, rfl⟩ := step_advance.mp hstep
    refine below_update h (.inl (Nat.lt_of_not_le fun hj => ?_))
    rw [h j hj] at ht
    cases ht
  | stop j =>
    obtain ⟨-, rfl⟩ := step_stop.mp hstep
    exact below_update h (.inr rfl)
  | outside d =>
    obtain ⟨w, -, rfl⟩ := step_outside.mp hstep
    exact h

theorem along_of_below {n : ℕ} {C C' : Pool W (Task σ ι ρ α) → Event κ Ω Δ → Prop}
    {es : List (Event κ Ω Δ)} (hC : ∀ c e, Below n c → C' c e → C c e) (hc : Below n c)
    (h : Along S.step (fun c e => startsBelow n e = true ∧ C' c e) c es) : Along S.step C c es :=
  along_strengthen (fun _ _ _ hc he hstep => step_below hc he.1 hstep)
    (fun c e hc he => hC c e hc he.2) hc h

end System

end Livora.ProgramPools
