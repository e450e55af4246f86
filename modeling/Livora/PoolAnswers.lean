import Livora.ProgramPools

/-! What the programs of a pool answer. The answers of a run come in the order in which the programs
made their last calls; an invariant of the run may speak of those given so far. -/

namespace Livora.PoolAnswers

open EffectPrograms TransitionRuns ProgramPools ProgramPools.System

variable {κ W Ω Δ σ ι : Type*} {ρ : ι → Type*} {α : Type*}

def Task.answered : Option (Task σ ι ρ α) → Option α
  | some ⟨_, .done x⟩ => some x
  | _ => none

/-- A step that was a program's last call gives its answer. -/
def answer (S : System κ W Ω Δ σ ι ρ α) (c : Pool W (Task σ ι ρ α)) : Event κ Ω Δ → Option (ℕ × α)
  | .advance j o =>
    match c.tasks j with
    | some ⟨_, .call i k⟩ =>
      (Task.answered (some ⟨S.first, k (S.serve c.world i o).1⟩)).map fun x => (j, x)
    | _ => none
  | _ => none

def answers (S : System κ W Ω Δ σ ι ρ α) (c : Pool W (Task σ ι ρ α)) (es : List (Event κ Ω Δ)) :
    List (ℕ × α) :=
  trace S.step (answer S) c es

variable {S : System κ W Ω Δ σ ι ρ α} {c c' : Pool W (Task σ ι ρ α)} {j : ℕ}

theorem answer_advance {s : σ} {i : ι} {k : ρ i → Prog ι ρ α} {o : Ω}
    (h : c.tasks j = some ⟨s, .call i k⟩) : answer S c (.advance j o) =
      (Task.answered (some ⟨S.first, k (S.serve c.world i o).1⟩)).map fun x => (j, x) := by
  simp only [answer, h]

/-- A property of the answers so far, of the world, and of the stages of the programs that have a
call to make. Every program has one to begin with, and ends as `Q` says. -/
theorem run_answers {C : Pool W (Task σ ι ρ α) → Event κ Ω Δ → Prop} {Q : σ → α → Prop}
    {I : List (ℕ × α) → W → (ℕ → Option σ) → Prop}
    (hprogram : ∀ a, Keeps S.protocol Q S.first (S.program a))
    (hcalls : ∀ a x, S.program a ≠ .done x)
    (hstart : ∀ h c j a, I h c.world (active c) → active c j = none → C c (.start j a) →
      I h c.world (Function.update (active c) j (some S.first)))
    (hcall : ∀ h c j o s i, I h c.world (active c) → active c j = some s → pending c j = some i →
      S.protocol.Allowed s i → C c (.advance j o) →
      I h (S.serve c.world i o).2
        (Function.update (active c) j (some (S.protocol.next s i (S.serve c.world i o).1))))
    (hanswer : ∀ h w st j s x, I h w st → st j = some s → Q s x →
      I (h ++ [(j, x)]) w (Function.update st j none))
    (hstop : ∀ h c j, I h c.world (active c) → C c (.stop j) →
      I h c.world (Function.update (active c) j none))
    (houtside : ∀ h c d w, I h c.world (active c) → C c (.outside d) →
      S.outside c.world d = some w → I h w (active c))
    {es : List (Event κ Ω Δ)} {p : List (ℕ × α)} (hends : S.Ends Q c) (hI : I p c.world (active c))
    (hC : Along S.step C c es) (hrun : run S.step c es = some c') :
    I (p ++ answers S c es) c'.world (active c') := by
  induction es generalizing c p with
  | nil =>
    cases hrun
    rw [answers, trace, List.append_nil]
    exact hI
  | cons e es ih =>
    obtain ⟨c₁, hstep, hrest⟩ := run_cons.mp hrun
    rw [answers, trace_cons hstep, ← List.append_assoc]
    refine ih (step_ends hprogram hends hstep) ?_ (hC.2 c₁ hstep) hrest
    have hcond := hC.1
    cases e with
    | start j a =>
      obtain ⟨hj, rfl⟩ := step_start.mp hstep
      rw [active_update]
      change I (p ++ []) _ _
      rw [List.append_nil]
      cases hprog : S.program a with
      | done x => exact absurd hprog (hcalls a x)
      | call i k => exact hstart p c j a hI (by rw [active, hj]; rfl) hcond
    | advance j o =>
      obtain ⟨s, i, k, ht, rfl⟩ := step_advance.mp hstep
      have hnext := hcall p c j o s i hI (active_eq ht) (pending_eq ht) (hends j _ ht).1 hcond
      have hlast := (hends j _ ht).2 (S.serve c.world i o).1
      rw [active_update, answer_advance ht]
      cases hk : k (S.serve c.world i o).1 with
      | done x =>
        rw [hk] at hlast
        have hgiven := hanswer p _ _ j _ x hnext (Function.update_self _ _ _) hlast
        rw [Function.update_idem] at hgiven
        exact hgiven
      | call i' k' =>
        change I (p ++ []) _ _
        rw [List.append_nil]
        exact hnext
    | stop j =>
      obtain ⟨-, rfl⟩ := step_stop.mp hstep
      rw [active_update]
      change I (p ++ []) _ _
      rw [List.append_nil]
      exact hstop p c j hI hcond
    | outside d =>
      obtain ⟨w, hw, rfl⟩ := step_outside.mp hstep
      change I (p ++ []) _ _
      rw [List.append_nil]
      exact houtside p c d w hI hcond hw

end Livora.PoolAnswers
