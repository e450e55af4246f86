import Livora.ProgramPools

/-! A program that is left alone, with each of its calls answered, comes to its end. What
it has to do before then, it does on the way: from any state of the pool it leads to
one where that is done. -/

namespace Livora.AnsweredRuns

open EffectPrograms TransitionRuns ProgramPools ProgramPools.System

variable {κ W Ω Δ σ ι : Type*} {ρ : ι → Type*} {α : Type*} {S : System κ W Ω Δ σ ι ρ α}

/-- The next `n` calls of a program are answered alike. -/
def answers (j n : ℕ) (o : Ω) : List (Event κ Ω Δ) := List.replicate n (.advance j o)

/-- One program alone leads there, where its calls are answered. -/
def Attains (S : System κ W Ω Δ σ ι ρ α) (o : Ω) (c : Pool W (Task σ ι ρ α)) (goal : W → Prop) :
    Prop :=
  ∃ j n c', run S.step c (answers j n o) = some c' ∧ goal c'.world

theorem along_of_forall {τ ℓ : Type*} {step : τ → ℓ → Option τ} {C : τ → ℓ → Prop} {x : τ}
    {ls : List ℓ} (h : ∀ l ∈ ls, ∀ y, C y l) : Along step C x ls :=
  along_iff.mpr fun _ l _ y hsplit _ =>
    h l (hsplit ▸ List.mem_append_right _ List.mem_cons_self) y

variable {o : Ω} {D : W → σ → Prop} {goal : W → Prop} {Q : σ → α → Prop}

/-- What a stage owes until the goal is reached is done before the program ends. -/
theorem attains_of_keeps
    (hcall : ∀ w s i, D w s → S.protocol.Allowed s i → goal (S.serve w i o).2 ∨
      D (S.serve w i o).2 (S.protocol.next s i (S.serve w i o).1))
    (hend : ∀ w s a, Q s a → ¬ D w s) {c : Pool W (Task σ ι ρ α)} {j : ℕ} {s : σ}
    {p : Prog ι ρ α} (ht : c.tasks j = some ⟨s, p⟩) (hkeeps : Keeps S.protocol Q s p)
    (howes : D c.world s) : Attains S o c goal := by
  refine ⟨j, ?_⟩
  induction p generalizing c s with
  | done a => exact absurd howes (hend c.world s a hkeeps)
  | call i k ih =>
    have hstep := (step_advance (S := S) (o := o)).mpr ⟨s, i, k, ht, rfl⟩
    rcases hcall c.world s i howes hkeeps.1 with hgoal | howes
    · exact ⟨1, _, run_cons.mpr ⟨_, hstep, rfl⟩, hgoal⟩
    · obtain ⟨n, c', hrun, hgoal⟩ := ih (S.serve c.world i o).1
        (c := ⟨_, Function.update c.tasks j (some ⟨_, _⟩)⟩) (Function.update_self ..)
        (hkeeps.2 _) howes
      exact ⟨n + 1, c', run_cons.mpr ⟨_, hstep, hrun⟩, hgoal⟩

end Livora.AnsweredRuns
