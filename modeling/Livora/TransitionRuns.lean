import Mathlib.Data.List.Basic
import Mathlib.Tactic.Common

/-! Finite runs of a labelled transition function. A label that is not enabled
gives no next state and the run has none either. Conditions on a run speak about
every label together with the state it is taken in; observations collect what
the accepted labels did, in order. The induction over a run is done here once. -/

namespace Livora.TransitionRuns

variable {σ ℓ β γ : Type*}

def run (step : σ → ℓ → Option σ) : σ → List ℓ → Option σ
  | s, [] => some s
  | s, l :: ls => (step s l).bind fun s' => run step s' ls

/-- Every label of the run satisfies `C` in the state it is taken in. -/
def Along (step : σ → ℓ → Option σ) (C : σ → ℓ → Prop) : σ → List ℓ → Prop
  | _, [] => True
  | s, l :: ls => C s l ∧ ∀ s', step s l = some s' → Along step C s' ls

def trace (step : σ → ℓ → Option σ) (obs : σ → ℓ → Option β) : σ → List ℓ → List β
  | _, [] => []
  | s, l :: ls =>
    match step s l with
    | none => []
    | some s' => (obs s l).toList ++ trace step obs s' ls

def Reachable (step : σ → ℓ → Option σ) (s₀ s : σ) : Prop :=
  ∃ ls, run step s₀ ls = some s

variable {step : σ → ℓ → Option σ} {C : σ → ℓ → Prop} {obs : σ → ℓ → Option β}

@[simp] theorem run_nil (s : σ) : run step s [] = some s := rfl

theorem run_cons {s s' : σ} {l : ℓ} {ls : List ℓ} :
    run step s (l :: ls) = some s' ↔ ∃ t, step s l = some t ∧ run step t ls = some s' := by
  simp [run, Option.bind_eq_some_iff]

theorem run_append {s s' : σ} {ls ms : List ℓ} :
    run step s (ls ++ ms) = some s' ↔
      ∃ t, run step s ls = some t ∧ run step t ms = some s' := by
  induction ls generalizing s with
  | nil => simp
  | cons l ls ih => simp only [List.cons_append, run_cons, ih]; tauto

theorem trace_cons {s s' : σ} {l : ℓ} {ls : List ℓ} (h : step s l = some s') :
    trace step obs s (l :: ls) = (obs s l).toList ++ trace step obs s' ls := by
  simp [trace, h]

theorem trace_append {s s' : σ} {ls ms : List ℓ} (h : run step s ls = some s') :
    trace step obs s (ls ++ ms) = trace step obs s ls ++ trace step obs s' ms := by
  induction ls generalizing s with
  | nil => cases h; rfl
  | cons l ls ih =>
    obtain ⟨t, ht, hr⟩ := run_cons.mp h
    rw [List.cons_append, trace_cons ht, trace_cons ht, ih hr, List.append_assoc]

theorem along_cons {s t : σ} {l : ℓ} {ls : List ℓ} (hC : C s l) (hstep : step s l = some t)
    (h : Along step C t ls) : Along step C s (l :: ls) :=
  ⟨hC, fun _ hu => Option.some.inj (hstep.symm.trans hu) ▸ h⟩

/-- A condition tested along a run entails another one where an invariant helps. -/
theorem along_strengthen {C' : σ → ℓ → Prop} {I : σ → Prop}
    (hstep : ∀ s l s', I s → C s l → step s l = some s' → I s')
    (hC : ∀ s l, I s → C s l → C' s l) {s : σ} {ls : List ℓ} (hs : I s)
    (h : Along step C s ls) : Along step C' s ls := by
  induction ls generalizing s with
  | nil => trivial
  | cons l ls ih =>
    exact ⟨hC s l hs h.1, fun t ht => ih (hstep s l t hs h.1 ht) (h.2 t ht)⟩

theorem along_mono {C' : σ → ℓ → Prop} (hC : ∀ s l, C s l → C' s l) {s : σ} {ls : List ℓ}
    (h : Along step C s ls) : Along step C' s ls :=
  along_strengthen (I := fun _ => True) (fun _ _ _ _ _ _ => trivial) (fun s l _ => hC s l) trivial h

theorem along_and {C' : σ → ℓ → Prop} {s : σ} {ls : List ℓ} (h : Along step C s ls)
    (h' : Along step C' s ls) : Along step (fun s l => C s l ∧ C' s l) s ls := by
  induction ls generalizing s with
  | nil => trivial
  | cons l ls ih => exact ⟨⟨h.1, h'.1⟩, fun t ht => ih (h.2 t ht) (h'.2 t ht)⟩

/-- What holds of every state of a run holds of the state that each label leads to. -/
theorem along_next {U : σ → Prop} {s s' : σ} {ls : List ℓ} (h : Along step (fun s _ => U s) s ls)
    (hrun : run step s ls = some s') (hend : U s') :
    Along step (fun s l => ∀ t, step s l = some t → U t) s ls := by
  induction ls generalizing s with
  | nil => trivial
  | cons l ls ih =>
    obtain ⟨u, hu, hr⟩ := run_cons.mp hrun
    refine along_cons (fun t ht => ?_) hu (ih (h.2 u hu) hr)
    cases hu.symm.trans ht
    cases ls with
    | nil => cases hr; exact hend
    | cons m ms => exact (h.2 u hu).1

instance decidableAlong [∀ s l, Decidable (C s l)] :
    (s : σ) → (ls : List ℓ) → Decidable (Along step C s ls)
  | _, [] => .isTrue trivial
  | s, l :: ls =>
    match h : step s l with
    | none =>
      decidable_of_iff (C s l) ⟨fun hC => ⟨hC, fun t ht => by rw [h] at ht; cases ht⟩, And.left⟩
    | some t =>
      have := decidableAlong t ls
      decidable_of_iff (C s l ∧ Along step C t ls)
        ⟨fun hC => along_cons hC.1 h hC.2, fun hC => ⟨hC.1, hC.2 t h⟩⟩

theorem along_append {s : σ} {ls ms : List ℓ} (h : Along step C s (ls ++ ms)) :
    Along step C s ls ∧ ∀ t, run step s ls = some t → Along step C t ms := by
  induction ls generalizing s with
  | nil => exact ⟨trivial, fun t ht => by cases ht; exact h⟩
  | cons l ls ih =>
    refine ⟨⟨h.1, fun t ht => (ih (h.2 t ht)).1⟩, fun t ht => ?_⟩
    obtain ⟨u, hu, hr⟩ := run_cons.mp ht
    exact (ih (h.2 u hu)).2 t hr

/-- `Along` unfolded: the condition holds after every prefix of the run. -/
theorem along_iff {s : σ} {ls : List ℓ} :
    Along step C s ls ↔
      ∀ p l q t, ls = p ++ l :: q → run step s p = some t → C t l := by
  induction ls generalizing s with
  | nil => simp [Along]
  | cons m ms ih =>
    constructor
    · rintro ⟨hm, hms⟩ p l q t hsplit hrun
      cases p with
      | nil =>
        obtain ⟨rfl, rfl⟩ := List.cons.inj hsplit
        cases hrun
        exact hm
      | cons m' p =>
        obtain ⟨rfl, rfl⟩ := List.cons.inj hsplit
        obtain ⟨u, hu, hr⟩ := run_cons.mp hrun
        exact ih.mp (hms u hu) p l q t rfl hr
    · intro h
      refine ⟨h [] m ms s rfl rfl, fun u hu => ih.mpr fun p l q t hsplit hrun => ?_⟩
      exact h (m :: p) l q t (by rw [hsplit]; rfl) (run_cons.mpr ⟨u, hu, hrun⟩)

/-- An invariant preserved by every step that meets the condition holds at the end. -/
theorem run_invariant {I : σ → Prop}
    (hstep : ∀ s l s', I s → C s l → step s l = some s' → I s')
    {s s' : σ} {ls : List ℓ} (hs : I s) (hC : Along step C s ls)
    (h : run step s ls = some s') : I s' := by
  induction ls generalizing s with
  | nil => cases h; exact hs
  | cons l ls ih =>
    obtain ⟨t, ht, hr⟩ := run_cons.mp h
    exact ih (hstep s l t hs hC.1 ht) (hC.2 t ht) hr

theorem run_preserves {I : σ → Prop} (hstep : ∀ s l s', I s → step s l = some s' → I s')
    {s s' : σ} {ls : List ℓ} (hs : I s) (h : run step s ls = some s') : I s' := by
  induction ls generalizing s with
  | nil => cases h; exact hs
  | cons l ls ih =>
    obtain ⟨t, ht, hr⟩ := run_cons.mp h
    exact ih (hstep s l t hs ht) hr

/-- An invariant between the observations made so far and the current state, in a run that meets the
condition. -/
theorem run_history_along {I : List β → σ → Prop}
    (hstep : ∀ h s l s', I h s → C s l → step s l = some s' → I (h ++ (obs s l).toList) s')
    {s s' : σ} {ls : List ℓ} {p : List β} (hs : I p s) (hC : Along step C s ls)
    (h : run step s ls = some s') : I (p ++ trace step obs s ls) s' := by
  induction ls generalizing s p with
  | nil => cases h; simpa [trace] using hs
  | cons l ls ih =>
    obtain ⟨t, ht, hr⟩ := run_cons.mp h
    rw [trace_cons ht, ← List.append_assoc]
    exact ih (hstep p s l t hs hC.1 ht) (hC.2 t ht) hr

theorem along_true {s : σ} {ls : List ℓ} : Along step (fun _ _ => True) s ls := by
  induction ls generalizing s with
  | nil => trivial
  | cons l ls ih => exact ⟨trivial, fun _ _ => ih⟩

theorem run_history {I : List β → σ → Prop}
    (hstep : ∀ h s l s', I h s → step s l = some s' → I (h ++ (obs s l).toList) s')
    {s s' : σ} {ls : List ℓ} {p : List β} (hs : I p s) (h : run step s ls = some s') :
    I (p ++ trace step obs s ls) s' :=
  run_history_along (fun p s l s' hI _ => hstep p s l s' hI) hs along_true h

/-- What is observed only where a measure that never falls rises to `n` is observed once at most. -/
theorem trace_once {f : σ → ℕ} {n : ℕ} {s₀ s : σ} {ls : List ℓ}
    (hstep : ∀ s l s', Reachable step s₀ s → step s l = some s' →
      f s ≤ f s' ∧ (obs s l ≠ none → f s < n ∧ n ≤ f s'))
    (h : run step s₀ ls = some s) : (trace step obs s₀ ls).length ≤ 1 := by
  have hboth : Reachable step s₀ s ∧
      ([] ++ trace step obs s₀ ls).length ≤ if n ≤ f s then 1 else 0 := by
    refine run_history (I := fun p s => Reachable step s₀ s ∧ p.length ≤ if n ≤ f s then 1 else 0)
      ?_ ⟨⟨[], rfl⟩, Nat.zero_le _⟩ h
    rintro p s l s' ⟨⟨ls, hls⟩, hp⟩ hs
    obtain ⟨hmono, hobs⟩ := hstep s l s' ⟨ls, hls⟩ hs
    refine ⟨⟨ls ++ [l], run_append.mpr ⟨s, hls, run_cons.mpr ⟨s', hs, rfl⟩⟩⟩, ?_⟩
    cases hb : obs s l with
    | none =>
      rw [Option.toList_none, List.append_nil]
      split at hp <;> split <;> omega
    | some b =>
      obtain ⟨hbefore, hafter⟩ := hobs (by rw [hb]; exact Option.some_ne_none b)
      rw [if_neg (by omega)] at hp
      rw [if_pos hafter, List.length_append, Option.toList_some, List.length_singleton]
      omega
  obtain ⟨-, hlength⟩ := hboth
  rw [List.nil_append] at hlength
  split at hlength <;> omega

/-- The labels that are seen are a run of the projected states, where the others do not change what
is projected. -/
theorem run_project {τ : Type*} {p : σ → τ} {next : τ → ℓ → Option τ} {sees : σ → ℓ → Bool}
    {I : σ → Prop} (hI : ∀ s l s', I s → step s l = some s' → I s')
    (hseen : ∀ s l s', I s → step s l = some s' → sees s l = true → next (p s) l = some (p s'))
    (hunseen : ∀ s l s', I s → step s l = some s' → sees s l = false → p s' = p s)
    {s s' : σ} {ls : List ℓ} (hs : I s) (h : run step s ls = some s') :
    run next (p s) (trace step (fun s l => if sees s l then some l else none) s ls) =
      some (p s') := by
  induction ls generalizing s with
  | nil => cases h; rfl
  | cons l ls ih =>
    obtain ⟨t, ht, hr⟩ := run_cons.mp h
    rw [trace_cons ht]
    have hrest := ih (hI s l t hs ht) hr
    cases hsees : sees s l with
    | true =>
      rw [if_pos rfl, Option.toList_some, List.singleton_append]
      exact run_cons.mpr ⟨p t, hseen s l t hs ht hsees, hrest⟩
    | false =>
      rw [if_neg Bool.false_ne_true, Option.toList_none, List.nil_append,
        ← hunseen s l t hs ht hsees]
      exact hrest

/-- Every observation was made by a label taken after a prefix of the run. -/
theorem trace_split {s : σ} {ls : List ℓ} {pre post : List β} {b : β}
    (h : trace step obs s ls = pre ++ b :: post) :
    ∃ p l q t, ls = p ++ l :: q ∧ run step s p = some t ∧ trace step obs s p = pre ∧
      obs t l = some b := by
  induction ls generalizing s pre with
  | nil => simp [trace] at h
  | cons l ls ih =>
    cases hstep : step s l with
    | none => simp [trace, hstep] at h
    | some s' =>
      rw [trace_cons hstep] at h
      have hlater : ∀ pre', trace step obs s' ls = pre' ++ b :: post →
          (obs s l).toList ++ pre' = pre → ∃ p l' q t, l :: ls = p ++ l' :: q ∧
            run step s p = some t ∧ trace step obs s p = pre ∧ obs t l' = some b := by
        intro pre' h' hpre
        obtain ⟨p, l', q, t, rfl, hrun, htrace, hobs⟩ := ih h'
        exact ⟨l :: p, l', q, t, rfl, run_cons.mpr ⟨s', hstep, hrun⟩,
          by rw [trace_cons hstep, htrace, hpre], hobs⟩
      cases hobs : obs s l with
      | none => exact hlater pre (by simpa [hobs] using h) (by simp [hobs])
      | some c =>
        rw [hobs, Option.toList_some, List.singleton_append] at h
        cases pre with
        | nil => exact ⟨[], l, ls, s, rfl, rfl, rfl, by rw [hobs, (List.cons.inj h).1]⟩
        | cons c' pre' =>
          obtain ⟨rfl, hrest⟩ := List.cons.inj h
          exact hlater pre' hrest (by simp [hobs])

end Livora.TransitionRuns
