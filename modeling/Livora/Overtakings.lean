import Livora.ProgramPools

/-! Programs that read, and later write what rests on it. Beside a run it is noted, for each program
in progress, what has been written since it read it last; a write is overtaken where something that
it rests on is among that. In a run without such a write an invariant may speak of the world, of the
stage of each program and of what is late for it: the step of one program is proved with its write
not overtaken, and that the others bear it with what it writes late for them. -/

namespace Livora.Overtakings

open EffectPrograms TransitionRuns ProgramPools ProgramPools.System

/-! ### A note beside a run -/

section Note

variable {τ ℓ γ : Type*} {step : τ → ℓ → Option τ} {note : τ → ℓ → γ → γ} {C : τ → ℓ → Prop}

def noted (step : τ → ℓ → Option τ) (note : τ → ℓ → γ → γ) (x : τ × γ) (l : ℓ) : Option (τ × γ) :=
  (step x.1 l).map fun s => (s, note x.1 l x.2)

theorem noted_eq {s s' : τ} {g : γ} {l : ℓ} (h : step s l = some s') :
    noted step note (s, g) l = some (s', note s l g) := by
  simp only [noted, h, Option.map_some]

theorem of_noted {x y : τ × γ} {l : ℓ} (h : noted step note x l = some y) :
    step x.1 l = some y.1 ∧ y.2 = note x.1 l x.2 := by
  obtain ⟨s, hs, rfl⟩ := Option.map_eq_some_iff.mp h
  exact ⟨hs, rfl⟩

theorem run_noted {s s' : τ} {g : γ} {ls : List ℓ} (h : run step s ls = some s') :
    ∃ g', run (noted step note) (s, g) ls = some (s', g') := by
  induction ls generalizing s g with
  | nil =>
    cases h
    exact ⟨g, rfl⟩
  | cons l ls ih =>
    obtain ⟨t, ht, hr⟩ := run_cons.mp h
    obtain ⟨g', hg⟩ := ih hr
    exact ⟨g', run_cons.mpr ⟨_, noted_eq ht, hg⟩⟩

theorem along_noted {s : τ} {g : γ} {ls : List ℓ} :
    Along (noted step note) (fun x l => C x.1 l) (s, g) ls ↔ Along step C s ls := by
  induction ls generalizing s g with
  | nil => exact Iff.rfl
  | cons l ls ih =>
    refine and_congr_right fun _ => ⟨fun h t ht => ih.mp (h _ (noted_eq ht)), ?_⟩
    rintro h ⟨t, g'⟩ ht
    exact ih.mpr (h t (of_noted ht).1)

end Note

/-! ### What is late -/

/-- What each call reads and writes of the subjects `μ`, and what the write rests on. -/
structure Traffic (W ι Ω Δ μ : Type*) where
  reads : W → ι → Ω → List μ
  writes : W → ι → Ω → List μ
  rests : W → ι → Ω → List μ
  outside : W → Δ → List μ

namespace Traffic

variable {κ W Ω Δ σ ι μ : Type*} {ρ : ι → Type*} {α : Type*} [DecidableEq μ]

/-- What is late after a call for the program that makes it: its own writes are, too. -/
def own (T : Traffic W ι Ω Δ μ) (w : W) (i : ι) (o : Ω) (late : List μ) : List μ :=
  T.writes w i o ++ late.filter fun m => decide (m ∉ T.reads w i o)

/-- For each program, what was written since it read it. -/
def note (T : Traffic W ι Ω Δ μ) (c : Pool W (Task σ ι ρ α)) :
    Event κ Ω Δ → (ℕ → List μ) → ℕ → List μ
  | .start j _, late => Function.update late j []
  | .advance j o, late =>
    match pending c j with
    | some i => fun k =>
      if k = j then T.own c.world i o (late k) else T.writes c.world i o ++ late k
    | none => late
  | .stop _, late => late
  | .outside d, late => fun k => T.outside c.world d ++ late k

/-- The write of the event rests on nothing that is late. -/
def Fresh (T : Traffic W ι Ω Δ μ) (x : Pool W (Task σ ι ρ α) × (ℕ → List μ)) :
    Event κ Ω Δ → Prop
  | .advance j o => ∀ i ∈ pending x.1 j, ∀ m ∈ T.rests x.1.world i o, m ∉ x.2 j
  | _ => True

instance (T : Traffic W ι Ω Δ μ) (x : Pool W (Task σ ι ρ α) × (ℕ → List μ)) :
    (e : Event κ Ω Δ) → Decidable (T.Fresh x e)
  | .advance j o =>
    inferInstanceAs (Decidable (∀ i ∈ pending x.1 j, ∀ m ∈ T.rests x.1.world i o, m ∉ x.2 j))
  | .start _ _ | .stop _ | .outside _ => .isTrue trivial

/-- Between a read and the write that rests on it nobody writes what was read. -/
def Undisturbed (T : Traffic W ι Ω Δ μ) (S : System κ W Ω Δ σ ι ρ α) (c : Pool W (Task σ ι ρ α))
    (es : List (Event κ Ω Δ)) : Prop :=
  Along (noted S.step T.note) T.Fresh (c, fun _ => []) es

instance (T : Traffic W ι Ω Δ μ) (S : System κ W Ω Δ σ ι ρ α) (c : Pool W (Task σ ι ρ α))
    (es : List (Event κ Ω Δ)) : Decidable (T.Undisturbed S c es) :=
  inferInstanceAs (Decidable (Along _ _ _ es))

variable {T : Traffic W ι Ω Δ μ} {S : System κ W Ω Δ σ ι ρ α}
  {C : Pool W (Task σ ι ρ α) → Event κ Ω Δ → Prop} {w : W} {i : ι} {o : Ω} {late : List μ} {m : μ}

theorem not_mem_own : m ∉ T.own w i o late ↔
    m ∉ T.writes w i o ∧ (m ∈ T.reads w i o ∨ m ∉ late) := by
  rw [own, List.mem_append, List.mem_filter, decide_eq_true_eq]
  tauto

/-! ### Invariants -/

/-- The world is `G`, and each program knows `R` of it from its stage, where that is not late. -/
structure Steady (T : Traffic W ι Ω Δ μ) (S : System κ W Ω Δ σ ι ρ α)
    (C : Pool W (Task σ ι ρ α) → Event κ Ω Δ → Prop) (G : W → Prop) (R : W → σ → List μ → Prop) :
    Prop where
  first : ∀ w, R w S.first []
  call : ∀ c j o s i late, G c.world → R c.world s late → pending c j = some i →
    S.protocol.Allowed s i → C c (.advance j o) → (∀ m ∈ T.rests c.world i o, m ∉ late) →
    G (S.serve c.world i o).2 ∧
      R (S.serve c.world i o).2 (S.protocol.next s i (S.serve c.world i o).1)
        (T.own c.world i o late) ∧
      ∀ t late, R c.world t late → R (S.serve c.world i o).2 t (T.writes c.world i o ++ late)
  outside : ∀ c d w, G c.world → C c (.outside d) → S.outside c.world d = some w →
    G w ∧ ∀ t late, R c.world t late → R w t (T.outside c.world d ++ late)

structure Known (S : System κ W Ω Δ σ ι ρ α) (G : W → Prop) (R : W → σ → List μ → Prop)
    (x : Pool W (Task σ ι ρ α) × (ℕ → List μ)) : Prop where
  disciplined : S.Disciplined x.1
  world : G x.1.world
  stage : ∀ j s, stages x.1 j = some s → R x.1.world s (x.2 j)

variable {G : W → Prop} {R : W → σ → List μ → Prop}

omit [DecidableEq μ] in
theorem known_update {c : Pool W (Task σ ι ρ α)} {j : ℕ} {t : Option (Task σ ι ρ α)}
    {late : ℕ → List μ} (hd : S.Disciplined ⟨w, Function.update c.tasks j t⟩) (hworld : G w)
    (hown : ∀ s, t.map Task.stage = some s → R w s (late j))
    (hothers : ∀ k s, k ≠ j → stages c k = some s → R w s (late k)) :
    Known S G R (⟨w, Function.update c.tasks j t⟩, late) := by
  refine ⟨hd, hworld, fun k s hs => ?_⟩
  rw [stages_update] at hs
  by_cases hk : k = j
  · subst hk
    rw [Function.update_self] at hs
    exact hown s hs
  · rw [Function.update_of_ne hk] at hs
    exact hothers k s hk hs

theorem Steady.step (h : T.Steady S C G R)
    (hprogram : ∀ a, Keeps S.protocol (fun _ _ => True) S.first (S.program a))
    {x y : Pool W (Task σ ι ρ α) × (ℕ → List μ)} {e : Event κ Ω Δ} (hx : Known S G R x)
    (hC : C x.1 e) (hfresh : T.Fresh x e) (hnoted : noted S.step T.note x e = some y) :
    Known S G R y := by
  obtain ⟨c, late⟩ := x
  obtain ⟨c', late'⟩ := y
  obtain ⟨hstep, hlate⟩ := of_noted hnoted
  dsimp only at hstep hlate
  subst hlate
  have hdisciplined : S.Disciplined c' := step_disciplined hprogram hx.disciplined hstep
  cases e with
  | start j a =>
    obtain ⟨-, rfl⟩ := step_start.mp hstep
    refine known_update hdisciplined hx.world (fun s hs => ?_) fun k s hk hs => ?_
    · cases hs
      rw [note, Function.update_self]
      exact h.first c.world
    · rw [note, Function.update_of_ne hk]
      exact hx.stage k s hs
  | advance j o =>
    obtain ⟨s, i, f, ht, rfl⟩ := step_advance.mp hstep
    have hi := pending_eq ht
    obtain ⟨hworld, hown, hothers⟩ :=
      h.call c j o s i (late j) hx.world (hx.stage j s (stages_eq ht))
      hi (hx.disciplined j _ ht).1 hC (hfresh i hi)
    refine known_update hdisciplined hworld (fun t hs => ?_) fun k t hk hs => ?_
    · cases hs
      simp only [note, hi, if_true]
      exact hown
    · simp only [note, hi, if_neg hk]
      exact hothers t (late k) (hx.stage k t hs)
  | stop j =>
    obtain ⟨-, rfl⟩ := step_stop.mp hstep
    exact known_update hdisciplined hx.world (fun s hs => by cases hs) fun k s _ hs =>
      hx.stage k s hs
  | outside d =>
    obtain ⟨w, hw, rfl⟩ := step_outside.mp hstep
    obtain ⟨hworld, hothers⟩ := h.outside c d w hx.world hC hw
    exact ⟨hdisciplined, hworld, fun k s hs => hothers s (late k) (hx.stage k s hs)⟩

/-- Along an undisturbed run the programs know what they know at every event. -/
theorem Steady.along (h : T.Steady S C G R)
    (hprogram : ∀ a, Keeps S.protocol (fun _ _ => True) S.first (S.program a))
    {P : Pool W (Task σ ι ρ α) → Event κ Ω Δ → Prop}
    (hP : ∀ x e, Known S G R x → C x.1 e → T.Fresh x e → P x.1 e)
    {c : Pool W (Task σ ι ρ α)} {es : List (Event κ Ω Δ)} (hc : Known S G R (c, fun _ => []))
    (hC : Along S.step C c es) (hfresh : T.Undisturbed S c es) : Along S.step P c es := by
  refine along_noted.mp (along_strengthen (I := Known S G R) (fun x e y hx hC hstep => ?_)
    (fun x e hx hC => hP x e hx hC.1 hC.2) hc (along_and (along_noted.mpr hC) hfresh))
  exact h.step hprogram hx hC.1 hC.2 hstep

theorem Steady.run (h : T.Steady S C G R)
    (hprogram : ∀ a, Keeps S.protocol (fun _ _ => True) S.first (S.program a))
    {c c' : Pool W (Task σ ι ρ α)} {es : List (Event κ Ω Δ)} (hc : Known S G R (c, fun _ => []))
    (hC : Along S.step C c es) (hfresh : T.Undisturbed S c es) (hrun : run S.step c es = some c') :
    G c'.world := by
  obtain ⟨late, hlate⟩ : ∃ late, TransitionRuns.run (noted S.step T.note) (c, fun _ => []) es =
      some (c', late) :=
    run_noted hrun
  have hknown : Known S G R (c', late) := run_invariant
    (fun x e y hx hC hstep => h.step hprogram hx hC.1 hC.2 hstep) hc
    (along_and (along_noted.mpr hC) hfresh) hlate
  exact hknown.world

end Traffic

end Livora.Overtakings
