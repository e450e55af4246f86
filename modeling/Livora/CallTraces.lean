import Livora.NamedPools
import Mathlib.Data.List.Induction

/-! The calls that the programs of a pool make along a run, with their answers. A protocol whose
stages are what a program itself has called so far asks for what the program has learnt before a
call; in the calls of the whole run it is found before that call, whoever came in between. -/

namespace Livora.CallTraces

open EffectPrograms TransitionRuns ProgramPools ProgramPools.System NamedPools

variable {κ W Ω Δ σ ι : Type*} {ρ : ι → Type*} {α : Type*}

abbrev Call (ι : Type*) (ρ : ι → Type*) := (i : ι) × ρ i

structure Made (W ι : Type*) (ρ : ι → Type*) where
  before : W
  call : Call ι ρ

def made (S : System κ W Ω Δ σ ι ρ α) (c : Pool W (Task σ ι ρ α)) :
    Event κ Ω Δ → Option (Made W ι ρ)
  | .advance j o =>
    match c.tasks j with
    | some ⟨_, .call i _⟩ => some ⟨c.world, i, (S.serve c.world i o).1⟩
    | _ => none
  | _ => none

def calls (S : System κ W Ω Δ σ ι ρ α) (c : Pool W (Task σ ι ρ α)) (es : List (Event κ Ω Δ)) :
    List (Made W ι ρ) :=
  trace S.step (made S) c es

def remembering (A : List (Call ι ρ) → ι → Prop) : Protocol (List (Call ι ρ)) ι ρ where
  Allowed := A
  next own i r := own ++ [⟨i, r⟩]

theorem keeps_remembering {A : List (Call (κ × ι) fun i => ρ i.2) → κ × ι → Prop} {a : κ}
    {p : ι → Prop} (hA : ∀ own i, p i → A own (a, i)) {prog : Prog ι ρ α} (h : prog.Calls p)
    (own : List (Call (κ × ι) fun i => ρ i.2)) :
    Keeps (under (remembering A) a) (fun t _ => ∃ tail, t = own ++ tail ∧
      ∀ c ∈ tail, p c.1.2) own prog := by
  induction prog generalizing own with
  | done x => exact ⟨[], (List.append_nil own).symm, fun _ hc => by cases hc⟩
  | call i k ih =>
    refine ⟨hA own i h.1, fun r => (ih r (h.2 r) _).mono ?_⟩
    rintro t _ ⟨tail, rfl, htail⟩
    refine ⟨⟨(a, i), r⟩ :: tail, List.append_assoc .., fun c hc => ?_⟩
    rcases List.mem_cons.mp hc with rfl | hc
    · exact h.1
    · exact htail c hc

theorem keeps_grows {A : List (Call (κ × ι) fun i => ρ i.2) → κ × ι → Prop} {a : κ}
    {Q : List (Call (κ × ι) fun i => ρ i.2) → α → Prop} {own : List (Call (κ × ι) fun i => ρ i.2)}
    {prog : Prog ι ρ α} (h : Keeps (under (remembering A) a) Q own prog) :
    Keeps (under (remembering A) a) (fun t x => own ⊆ t ∧ Q t x) own prog := by
  induction prog generalizing own with
  | done x => exact ⟨List.Subset.refl _, h⟩
  | call i k ih =>
    refine ⟨h.1, fun r => (ih r (h.2 r)).mono fun t x ht => ⟨?_, ht.2⟩⟩
    exact fun c hc => ht.1 (List.mem_append_left _ hc)

/-! ### Actions in the name of a request -/

section Giving

universe u

variable {κ : Type*} {ι : Type u} {ρ : ι → Type u} {ε α β : Type u}
  {A : List (Call (κ × ι) fun i => Except ε (ρ i.2)) → κ × ι → Prop} {a : κ}
  {own : List (Call (κ × ι) fun i => Except ε (ρ i.2))}

/-- The call was made in the name of `a`, and answered so. -/
def said (a : κ) (i : ι) (r : Except ε (ρ i)) : Call (κ × ι) fun i => Except ε (ρ i.2) :=
  ⟨(a, i), r⟩

/-- The action makes allowed calls, and what it returns is as `Q` says of the calls so far. -/
def Gives (A : List (Call (κ × ι) fun i => Except ε (ρ i.2)) → κ × ι → Prop) (a : κ)
    (own : List (Call (κ × ι) fun i => Except ε (ρ i.2)))
    (Q : List (Call (κ × ι) fun i => Except ε (ρ i.2)) → α → Prop) (act : Action ι ρ ε α) : Prop :=
  Action.Obeys (under (remembering A) a) (fun t x => ∀ y, x = .ok y → own ⊆ t ∧ Q t y) own act

variable {P Q : List (Call (κ × ι) fun i => Except ε (ρ i.2)) → α → Prop}
  {R : List (Call (κ × ι) fun i => Except ε (ρ i.2)) → β → Prop}

theorem gives_throw (e : ε) : Gives A a own Q (throw e : Action ι ρ ε α) :=
  Action.obeys_throw.mpr fun _ h => by cases h

theorem gives_pure {x : α} (h : Q own x) : Gives A a own Q (pure x : Action ι ρ ε α) :=
  Action.obeys_pure.mpr fun y hy => by
    cases hy
    exact ⟨List.Subset.refl _, h⟩

theorem gives_call {i : ι} {f : ρ i → Action ι ρ ε β} (hallowed : A own (a, i))
    (hf : ∀ x, Gives A a (own ++ [said a i (.ok x)]) R (f x)) :
    Gives A a own R (Action.perform i >>= f) := by
  refine Action.obeys_call.mpr ⟨hallowed, fun x => ?_, fun e y hy => by cases hy⟩
  refine (hf x).mono (fun t y hy z hz => ?_) fun t e _ z hz => by cases hz
  exact ⟨List.Subset.trans (List.subset_append_left _ _) (hy z hz).1, (hy z hz).2⟩

theorem gives_bind {act : Action ι ρ ε α} {f : α → Action ι ρ ε β} (hact : Gives A a own P act)
    (hf : ∀ x t, own ⊆ t → P t x → Gives A a t R (f x)) : Gives A a own R (act >>= f) := by
  refine Action.obeys_bind.mpr (Action.Obeys.mono hact (fun t x hx => ?_) fun t e _ y hy => by
    cases hy)
  obtain ⟨hown, hP⟩ := hx x rfl
  refine (hf x t hown hP).mono (fun u y hy z hz => ?_) fun u e _ z hz => by cases hz
  exact ⟨List.Subset.trans hown (hy z hz).1, (hy z hz).2⟩

theorem gives_perform {i : ι} {Q : List (Call (κ × ι) fun i => Except ε (ρ i.2)) → ρ i → Prop}
    (hallowed : A own (a, i)) (hQ : ∀ x, Q (own ++ [said a i (.ok x)]) x) :
    Gives A a own Q (Action.perform i : Action ι ρ ε (ρ i)) :=
  Action.obeys_perform.mpr ⟨hallowed, fun x y hy => by
    cases hy
    exact ⟨List.subset_append_left _ _, hQ x⟩, fun e y hy => by cases hy⟩

theorem gives_of_only {p : ι → Prop} (hp : ∀ t i, p i → A t (a, i)) {act : Action ι ρ ε α}
    (h : Action.Only p act) :
    Gives A a own (fun _ _ => True) act :=
  Keeps.mono (fun _ _ ht _ _ => ⟨ht.1, trivial⟩)
    (keeps_grows (Action.Only.follows_of_allowed (P := under (remembering A) a) hp h))

theorem gives_rescue {act : Action ι ρ ε α} {handler : ε → Action ι ρ ε α}
    (hact : Gives A a own Q act) (hhandler : ∀ e t, Gives A a t Q (handler e)) :
    Gives A a own Q (Action.rescue act handler) := by
  refine Action.obeys_rescue.mpr (Keeps.mono (fun t x hx => ?_) (keeps_grows hact))
  cases x with
  | ok y => exact hx.2
  | error e =>
    refine Keeps.mono (fun u y hy z hz => ?_) (hhandler e t)
    exact ⟨List.Subset.trans hx.1 (hy z hz).1, (hy z hz).2⟩

end Giving

/-- Before every call stands what its program had to have called. -/
def Justified (A : List (Call ι ρ) → ι → Prop) (h : List (Made W ι ρ)) : Prop :=
  ∀ pre m post, h = pre ++ m :: post → ∃ own ⊆ pre.map Made.call, A own m.call.1

def Recalled (h : List (Made W ι ρ)) (st : ℕ → Option (List (Call ι ρ))) : Prop :=
  ∀ j own, st j = some own → own ⊆ h.map Made.call

theorem stage_update {σ : Type*} {st : ℕ → Option σ} {t : Option σ} {s : σ} {j k : ℕ}
    (hk : Function.update st j t k = some s) : k = j ∧ t = some s ∨ k ≠ j ∧ st k = some s := by
  by_cases hkj : k = j
  · subst hkj
    rw [Function.update_self] at hk
    exact .inl ⟨rfl, hk⟩
  · rw [Function.update_of_ne hkj] at hk
    exact .inr ⟨hkj, hk⟩

section Steps

variable {A : List (Call ι ρ) → ι → Prop} {h : List (Made W ι ρ)} {m : Made W ι ρ}
  {st : ℕ → Option (List (Call ι ρ))} {j : ℕ} {own : List (Call ι ρ)}

/-- A property of each element with what stands before it, of a list with one more at the end. -/
theorem forall_split_append {β : Type*} {p : List β → β → Prop} {l : List β} {x : β}
    (hl : ∀ pre y post, l = pre ++ y :: post → p pre y) (hx : p l x) :
    ∀ pre y post, l ++ [x] = pre ++ y :: post → p pre y := by
  intro pre y post hsplit
  induction post using List.reverseRecOn with
  | nil =>
    obtain ⟨rfl, hxy⟩ := List.append_inj' hsplit rfl
    cases hxy
    exact hx
  | append_singleton post z _ =>
    rw [← List.cons_append, ← List.append_assoc] at hsplit
    exact hl pre y post (List.append_inj' hsplit rfl).1

theorem Justified.append (hh : Justified A h) (hown : own ⊆ h.map Made.call) (hm : A own m.call.1) :
    Justified A (h ++ [m]) :=
  forall_split_append (p := fun pre m => ∃ own ⊆ pre.map Made.call, A own m.call.1) hh
    ⟨own, hown, hm⟩

theorem Recalled.update (hh : Recalled h st) (hown : own ⊆ h.map Made.call) :
    Recalled (h ++ [m]) (Function.update st j (some (own ++ [m.call]))) := by
  intro k own' hk
  rw [List.map_append]
  rcases stage_update hk with ⟨-, hnew⟩ | ⟨-, hst⟩
  · cases hnew
    exact List.append_subset.mpr ⟨List.subset_append_of_subset_left _ hown,
      List.subset_append_right _ _⟩
  · exact List.subset_append_of_subset_left _ (hh k own' hst)

theorem Recalled.start (hh : Recalled h st) : Recalled h (Function.update st j (some [])) := by
  intro k own' hk
  rcases stage_update hk with ⟨-, hnew⟩ | ⟨-, hst⟩
  · cases hnew
    exact List.nil_subset _
  · exact hh k own' hst

theorem Recalled.stop (hh : Recalled h st) : Recalled h (Function.update st j none) := by
  intro k own' hk
  rcases stage_update hk with ⟨-, hnew⟩ | ⟨-, hst⟩
  · cases hnew
  · exact hh k own' hst

end Steps

/-- Of programs that keep to what they remember: their calls are justified, and so is whatever else
every call keeps of the calls so far, the world and the stages. -/
theorem run_remembering {S : System κ W Ω Δ (List (Call ι ρ)) ι ρ α}
    {A : List (Call ι ρ) → ι → Prop}
    {C : Pool W (Task (List (Call ι ρ)) ι ρ α) → Event κ Ω Δ → Prop}
    {K : List (Made W ι ρ) → W → (ℕ → Option (List (Call ι ρ))) → Prop}
    (hprotocol : S.protocol = remembering A) (hfirst : S.first = [])
    (hprogram : ∀ a, Keeps (remembering A) (fun _ _ => True) [] (S.program a))
    (hstart : ∀ h w st j, K h w st → st j = none → K h w (Function.update st j (some [])))
    (hcall : ∀ h c j o own i, Recalled h (stages c) → K h c.world (stages c) →
      stages c j = some own →
      pending c j = some i → A own i → C c (.advance j o) →
      K (h ++ [⟨c.world, i, (S.serve c.world i o).1⟩]) (S.serve c.world i o).2
        (Function.update (stages c) j (some (own ++ [⟨i, (S.serve c.world i o).1⟩]))))
    (hstop : ∀ h w st j, K h w st → K h w (Function.update st j none))
    (houtside : ∀ h c d w', K h c.world (stages c) → C c (.outside d) →
      S.outside c.world d = some w' →
      K h w' (stages c))
    {c c' : Pool W (Task (List (Call ι ρ)) ι ρ α)} {es : List (Event κ Ω Δ)}
    (hd : ∀ j, c.tasks j = none)
    (hK : K [] c.world (stages c)) (hC : Along S.step C c es) (hrun : run S.step c es = some c') :
    Justified A (calls S c es) ∧ Recalled (calls S c es) (stages c') ∧
      K (calls S c es) c'.world (stages c') := by
  rw [← hprotocol, ← hfirst] at hprogram
  have hjustified : Justified A ([] : List (Made W ι ρ)) := fun pre m post hsplit => by
    simp at hsplit
  have hrecalled : Recalled ([] : List (Made W ι ρ)) (stages c) := fun j own hj => by
    rw [stages, hd j] at hj
    cases hj
  have hdisciplined : S.Disciplined c := fun j t ht => by
    rw [hd j] at ht
    cases ht
  suffices hall : S.Disciplined c' ∧ Justified A ([] ++ trace S.step (made S) c es) ∧
      Recalled ([] ++ trace S.step (made S) c es) (stages c') ∧
      K ([] ++ trace S.step (made S) c es) c'.world (stages c') from hall.2
  refine run_history_along (I := fun h c => S.Disciplined c ∧ Justified A h ∧
    Recalled h (stages c) ∧ K h c.world (stages c)) ?_
    ⟨hdisciplined, hjustified, hrecalled, hK⟩ hC hrun
  rintro h c e c' ⟨hd, hj, hr, hK⟩ hC hstep
  refine ⟨step_disciplined hprogram hd hstep, ?_⟩
  cases e with
  | start j a =>
    obtain ⟨hfree, rfl⟩ := step_start.mp hstep
    rw [stages_update, Option.map_some, hfirst]
    change Justified A (h ++ []) ∧ Recalled (h ++ []) _ ∧ K (h ++ []) _ _
    rw [List.append_nil]
    exact ⟨hj, hr.start, hstart _ _ _ j hK (by rw [stages, hfree]; rfl)⟩
  | advance j o =>
    obtain ⟨own, i, k, ht, rfl⟩ := step_advance.mp hstep
    have hallowed := (hd j _ ht).1
    rw [hprotocol] at hallowed
    rw [stages_update, Option.map_some, hprotocol]
    have hmade : made S c (.advance j o) = some ⟨c.world, i, (S.serve c.world i o).1⟩ := by
      simp only [made, ht]
    rw [hmade, Option.toList_some]
    have hown := hr j own (stages_eq ht)
    exact ⟨hj.append hown hallowed, hr.update hown,
      hcall h c j o own i hr hK (stages_eq ht) (pending_eq ht) hallowed hC⟩
  | stop j =>
    obtain ⟨-, rfl⟩ := step_stop.mp hstep
    rw [stages_update]
    change Justified A (h ++ []) ∧ Recalled (h ++ []) _ ∧ K (h ++ []) _ _
    rw [List.append_nil]
    exact ⟨hj, hr.stop, hstop _ _ _ j hK⟩
  | outside d =>
    obtain ⟨w, hw, rfl⟩ := step_outside.mp hstep
    change Justified A (h ++ []) ∧ Recalled (h ++ []) _ ∧ K (h ++ []) _ _
    rw [List.append_nil]
    exact ⟨hj, hr, houtside h c d w hK hC hw⟩

end Livora.CallTraces
