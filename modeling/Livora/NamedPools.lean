import Livora.ProgramPools

/-! Pools whose programs run in the name of their caller: every call carries the name,
and so does the end. A protocol that sees the names can be laid over any system; what
is known of the system without the names stays true of it. -/

namespace Livora.NamedPools

open EffectPrograms ProgramPools TransitionRuns

section Programs

variable {κ ι α σ τ : Type*} {ρ : ι → Type*}

/-- The program run in the name of `a`. -/
def inName (a : κ) : Prog ι ρ α → Prog (κ × ι) (fun i => ρ i.2) (κ × α)
  | .done x => .done (a, x)
  | .call i k => .call (a, i) fun r => inName a (k r)

def unnamed : Prog (κ × ι) (fun i => ρ i.2) (κ × α) → Prog ι ρ α
  | .done x => .done x.2
  | .call i k => .call i.2 fun r => unnamed (k r)

@[simp] theorem unnamed_inName (a : κ) (p : Prog ι ρ α) : unnamed (inName a p) = p := by
  induction p with
  | done x => rfl
  | call i k ih => exact congrArg (Prog.call i) (funext ih)

/-- What a protocol asks of the programs of one caller. -/
def under (P : Protocol τ (κ × ι) fun i => ρ i.2) (a : κ) : Protocol τ ι ρ where
  Allowed t i := P.Allowed t (a, i)
  next t i r := P.next t (a, i) r

variable {P : Protocol τ (κ × ι) fun i => ρ i.2} {Q : τ → κ × α → Prop} {t : τ} {a : κ}

theorem keeps_inName {p : Prog ι ρ α} :
    Keeps P Q t (inName a p) ↔ Keeps (under P a) (fun t x => Q t (a, x)) t p := by
  induction p generalizing t with
  | done x => rfl
  | call i k ih => exact and_congr_right fun _ => forall_congr' fun r => ih r

theorem keeps_of_stageless {P : Protocol Unit ι ρ} {P' : Protocol τ ι ρ} {R : α → Prop}
    {Q : τ → α → Prop} (hallowed : ∀ t i, P.Allowed () i → P'.Allowed t i)
    (hQ : ∀ t x, R x → Q t x) {p : Prog ι ρ α} (h : Keeps P (fun _ x => R x) () p) (t : τ) :
    Keeps P' Q t p := by
  induction p generalizing t with
  | done x => exact hQ t x h
  | call i k ih => exact ⟨hallowed t i h.1, fun r => ih r (h.2 r) _⟩

end Programs

/-! ### Systems -/

open ProgramPools.System

variable {κ W Ω Δ σ τ ι : Type*} {ρ : ι → Type*} {α : Type*}

/-- The system with its callers named, under the protocol `P` beside its own. -/
def named (S : System κ W Ω Δ σ ι ρ α) (P : Protocol τ (κ × ι) fun i => ρ i.2) (first : τ) :
    System κ W Ω Δ (σ × τ) (κ × ι) (fun i => ρ i.2) (κ × α) where
  program a := inName a (S.program a)
  serve w i o := S.serve w i.2 o
  outside := S.outside
  protocol :=
    { Allowed := fun s i => P.Allowed s.2 i
      next := fun s i r => (S.protocol.next s.1 i.2 r, P.next s.2 i r) }
  first := (S.first, first)

theorem keeps_beside {S : System κ W Ω Δ σ ι ρ α} {P : Protocol τ (κ × ι) fun i => ρ i.2}
    {first : τ} {Q : τ → κ × α → Prop} {s : σ} {t : τ}
    {p : Prog (κ × ι) (fun i => ρ i.2) (κ × α)} (h : Keeps P Q t p) :
    Keeps (named S P first).protocol (fun s x => Q s.2 x) (s, t) p := by
  induction p generalizing s t with
  | done x => exact h
  | call i k ih => exact ⟨h.1, fun r => ih r (h.2 r)⟩

def forgetTask (t : Task (σ × τ) (κ × ι) (fun i => ρ i.2) (κ × α)) : Task σ ι ρ α :=
  ⟨t.stage.1, unnamed t.rest⟩

def forget (c : Pool W (Task (σ × τ) (κ × ι) (fun i => ρ i.2) (κ × α))) : Pool W (Task σ ι ρ α) :=
  ⟨c.world, fun j => (c.tasks j).map forgetTask⟩

variable {S : System κ W Ω Δ σ ι ρ α} {P : Protocol τ (κ × ι) fun i => ρ i.2} {first : τ}
  {c c' : Pool W (Task (σ × τ) (κ × ι) (fun i => ρ i.2) (κ × α))} {e : Event κ Ω Δ} {j : ℕ}

theorem forget_update {w : W} {t : Option (Task (σ × τ) (κ × ι) (fun i => ρ i.2) (κ × α))} :
    forget ⟨w, Function.update c.tasks j t⟩ =
      ⟨w, Function.update (forget c).tasks j (t.map forgetTask)⟩ := by
  refine congrArg (Pool.mk w) (funext fun i => ?_)
  by_cases hij : i = j
  · subst hij
    simp
  · simp [hij, forget]

theorem step_forget (h : (named S P first).step c e = some c') :
    S.step (forget c) e = some (forget c') := by
  cases e with
  | start j a =>
    obtain ⟨hj, rfl⟩ := step_start.mp h
    refine step_start.mpr ⟨?_, ?_⟩
    · simp [forget, hj]
    · rw [forget_update]
      simp [forget, forgetTask, named]
  | advance j o =>
    obtain ⟨s, i, k, ht, rfl⟩ := step_advance.mp h
    refine step_advance.mpr ⟨s.1, i.2, fun r => unnamed (k r), ?_, ?_⟩
    · simp [forget, ht, forgetTask, unnamed]
    · rw [forget_update]
      rfl
  | stop j =>
    obtain ⟨⟨t, ht⟩, rfl⟩ := step_stop.mp h
    refine step_stop.mpr ⟨⟨forgetTask t, ?_⟩, ?_⟩
    · simp [forget, ht]
    · rw [forget_update]
      rfl
  | outside d =>
    obtain ⟨w, hw, rfl⟩ := step_outside.mp h
    exact step_outside.mpr ⟨w, hw, rfl⟩

end Livora.NamedPools
