import Livora.EffectPrograms

/-! Actions over two families of calls. An action over the first family is one over both,
and keeps to a protocol for both exactly where it keeps to what that asks of its own. So
does a program whose calls are made under other names. -/

namespace Livora.SummedPrograms

open EffectPrograms EffectPrograms.Action

universe u

variable {ι κ ε α : Type u} {ρ : ι → Type u} {ρ' : κ → Type u}

def liftProg {α : Type u} : Prog ι (fun i => Except ε (ρ i)) α →
    Prog (ι ⊕ κ) (fun i => Except ε (Sum.elim ρ ρ' i)) α
  | .done x => .done x
  | .call i k => .call (.inl i) fun r => liftProg (k r)

def lift (a : Action ι ρ ε α) : Action (ι ⊕ κ) (Sum.elim ρ ρ') ε α := ExceptT.mk (liftProg a.run)

variable {σ : Type*}

def left (P : Protocol σ (ι ⊕ κ) fun i => Except ε (Sum.elim ρ ρ' i)) :
    Protocol σ ι fun i => Except ε (ρ i) where
  Allowed s i := P.Allowed s (.inl i)
  next s i r := P.next s (.inl i) r

variable {P : Protocol σ (ι ⊕ κ) fun i => Except ε (Sum.elim ρ ρ' i)}
  {Q : σ → Except ε α → Prop} {s : σ}

theorem obeys_lift {a : Action ι ρ ε α} :
    Obeys P Q s (lift a : Action (ι ⊕ κ) (Sum.elim ρ ρ') ε α) ↔ Obeys (left P) Q s a := by
  change Keeps P Q s (liftProg a.run) ↔ Keeps (left P) Q s a.run
  generalize a.run = p
  induction p generalizing s with
  | done x => rfl
  | call i k ih => exact and_congr_right fun _ => forall_congr' fun r => ih r

/-! ### Calls under other names -/

section Relabelled

variable {ι κ α σ : Type*} {ρ : κ → Type*} {f : ι → κ} {P : Protocol σ κ ρ}
    {Q : σ → α → Prop} {s : σ}

def relabel (f : ι → κ) : Prog ι (fun i => ρ (f i)) α → Prog κ ρ α
  | .done x => .done x
  | .call i k => .call (f i) fun r => relabel f (k r)

def pull (f : ι → κ) (P : Protocol σ κ ρ) : Protocol σ ι fun i => ρ (f i) where
  Allowed s i := P.Allowed s (f i)
  next s i r := P.next s (f i) r

theorem keeps_relabel {p : Prog ι (fun i => ρ (f i)) α} :
    Keeps P Q s (relabel f p) ↔ Keeps (pull f P) Q s p := by
  induction p generalizing s with
  | done x => rfl
  | call i k ih => exact and_congr_right fun _ => forall_congr' fun r => ih r

theorem keeps_part {τ : Type*} {P' : Protocol τ κ ρ} (part : σ → τ)
    (hallowed : ∀ s i, P'.Allowed (part s) i → P.Allowed s i)
    (hnext : ∀ s i r, part (P.next s i r) = P'.next (part s) i r) {p : Prog κ ρ α}
    (h : Keeps P' (fun _ _ => True) (part s) p) : Keeps P (fun _ _ => True) s p := by
  induction p generalizing s with
  | done x => trivial
  | call i k ih =>
    refine ⟨hallowed s i h.1, fun r => ih r ?_⟩
    rw [hnext]
    exact h.2 r

end Relabelled

end Livora.SummedPrograms
