import Mathlib.Logic.Function.Basic
import Mathlib.Tactic.Common

/-! Programs whose only effects are calls of outside operations. A program is the
tree of its calls, branching on the replies; an action is a program whose calls
may also throw. A protocol says which calls are allowed at each stage of a
program and how a reply moves the stage. A pool runs any number of programs
against one world, one call at a time in any order. -/

namespace Livora.EffectPrograms

universe u v w

inductive Prog (ι : Type u) (ρ : ι → Type v) (α : Type w) : Type (max u v w) where
  | done (a : α)
  | call (i : ι) (k : ρ i → Prog ι ρ α)

namespace Prog

variable {ι : Type u} {ρ : ι → Type v} {α β : Type w}

def bind : Prog ι ρ α → (α → Prog ι ρ β) → Prog ι ρ β
  | .done a, f => f a
  | .call i k, f => .call i fun r => (k r).bind f

instance : Monad (Prog ι ρ) where
  pure := .done
  bind := .bind

/-- The program run alone, `serve` answering its calls. -/
def run {W : Type*} (serve : W → (i : ι) → ρ i × W) : W → Prog ι ρ α → α × W
  | s, .done a => (a, s)
  | s, .call i k => run serve (serve s i).2 (k (serve s i).1)

@[simp] theorem run_pure {W : Type*} (serve : W → (i : ι) → ρ i × W) (s : W) (a : α) :
    run serve s (pure a : Prog ι ρ α) = (a, s) := rfl

@[simp] theorem run_bind {W : Type*} (serve : W → (i : ι) → ρ i × W) (s : W) (p : Prog ι ρ α)
    (f : α → Prog ι ρ β) :
    run serve s (p >>= f) = run serve (run serve s p).2 (f (run serve s p).1) := by
  induction p generalizing s with
  | done a => rfl
  | call i k ih => exact ih _ _

/-- Every call of the program satisfies `p`. -/
def Calls (p : ι → Prop) : Prog ι ρ α → Prop
  | .done _ => True
  | .call i k => p i ∧ ∀ r, (k r).Calls p

theorem Calls.mono {p q : ι → Prop} (hpq : ∀ i, p i → q i) {a : Prog ι ρ α} (h : a.Calls p) :
    a.Calls q := by
  induction a with
  | done x => trivial
  | call i k ih => exact ⟨hpq i h.1, fun r => ih r (h.2 r)⟩

theorem calls_bind {p : ι → Prop} {a : Prog ι ρ α} {f : α → Prog ι ρ β} (ha : a.Calls p)
    (hf : ∀ x, (f x).Calls p) : (a >>= f).Calls p := by
  induction a with
  | done x => exact hf x
  | call i k ih => exact ⟨ha.1, fun r => ih r (ha.2 r)⟩

/-- What every call preserves, the program preserves. -/
theorem Calls.frame {W : Type*} {serve : W → (i : ι) → ρ i × W} {p : ι → Prop}
    {R : W → W → Prop} (hrefl : ∀ s, R s s) (htrans : ∀ s t u, R s t → R t u → R s u)
    (hserve : ∀ s i, p i → R s (serve s i).2) {a : Prog ι ρ α} (h : a.Calls p) (s : W) :
    R s (run serve s a).2 := by
  induction a generalizing s with
  | done x => exact hrefl s
  | call i k ih => exact htrans _ _ _ (hserve s i h.1) (ih _ (h.2 _) _)

end Prog

/-! ### Protocols -/

structure Protocol (σ : Type*) (ι : Type u) (ρ : ι → Type v) where
  Allowed : σ → ι → Prop
  next : σ → (i : ι) → ρ i → σ

section Protocols

variable {σ : Type*} {ι : Type u} {ρ : ι → Type v} {α β : Type w} {P : Protocol σ ι ρ}

/-- From stage `s` on the program makes only allowed calls and ends as `Q` says. -/
def Keeps (P : Protocol σ ι ρ) (Q : σ → α → Prop) : σ → Prog ι ρ α → Prop
  | s, .done a => Q s a
  | s, .call i k => P.Allowed s i ∧ ∀ r, Keeps P Q (P.next s i r) (k r)

variable {Q Q' : σ → α → Prop} {R : σ → β → Prop} {s : σ}

@[simp] theorem keeps_pure {a : α} : Keeps P Q s (pure a : Prog ι ρ α) ↔ Q s a := Iff.rfl

theorem Keeps.mono (hQ : ∀ t a, Q t a → Q' t a) {p : Prog ι ρ α} (h : Keeps P Q s p) :
    Keeps P Q' s p := by
  induction p generalizing s with
  | done a => exact hQ s a h
  | call i k ih => exact ⟨h.1, fun r => ih r (h.2 r)⟩

@[simp] theorem keeps_bind {p : Prog ι ρ α} {f : α → Prog ι ρ β} :
    Keeps P R s (p >>= f) ↔ Keeps P (fun t a => Keeps P R t (f a)) s p := by
  induction p generalizing s with
  | done a => rfl
  | call i k ih => exact and_congr_right fun _ => forall_congr' fun r => ih r

theorem keeps_free (h : ∀ s i, P.Allowed s i) (p : Prog ι ρ α) (s : σ) :
    Keeps P (fun _ _ => True) s p := by
  induction p generalizing s with
  | done x => trivial
  | call i k ih => exact ⟨h s i, fun r => ih r _⟩

theorem keeps_of_allowed {p : ι → Prop} (hp : ∀ s i, p i → P.Allowed s i) {a : Prog ι ρ α}
    (h : a.Calls p) :
    Keeps P (fun _ _ => True) s a := by
  induction a generalizing s with
  | done x => trivial
  | call i k ih => exact ⟨hp s i h.1, fun r => ih r (h.2 r)⟩

/-- The stages of a protocol, under a condition of its own. -/
def Protocol.under (P : Protocol σ ι ρ) (A : σ → ι → Prop) : Protocol σ ι ρ where
  Allowed := A
  next := P.next

/-- What is shown under two conditions apart is kept under both. -/
theorem Keeps.both {A B : σ → ι → Prop} {a : Prog ι ρ α} (hA : Keeps (P.under A) Q s a)
    (hB : Keeps (P.under B) Q' s a) :
    Keeps (P.under fun s i => A s i ∧ B s i) (fun t x => Q t x ∧ Q' t x) s a := by
  induction a generalizing s with
  | done x => exact ⟨hA, hB⟩
  | call i k ih => exact ⟨⟨hA.1, hB.1⟩, fun r => ih r (hA.2 r) (hB.2 r)⟩

theorem keeps_of_calls {p : ι → Prop} (hp : ∀ i, p i → P.Allowed s i ∧ ∀ r, P.next s i r = s)
    {a : Prog ι ρ α} (h : a.Calls p) : Keeps P (fun t _ => t = s) s a := by
  induction a with
  | done x => rfl
  | call i k ih =>
    obtain ⟨hallowed, hnext⟩ := hp i h.1
    refine ⟨hallowed, fun r => ?_⟩
    rw [hnext r]
    exact ih r (h.2 r)

/-- What every allowed call keeps of stage and world holds where the program ends. -/
theorem Keeps.run {W : Type*} {serve : W → (i : ι) → ρ i × W} {I : σ → W → Prop}
    (hstep : ∀ s w i, I s w → P.Allowed s i → I (P.next s i (serve w i).1) (serve w i).2)
    {p : Prog ι ρ α} {w : W} (h : Keeps P Q s p) (hI : I s w) :
    ∃ t, I t (p.run serve w).2 ∧ Q t (p.run serve w).1 := by
  induction p generalizing s w with
  | done a => exact ⟨s, hI, h⟩
  | call i k ih => exact ih _ (h.2 _) (hstep s w i hI h.1)

end Protocols

/-! ### Actions -/

/-- Programs whose calls reply or throw, and which return or throw themselves. -/
abbrev Action (ι : Type u) (ρ : ι → Type u) (ε : Type u) (α : Type u) :=
  ExceptT ε (Prog ι fun i => Except ε (ρ i)) α

namespace Action

variable {ι : Type u} {ρ : ι → Type u} {ε α β : Type u}

def perform (i : ι) : Action ι ρ ε (ρ i) := ExceptT.mk (.call i .done)

/-- `try { body } catch { fallback }` -/
def recover (body : Action ι ρ ε α) (fallback : α) : Action ι ρ ε α :=
  ExceptT.mk do
    match ← body.run with
    | .ok a => pure (.ok a)
    | .error _ => pure (.ok fallback)

/-- `try { body } catch (e) { handler(e) }` -/
def rescue (body : Action ι ρ ε α) (handler : ε → Action ι ρ ε α) : Action ι ρ ε α :=
  ExceptT.mk do
    match ← body.run with
    | .ok a => pure (.ok a)
    | .error e => (handler e).run

/-- `try { body } finally { last }`: what `last` throws replaces the outcome of the body. -/
def ensuring (body : Action ι ρ ε α) (last : Action ι ρ ε PUnit) : Action ι ρ ε α :=
  ExceptT.mk do
    let outcome ← body.run
    match ← last.run with
    | .ok _ => pure outcome
    | .error e => pure (.error e)

section Calling

variable {p : ι → Prop}

/-- Every call of the action satisfies `p`. -/
def Only (p : ι → Prop) (a : Action ι ρ ε α) : Prop := a.run.Calls p

theorem only_pure (a : α) : Only p (pure a : Action ι ρ ε α) := trivial

theorem only_throw (e : ε) : Only p (throw e : Action ι ρ ε α) := trivial

theorem only_perform {i : ι} (h : p i) : Only p (perform i : Action ι ρ ε (ρ i)) :=
  ⟨h, fun _ => trivial⟩

theorem only_bind {a : Action ι ρ ε α} {f : α → Action ι ρ ε β} (ha : Only p a)
    (hf : ∀ x, Only p (f x)) : Only p (a >>= f) := by
  unfold Only
  rw [ExceptT.run_bind]
  refine Prog.calls_bind ha fun x => ?_
  cases x with
  | ok x => exact hf x
  | error e => trivial

theorem only_recover {a : Action ι ρ ε α} {fallback : α} (ha : Only p a) :
    Only p (recover a fallback) :=
  Prog.calls_bind ha fun x => by cases x <;> trivial

theorem only_rescue {a : Action ι ρ ε α} {handler : ε → Action ι ρ ε α} (ha : Only p a)
    (hhandler : ∀ e, Only p (handler e)) : Only p (rescue a handler) :=
  Prog.calls_bind ha fun x => by
    cases x with
    | ok x => trivial
    | error e => exact hhandler e

theorem Only.mono {q : ι → Prop} (hpq : ∀ i, p i → q i) {a : Action ι ρ ε α} (h : Only p a) :
    Only q a :=
  Prog.Calls.mono hpq h

end Calling

section Running

variable {W : Type*} {serve : W → (i : ι) → Except ε (ρ i) × W} {s : W}

def exec (serve : W → (i : ι) → Except ε (ρ i) × W) (s : W) (a : Action ι ρ ε α) :
    Except ε α × W :=
  Prog.run serve s a.run

@[simp] theorem exec_pure {a : α} : exec serve s (pure a) = (.ok a, s) := rfl

@[simp] theorem exec_throw {e : ε} : exec serve s (throw e : Action ι ρ ε α) = (.error e, s) := rfl

@[simp] theorem exec_perform {i : ι} : exec serve s (perform i) = serve s i := rfl

theorem Only.frame {p : ι → Prop} {R : W → W → Prop} (hrefl : ∀ s, R s s)
    (htrans : ∀ s t u, R s t → R t u → R s u) (hserve : ∀ s i, p i → R s (serve s i).2)
    {a : Action ι ρ ε α} (h : Only p a) (s : W) : R s (exec serve s a).2 :=
  Prog.Calls.frame hrefl htrans hserve h s

theorem Only.exec_world {p : ι → Prop} (hs : ∀ i, p i → (serve s i).2 = s)
    {a : Action ι ρ ε α} (h : Only p a) : (exec serve s a).2 = s := by
  have hframe : s = s → (exec serve s a).2 = s := Prog.Calls.frame (R := fun t u => t = s → u = s)
    (fun _ h => h) (fun _ _ _ h h' hs => h' (h hs)) (p := p)
    (fun t i hi ht => by rw [ht]; exact hs i hi) h s
  exact hframe rfl

theorem exec_bind {a : Action ι ρ ε α} {f : α → Action ι ρ ε β} :
    exec serve s (a >>= f) =
      match exec serve s a with
      | (.ok x, t) => exec serve t (f x)
      | (.error e, t) => (.error e, t) := by
  unfold exec
  rw [ExceptT.run_bind, Prog.run_bind]
  rcases Prog.run serve s a.run with ⟨_ | _, t⟩ <;> rfl

theorem exec_bind_pure {a : Action ι ρ ε α} {f : α → β} :
    (exec serve s (a >>= fun x => pure (f x))).2 = (exec serve s a).2 := by
  rw [exec_bind]
  rcases exec serve s a with ⟨_ | _, t⟩ <;> rfl

theorem exec_bind_of_ok {a : Action ι ρ ε α} {f : α → Action ι ρ ε β} {x : α} {t : W}
    (h : exec serve s a = (.ok x, t)) : exec serve s (a >>= f) = exec serve t (f x) := by
  rw [exec_bind, h]

theorem exec_bind_of_error {a : Action ι ρ ε α} {f : α → Action ι ρ ε β} {e : ε} {t : W}
    (h : exec serve s a = (.error e, t)) : exec serve s (a >>= f) = (.error e, t) := by
  rw [exec_bind, h]

theorem exec_bind_eq_ok {a : Action ι ρ ε α} {f : α → Action ι ρ ε β} {y : β} :
    (exec serve s (a >>= f)).1 = .ok y ↔ ∃ x, (exec serve s a).1 = .ok x ∧
      (exec serve (exec serve s a).2 (f x)).1 = .ok y := by
  rw [exec_bind]
  rcases exec serve s a with ⟨_ | _, t⟩ <;> simp

theorem exec_recover {a : Action ι ρ ε α} {fallback : α} :
    exec serve s (recover a fallback) =
      match exec serve s a with
      | (.ok x, t) => (.ok x, t)
      | (.error _, t) => (.ok fallback, t) := by
  change Prog.run serve s (a.run >>= _) = _
  rw [Prog.run_bind]
  unfold exec
  rcases Prog.run serve s a.run with ⟨_ | _, t⟩ <;> rfl

theorem exec_ensuring {a : Action ι ρ ε α} {last : Action ι ρ ε PUnit} :
    exec serve s (ensuring a last) =
      match exec serve (exec serve s a).2 last with
      | (.ok _, t) => ((exec serve s a).1, t)
      | (.error e, t) => (.error e, t) := by
  change Prog.run serve s (a.run >>= fun x => last.run >>= _) = _
  rw [Prog.run_bind, Prog.run_bind]
  unfold exec
  rcases Prog.run serve (Prog.run serve s a.run).2 last.run with ⟨_ | _, t⟩ <;> rfl

theorem exec_ensuring_error {a : Action ι ρ ε α} (last : Action ι ρ ε PUnit) {e : ε} {t : W}
    (h : exec serve s a = (.error e, t)) :
    ∃ e', exec serve s (ensuring a last) = (.error e', (exec serve t last).2) := by
  rw [exec_ensuring, h]
  rcases exec serve t last with ⟨e' | _, u⟩
  · exact ⟨e', rfl⟩
  · exact ⟨e, rfl⟩

end Running

section Keeping

variable {σ : Type*} {P : Protocol σ ι fun i => Except ε (ρ i)} {s : σ}
  {Q : σ → Except ε α → Prop} {R : σ → Except ε β → Prop}

/-- `Keeps` for an action. -/
def Obeys (P : Protocol σ ι fun i => Except ε (ρ i)) (Q : σ → Except ε α → Prop) (s : σ)
    (a : Action ι ρ ε α) : Prop :=
  Keeps P Q s a.run

@[simp] theorem obeys_pure {a : α} :
    Obeys P Q s (pure a : Action ι ρ ε α) ↔ Q s (.ok a) := Iff.rfl

@[simp] theorem obeys_throw {e : ε} :
    Obeys P Q s (throw e : Action ι ρ ε α) ↔ Q s (.error e) := Iff.rfl

theorem Only.obeys {p : ι → Prop} (hp : ∀ i, p i → P.Allowed s i ∧ ∀ r, P.next s i r = s)
    {a : Action ι ρ ε α} (h : Only p a) : Obeys P (fun t _ => t = s) s a :=
  keeps_of_calls hp h

theorem Only.follows_of_allowed {p : ι → Prop} (hp : ∀ s i, p i → P.Allowed s i)
    {a : Action ι ρ ε α} (h : Only p a) : Obeys P (fun _ _ => True) s a :=
  keeps_of_allowed hp h

@[simp] theorem obeys_perform {i : ι} {Q : σ → Except ε (ρ i) → Prop} :
    Obeys P Q s (perform i : Action ι ρ ε (ρ i)) ↔ P.Allowed s i ∧
      (∀ a, Q (P.next s i (.ok a)) (.ok a)) ∧ ∀ e, Q (P.next s i (.error e)) (.error e) := by
  constructor
  · rintro ⟨hallowed, hnext⟩
    exact ⟨hallowed, fun a => hnext (.ok a), fun e => hnext (.error e)⟩
  · rintro ⟨hallowed, hok, herror⟩
    refine ⟨hallowed, fun r => ?_⟩
    cases r with
    | ok a => exact hok a
    | error e => exact herror e

theorem Obeys.mono {Q' : σ → Except ε α → Prop} {a : Action ι ρ ε α} (h : Obeys P Q s a)
    (hok : ∀ t x, Q t (.ok x) → Q' t (.ok x)) (herror : ∀ t e, Q t (.error e) → Q' t (.error e)) :
    Obeys P Q' s a := by
  refine Keeps.mono (fun t x hx => ?_) h
  cases x with
  | ok x => exact hok t x hx
  | error e => exact herror t e hx

@[simp] theorem obeys_bind {a : Action ι ρ ε α} {f : α → Action ι ρ ε β} :
    Obeys P R s (a >>= f) ↔ Obeys P (fun t x => match x with
      | .ok x => Obeys P R t (f x)
      | .error e => R t (.error e)) s a := by
  unfold Obeys
  rw [ExceptT.run_bind, keeps_bind]
  constructor <;> refine Keeps.mono fun t x hx => ?_ <;> cases x <;> exact hx

theorem obeys_call {i : ι} {f : ρ i → Action ι ρ ε β} :
    Obeys P R s (perform i >>= f) ↔ P.Allowed s i ∧
      (∀ x, Obeys P R (P.next s i (.ok x)) (f x)) ∧ ∀ e, R (P.next s i (.error e)) (.error e) := by
  rw [obeys_bind, obeys_perform]

@[simp] theorem obeys_recover {a : Action ι ρ ε α} {fallback : α} :
    Obeys P Q s (recover a fallback) ↔ Obeys P (fun t x => match x with
      | .ok x => Q t (.ok x)
      | .error _ => Q t (.ok fallback)) s a := by
  change Keeps P Q s (a.run >>= _) ↔ _
  rw [keeps_bind]
  constructor <;> refine Keeps.mono fun t x hx => ?_ <;> cases x <;> exact hx

@[simp] theorem obeys_rescue {a : Action ι ρ ε α} {handler : ε → Action ι ρ ε α} :
    Obeys P Q s (rescue a handler) ↔ Obeys P (fun t x => match x with
      | .ok x => Q t (.ok x)
      | .error e => Obeys P Q t (handler e)) s a := by
  change Keeps P Q s (a.run >>= _) ↔ _
  rw [keeps_bind]
  constructor <;> refine Keeps.mono fun t x hx => ?_ <;> cases x <;> exact hx

@[simp] theorem obeys_ensuring {a : Action ι ρ ε α} {last : Action ι ρ ε PUnit} :
    Obeys P Q s (ensuring a last) ↔ Obeys P (fun t x => Obeys P (fun t' y => match y with
      | .ok _ => Q t' x
      | .error e => Q t' (.error e)) t last) s a := by
  change Keeps P Q s (a.run >>= fun x => last.run >>= _) ↔ _
  rw [keeps_bind]
  constructor <;> refine Keeps.mono fun t x hx => ?_
  · rw [keeps_bind] at hx
    refine Keeps.mono (fun t' y hy => ?_) hx
    cases y <;> exact hy
  · rw [keeps_bind]
    refine Keeps.mono (fun t' y hy => ?_) hx
    cases y <;> exact hy

/-! ### Keeping to the protocol, whatever the outcome -/

def Follows (P : Protocol σ ι fun i => Except ε (ρ i)) (s : σ) (a : Action ι ρ ε α) : Prop :=
  Obeys P (fun _ _ => True) s a

theorem Follows.exec {W : Type*} {serve : W → (i : ι) → Except ε (ρ i) × W} {I : σ → W → Prop}
    (hstep : ∀ s w i, I s w → P.Allowed s i → I (P.next s i (serve w i).1) (serve w i).2)
    {a : Action ι ρ ε α} {w : W} (h : Follows P s a) (hI : I s w) : ∃ t, I t (exec serve w a).2 :=
  have ⟨t, ht, _⟩ := Keeps.run hstep h hI
  ⟨t, ht⟩

theorem follows_pure (a : α) : Follows P s (pure a : Action ι ρ ε α) := trivial

theorem follows_throw (e : ε) : Follows P s (throw e : Action ι ρ ε α) := trivial

theorem follows_perform {i : ι} (h : P.Allowed s i) :
    Follows P s (perform i : Action ι ρ ε (ρ i)) :=
  ⟨h, fun _ => trivial⟩

theorem follows_call {i : ι} {f : ρ i → Action ι ρ ε β} (h : P.Allowed s i)
    (hf : ∀ x, Follows P (P.next s i (.ok x)) (f x)) : Follows P s (perform i >>= f) :=
  obeys_call.mpr ⟨h, hf, fun _ => trivial⟩

theorem follows_bind {a : Action ι ρ ε α} {f : α → Action ι ρ ε β} (ha : Follows P s a)
    (hf : ∀ x t, Follows P t (f x)) : Follows P s (a >>= f) :=
  obeys_bind.mpr (ha.mono (fun t x _ => hf x t) fun _ _ _ => trivial)

theorem follows_rescue {a : Action ι ρ ε α} {handler : ε → Action ι ρ ε α} (ha : Follows P s a)
    (hhandler : ∀ e t, Follows P t (handler e)) : Follows P s (rescue a handler) :=
  obeys_rescue.mpr (ha.mono (fun _ _ _ => trivial) fun t e _ => hhandler e t)

theorem follows_recover {a : Action ι ρ ε α} {fallback : α} (ha : Follows P s a) :
    Follows P s (recover a fallback) :=
  obeys_recover.mpr (ha.mono (fun _ _ _ => trivial) fun _ _ _ => trivial)

/-- A call that has to answer, and what is done at the stage it leads to. -/
theorem follows_after {a : Action ι ρ ε α} {f : α → Action ι ρ ε β} {Q : σ → α → Prop}
    (ha : Obeys P (fun t x => ∀ y, x = .ok y → Q t y) s a)
    (hf : ∀ x t, Q t x → Follows P t (f x)) : Follows P s (a >>= f) :=
  obeys_bind.mpr (ha.mono (fun t x hx => hf x t (hx x rfl)) fun _ _ _ => trivial)

end Keeping

end Action

end Livora.EffectPrograms
