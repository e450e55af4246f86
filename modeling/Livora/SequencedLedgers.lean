import Mathlib.Data.List.Perm.Basic
import Mathlib.Logic.Function.Basic
import Mathlib.Order.Nat
import Mathlib.Tactic.Common

/-! Transactions guarded by counters. Whoever submits a transaction first reads a
counter and puts the number into the transaction, which the ledger applies only
while the counter still shows that number; applying it moves the counter on. A
submission may also stay in flight and be applied or dropped later. The counter
stops two submissions with one number, and nothing else. -/

namespace Livora.SequencedLedgers

structure Ticket (κ : Type*) where
  account : κ
  number : ℕ
deriving DecidableEq

structure Submission (κ τ : Type*) where
  movement : τ
  ticket : Ticket κ
  applied : Bool
deriving DecidableEq

structure Ledger (κ τ : Type*) where
  counter : κ → ℕ
  submissions : List (Submission κ τ)

namespace Ledger

variable {κ τ : Type*}

def Live (l : Ledger κ τ) (t : Ticket κ) : Prop := l.counter t.account = t.number

instance (l : Ledger κ τ) (t : Ticket κ) : Decidable (l.Live t) :=
  inferInstanceAs (Decidable (_ = _))

def post (l : Ledger κ τ) (m : τ) (t : Ticket κ) : Ledger κ τ :=
  { l with submissions := l.submissions ++ [⟨m, t, false⟩] }

def applied (p : τ → Bool) (l : Ledger κ τ) : ℕ :=
  l.submissions.countP fun s => p s.movement && s.applied

/-- A ticket of the kind that is in flight, or held by somebody who has not submitted yet. -/
def Outstanding (p : τ → Bool) (l : Ledger κ τ) (held : ℕ → Option (τ × Ticket κ))
    (t : Ticket κ) : Prop :=
  (∃ s ∈ l.submissions, p s.movement = true ∧ s.applied = false ∧ s.ticket = t) ∨
    ∃ j m, held j = some (m, t) ∧ p m = true

/-- Nothing of the kind has been applied, and what may still be applied has the same counter. -/
def Unspent (p : τ → Bool) (l : Ledger κ τ) (held : ℕ → Option (τ × Ticket κ)) (k : κ) : Prop :=
  l.applied p = 0 ∧ ∀ t, l.Outstanding p held t → l.Live t → t.account = k

/-- One movement of the kind is applied at most: once one is, no outstanding ticket is live, and
before that the live ones share a counter. -/
structure Guarded (p : τ → Bool) (l : Ledger κ τ) (held : ℕ → Option (τ × Ticket κ)) : Prop where
  past : ∀ t, l.Outstanding p held t → t.number ≤ l.counter t.account
  spent : 0 < l.applied p → ∀ t, l.Outstanding p held t → ¬ l.Live t
  shared : ∀ t u, l.Outstanding p held t → l.Outstanding p held u → l.Live t → l.Live u →
    t.account = u.account
  single : l.applied p ≤ 1

variable {p : τ → Bool} {l l' : Ledger κ τ} {held held' : ℕ → Option (τ × Ticket κ)} {m : τ}
  {t : Ticket κ}

/-- `Unspent` as a test, where only the first `n` places hold a ticket. -/
def UnspentBelow (n : ℕ) (p : τ → Bool) (l : Ledger κ τ) (held : ℕ → Option (τ × Ticket κ))
    (k : κ) : Prop :=
  l.applied p = 0 ∧
    (∀ s ∈ l.submissions, p s.movement = true → s.applied = false → l.Live s.ticket →
      s.ticket.account = k) ∧
    ∀ j < n, ∀ u ∈ held j, p u.1 = true → l.Live u.2 → u.2.account = k

instance [DecidableEq κ] (n : ℕ) (l : Ledger κ τ) (k : κ) :
    Decidable (l.UnspentBelow n p held k) :=
  inferInstanceAs (Decidable (_ ∧ _ ∧ _))

theorem unspent_of_below {n : ℕ} {k : κ} (hheld : ∀ j, n ≤ j → held j = none)
    (h : l.UnspentBelow n p held k) : l.Unspent p held k := by
  obtain ⟨hzero, hsubmitted, hholders⟩ := h
  refine ⟨hzero, ?_⟩
  rintro t (⟨s, hs, hp, hflight, rfl⟩ | ⟨j, m, hj, hp⟩) hlive
  · exact hsubmitted s hs hp hflight hlive
  · refine hholders j (Nat.lt_of_not_le fun hn => ?_) (m, t) hj hp hlive
    rw [hheld j hn] at hj
    cases hj

/-! ### What keeps the guard -/

theorem Guarded.shrink (h : l.Guarded p held) (hcounter : l'.counter = l.counter)
    (happlied : l'.applied p = l.applied p)
    (hout : ∀ t, l'.Outstanding p held' t → l.Outstanding p held t) : l'.Guarded p held' := by
  have hlive : ∀ t, l'.Live t ↔ l.Live t := fun t => by unfold Live; rw [hcounter]
  constructor
  · intro t ht
    rw [hcounter]
    exact h.past t (hout t ht)
  · intro hpos t ht
    rw [hlive]
    exact h.spent (happlied ▸ hpos) t (hout t ht)
  · intro t u ht hu htl hul
    exact h.shared t u (hout t ht) (hout u hu) ((hlive t).mp htl) ((hlive u).mp hul)
  · exact happlied ▸ h.single

theorem Guarded.hold (h : l.Guarded p held) {k : κ} {n : ℕ} (hn : n ≤ l.counter k)
    (hunspent : p m = true → n = l.counter k → l.Unspent p held k) {j : ℕ} :
    l.Guarded p (Function.update held j (some (m, ⟨k, n⟩))) := by
  have hout : ∀ t, l.Outstanding p (Function.update held j (some (m, ⟨k, n⟩))) t →
      l.Outstanding p held t ∨ (t = ⟨k, n⟩ ∧ p m = true) := by
    rintro t (hs | ⟨i, m', hi, hp⟩)
    · exact .inl (.inl hs)
    · by_cases hij : i = j
      · subst hij
        rw [Function.update_self] at hi
        cases hi
        exact .inr ⟨rfl, hp⟩
      · rw [Function.update_of_ne hij] at hi
        exact .inl (.inr ⟨i, m', hi, hp⟩)
  constructor
  · intro t ht
    rcases hout t ht with ht | ⟨rfl, -⟩
    · exact h.past t ht
    · exact hn
  · intro hpos t ht hlive
    rcases hout t ht with ht | ⟨rfl, hp⟩
    · exact h.spent hpos t ht hlive
    · exact absurd (hunspent hp hlive.symm).1 (Nat.pos_iff_ne_zero.mp hpos)
  · intro t u ht hu htl hul
    rcases hout t ht with ht | ⟨rfl, hpt⟩ <;> rcases hout u hu with hu | ⟨rfl, hpu⟩
    · exact h.shared t u ht hu htl hul
    · exact (hunspent hpu hul.symm).2 t ht htl
    · exact ((hunspent hpt htl.symm).2 u hu hul).symm
    · rfl
  · exact h.single

theorem outstanding_of_clear (hclear : ∀ u, held' j = some u → held j = some u)
    (hother : ∀ i, i ≠ j → held' i = held i) (hsub : l'.submissions = l.submissions)
    (h : l'.Outstanding p held' t) : l.Outstanding p held t := by
  rcases h with hs | ⟨i, m, hi, hp⟩
  · exact .inl (hsub ▸ hs)
  · by_cases hij : i = j
    · subst hij
      exact .inr ⟨i, m, hclear _ hi, hp⟩
    · exact .inr ⟨i, m, (hother i hij) ▸ hi, hp⟩

theorem guarded_drop (h : l.Guarded p held) (j : ℕ) :
    l.Guarded p (Function.update held j none) :=
  h.shrink rfl rfl fun _ => outstanding_of_clear (j := j)
    (fun u hu => by rw [Function.update_self] at hu; cases hu)
    (fun _ hij => Function.update_of_ne hij _ _) rfl

theorem guarded_post (h : l.Guarded p held) {j : ℕ} (hj : held j = some (m, t)) :
    (l.post m t).Guarded p (Function.update held j none) := by
  refine h.shrink rfl (by simp [applied, post]) ?_
  rintro u (⟨s, hs, hp, hflight, rfl⟩ | ⟨i, m', hi, hp⟩)
  · rcases List.mem_append.mp hs with hs | hs
    · exact .inl ⟨s, hs, hp, hflight, rfl⟩
    · obtain rfl := List.mem_singleton.mp hs
      exact .inr ⟨j, m, hj, hp⟩
  · by_cases hij : i = j
    · subst hij
      rw [Function.update_self] at hi
      cases hi
    · rw [Function.update_of_ne hij] at hi
      exact .inr ⟨i, m', hi, hp⟩

theorem guarded_of_absent (h : ∀ s ∈ l.submissions, p s.movement = false) :
    l.Guarded p fun _ => none := by
  have hzero : l.applied p = 0 := List.countP_eq_zero.mpr fun s hs => by simp [h s hs]
  have hout : ∀ t, ¬ l.Outstanding p (fun _ => none) t := by
    rintro t (⟨s, hs, hp, -⟩ | ⟨j, m, hj, -⟩)
    · rw [h s hs] at hp
      cases hp
    · cases hj
  exact ⟨fun t ht => absurd ht (hout t), fun _ t ht => absurd ht (hout t),
    fun t _ ht => absurd ht (hout t), hzero.le.trans (Nat.zero_le 1)⟩

/-! ### Applying -/

variable [DecidableEq κ]

def advance (l : Ledger κ τ) (k : κ) : Ledger κ τ :=
  { l with counter := Function.update l.counter k (l.counter k + 1) }

/-- A transaction that is applied at once, where its number is the next one. -/
def apply (l : Ledger κ τ) (m : τ) (t : Ticket κ) : Ledger κ τ :=
  if l.Live t then
    { l.advance t.account with submissions := l.submissions ++ [⟨m, t, true⟩] }
  else l

/-- What becomes of the `n`-th submission, while it is in flight. -/
def settle (l : Ledger κ τ) (n : ℕ) (applies : Bool) : Option (Ledger κ τ) :=
  match l.submissions[n]? with
  | some ⟨m, t, false⟩ =>
    if applies then
      if l.Live t then
        some { l.advance t.account with submissions := l.submissions.set n ⟨m, t, true⟩ }
      else none
    else some { l with submissions := l.submissions.eraseIdx n }
  | _ => none

theorem advance_live (k : κ) (t : Ticket κ) (hpast : t.number ≤ l.counter t.account) :
    (l.advance k).Live t ↔ l.Live t ∧ t.account ≠ k := by
  unfold Live advance
  by_cases hk : t.account = k
  · subst hk
    simp only [Function.update_self, ne_eq, not_true_eq_false, and_false, iff_false]
    omega
  · simp [hk]

theorem advance_le (k k' : κ) : l.counter k' ≤ (l.advance k).counter k' := by
  unfold advance
  by_cases hk : k' = k
  · subst hk
    simp
  · simp [Function.update_of_ne hk]

theorem Guarded.advance (h : l.Guarded p held) (k : κ) : (l.advance k).Guarded p held := by
  have hlive : ∀ t, l.Outstanding p held t → (l.advance k).Live t → l.Live t :=
    fun t ht hl => ((advance_live k t (h.past t ht)).mp hl).1
  constructor
  · exact fun t ht => Nat.le_trans (h.past t ht) (advance_le k _)
  · exact fun hpos t ht hl => h.spent hpos t ht (hlive t ht hl)
  · exact fun t u ht hu htl hul => h.shared t u ht hu (hlive t ht htl) (hlive u hu hul)
  · exact h.single

theorem Guarded.spend (h : l.Guarded p held) (ht : p m = true → l.Outstanding p held t)
    (hlive : l.Live t) (hcounter : l'.counter = (l.advance t.account).counter)
    (happlied : l'.applied p = l.applied p + if p m then 1 else 0)
    (hout : ∀ u, l'.Outstanding p held' u → l.Outstanding p held u) : l'.Guarded p held' := by
  have hlive' : ∀ u, l'.Outstanding p held' u → l'.Live u → l.Live u ∧ u.account ≠ t.account := by
    intro u hu hl
    have hl' : (l.advance t.account).Live u := by
      unfold Live at hl ⊢
      rw [← hcounter]
      exact hl
    exact (advance_live _ u (h.past u (hout u hu))).mp hl'
  have hzero : p m = true → l.applied p = 0 := by
    intro hp
    by_contra hne
    exact h.spent (Nat.pos_of_ne_zero hne) t (ht hp) hlive
  constructor
  · intro u hu
    rw [hcounter]
    exact Nat.le_trans (h.past u (hout u hu)) (advance_le _ _)
  · intro hpos u hu hl
    obtain ⟨hul, hne⟩ := hlive' u hu hl
    cases hp : p m with
    | true => exact hne (h.shared u t (hout u hu) (ht hp) hul hlive)
    | false =>
      rw [happlied, hp] at hpos
      exact h.spent hpos u (hout u hu) hul
  · intro u v hu hv hul hvl
    exact h.shared u v (hout u hu) (hout v hv) (hlive' u hu hul).1 (hlive' v hv hvl).1
  · rw [happlied]
    cases hp : p m with
    | true => simp [hzero hp]
    | false => simpa using h.single

theorem guarded_apply (h : l.Guarded p held) {j : ℕ} (hj : held j = some (m, t)) :
    (l.apply m t).Guarded p (Function.update held j none) := by
  unfold apply
  split
  · rename_i hlive
    refine h.spend (m := m) (fun hp => .inr ⟨j, m, hj, hp⟩) hlive rfl ?_ ?_
    · cases hp : p m <;> simp [applied, hp]
    · rintro u (⟨s, hs, hp, hflight, rfl⟩ | ⟨i, m', hi, hp⟩)
      · rcases List.mem_append.mp hs with hs | hs
        · exact .inl ⟨s, hs, hp, hflight, rfl⟩
        · obtain rfl := List.mem_singleton.mp hs
          cases hflight
      · by_cases hij : i = j
        · subst hij
          rw [Function.update_self] at hi
          cases hi
        · rw [Function.update_of_ne hij] at hi
          exact .inr ⟨i, m', hi, hp⟩
  · exact guarded_drop h j

theorem guarded_settle (h : l.Guarded p held) {n : ℕ} {applies : Bool}
    (hsettle : l.settle n applies = some l') : l'.Guarded p held := by
  unfold settle at hsettle
  split at hsettle
  · rename_i m t hn
    obtain ⟨hlt, hget⟩ := List.getElem?_eq_some_iff.mp hn
    have hmem : ⟨m, t, false⟩ ∈ l.submissions := List.mem_of_getElem? hn
    cases applies with
    | true =>
      rw [if_pos rfl] at hsettle
      split at hsettle
      · rename_i hlive
        cases hsettle
        refine h.spend (m := m) (fun hp => .inl ⟨_, hmem, hp, rfl, rfl⟩) hlive rfl ?_ ?_
        · cases hp : p m <;> simp [applied, List.countP_set hlt, hget, hp]
        · rintro u (⟨s, hs, hp, hflight, rfl⟩ | hheld)
          · rcases List.mem_or_eq_of_mem_set hs with hs | rfl
            · exact .inl ⟨s, hs, hp, hflight, rfl⟩
            · cases hflight
          · exact .inr hheld
      · cases hsettle
    | false =>
      cases hsettle
      refine h.shrink rfl ?_ ?_
      · have hcount := (List.getElem_cons_eraseIdx_perm hlt).countP_eq
          fun s => p s.movement && s.applied
        simpa [applied, hget] using hcount
      · rintro u (⟨s, hs, hp, hflight, rfl⟩ | hheld)
        · exact .inl ⟨s, (List.eraseIdx_sublist _ n).subset hs, hp, hflight, rfl⟩
        · exact .inr hheld
  · cases hsettle

end Ledger

end Livora.SequencedLedgers
