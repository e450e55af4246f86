import Mathlib.Data.Option.Basic
import Mathlib.Data.Set.Card
import Mathlib.Logic.Function.Basic
import Mathlib.Tactic.Common

/-! What the programs of a pool have at their stages: a view reads one thing off the stage of each
program, where there is one. A step of one program changes the view at that program only. -/

namespace Livora.StageViews

variable {σ β : Type*} {f : σ → Option β} {st : ℕ → Option σ} {i j : ℕ} {s s' : σ} {x : β}
  {t : Option σ}

def view (f : σ → Option β) (st : ℕ → Option σ) (j : ℕ) : Option β := (st j).bind f

theorem view_eq (h : st j = some s) : view f st j = f s := by
  rw [view, h, Option.bind_some]

theorem view_some : view f st j = some x ↔ ∃ s, st j = some s ∧ f s = some x :=
  Option.bind_eq_some_iff

theorem view_update :
    view f (Function.update st j t) = Function.update (view f st) j (t.bind f) := by
  funext k
  by_cases hk : k = j
  · subst hk
    simp [view]
  · simp [view, hk]

theorem view_keep (h : view f st j = t.bind f) : view f (Function.update st j t) = view f st := by
  rw [view_update, ← h, Function.update_eq_self]

/-- What is seen after a step was seen before, or is at the program that made it. -/
theorem view_cases (h : view f (Function.update st j t) i = some x) :
    i = j ∧ t.bind f = some x ∨ i ≠ j ∧ view f st i = some x := by
  rw [view_update] at h
  by_cases hij : i = j
  · subst hij
    rw [Function.update_self] at h
    exact .inl ⟨rfl, h⟩
  · rw [Function.update_of_ne hij] at h
    exact .inr ⟨hij, h⟩

theorem view_release (ht : t.bind f = none) (h : view f (Function.update st j t) i = some x) :
    i ≠ j ∧ view f st i = some x := by
  rcases view_cases h with ⟨-, he⟩ | h
  · rw [ht] at he
    cases he
  · exact h

theorem view_of_ne (hij : i ≠ j) : view f (Function.update st j t) i = view f st i := by
  rw [view_update, Function.update_of_ne hij]

theorem apart_release (h : ∀ i j x, view f st i = some x → view f st j = some x → i = j)
    (ht : t.bind f = none) : ∀ a b x, view f (Function.update st j t) a = some x →
      view f (Function.update st j t) b = some x → a = b :=
  fun a b x ha hb => h a b x (view_release ht ha).2 (view_release ht hb).2

theorem apart_take (h : ∀ i j x, view f st i = some x → view f st j = some x → i = j)
    (hfree : ∀ x, t.bind f = some x → ∀ k, k ≠ j → view f st k ≠ some x) :
    ∀ a b x, view f (Function.update st j t) a = some x →
      view f (Function.update st j t) b = some x → a = b := by
  intro a b x ha hb
  rcases view_cases ha with ⟨haj, hxa⟩ | ⟨haj, hxa⟩ <;>
    rcases view_cases hb with ⟨hbj, hxb⟩ | ⟨hbj, hxb⟩
  · exact haj.trans hbj.symm
  · exact absurd hxb (hfree x hxa b hbj)
  · exact absurd hxa (hfree x hxb a haj)
  · exact h a b x hxa hxb

theorem knows_update {p : σ → Prop} (h : ∀ k s, k ≠ j → st k = some s → p s)
    (ht : ∀ s, t = some s → p s) : ∀ k s, Function.update st j t k = some s → p s := by
  intro k s hk
  by_cases hkj : k = j
  · subst hkj
    rw [Function.update_self] at hk
    exact ht s hk
  · rw [Function.update_of_ne hkj] at hk
    exact h k s hkj hk

/-- The programs that have each value are known, and finitely many. -/
def Holders (f : σ → Option β) (st : ℕ → Option σ) (h : β → Finset ℕ) : Prop :=
  ∀ x j, j ∈ h x ↔ view f st j = some x

section Holders

variable {h : β → Finset ℕ}

theorem holders_keep (hh : Holders f st h) (ht : view f st j = t.bind f) :
    Holders f (Function.update st j t) h := by
  intro x k
  rw [view_keep ht]
  exact hh x k

variable [DecidableEq β]

theorem holders_take (hh : Holders f st h) (hnone : view f st j = none) (ht : t.bind f = some x) :
    Holders f (Function.update st j t) (Function.update h x (insert j (h x))) ∧
      (insert j (h x)).card = (h x).card + 1 := by
  have hj : ∀ y, j ∉ h y := by
    intro y hy
    rw [hh, hnone] at hy
    cases hy
  refine ⟨fun y k => ?_, Finset.card_insert_of_notMem (hj x)⟩
  rw [view_update, ht]
  by_cases hk : k = j
  · subst hk
    by_cases hy : y = x
    · subst hy
      simp
    · simp [hy, hj y, Ne.symm hy]
  · by_cases hy : y = x
    · subst hy
      simp [hk, hh y k]
    · simp [hk, hy, hh y k]

theorem holders_release (hh : Holders f st h) (hsome : view f st j = some x)
    (ht : t.bind f = none) :
    Holders f (Function.update st j t) (Function.update h x ((h x).erase j)) ∧
      (h x).card = ((h x).erase j).card + 1 := by
  have hj : ∀ y, j ∈ h y ↔ y = x := by
    intro y
    rw [hh, hsome, Option.some.injEq]
    exact eq_comm
  refine ⟨fun y k => ?_, (Finset.card_erase_add_one ((hj x).mpr rfl)).symm⟩
  rw [view_update, ht]
  by_cases hk : k = j
  · subst hk
    by_cases hy : y = x
    · subst hy
      simp
    · simp [hy, hj y]
  · by_cases hy : y = x
    · subst hy
      simp [hk, hh y k]
    · simp [hk, hy, hh y k]

end Holders

/-- So many programs have the value as without this one, and it. -/
theorem encard_view [DecidableEq β] :
    {k | view f (Function.update st j (some s)) k = some x}.encard =
    {k | view f (Function.update st j none) k = some x}.encard + if f s = some x then 1 else 0 := by
  have hnot : j ∉ {k | view f (Function.update st j none) k = some x} := by
    rw [Set.mem_ofPred_eq, view_update, Function.update_self]
    exact fun h => by cases h
  split
  · rename_i hx
    rw [← Set.encard_insert_of_notMem hnot]
    congr 1
    ext k
    simp only [Set.mem_ofPred_eq, Set.mem_insert_iff, view_update, Option.bind_some,
      Option.bind_none]
    by_cases hk : k = j
    · subst hk
      simp [hx]
    · simp [hk]
  · rename_i hx
    rw [add_zero]
    congr 1
    ext k
    simp only [Set.mem_ofPred_eq, view_update, Option.bind_some, Option.bind_none]
    by_cases hk : k = j
    · subst hk
      simp [hx]
    · simp [hk]

end Livora.StageViews
