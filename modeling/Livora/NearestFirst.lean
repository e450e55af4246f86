import Mathlib.Data.List.Induction
import Mathlib.Data.List.Perm.Basic
import Mathlib.Order.Lattice

/-! Visiting all the entries of a list, each time one of the least from where the last visit has led
to. One pass over the entries left keeps the place of the least one so far, which only a lesser one
replaces. -/

namespace Livora.NearestFirst

variable {α β γ : Type*} [LinearOrder γ]

/-- Place `i` is the first that holds a least entry. -/
structure IsFirstLeast (d : α → γ) (l : List α) (i : ℕ) (x : α) : Prop where
  here : l[i]? = some x
  least : ∀ y ∈ l, d x ≤ d y
  first : ∀ j y, j < i → l[j]? = some y → d x < d y

/-- The place of the least entry so far, and how much it is. -/
def improve (d : α → γ) (best : ℕ × Option γ) (entry : α × ℕ) : ℕ × Option γ :=
  if best.2.all fun least => decide (d entry.1 < least) then (entry.2, some (d entry.1)) else best

def scan (d : α → γ) (l : List α) : ℕ × Option γ := l.zipIdx.foldl (improve d) (0, none)

theorem scan_append (d : α → γ) (l : List α) (x : α) :
    scan d (l ++ [x]) = improve d (scan d l) (x, l.length) := by
  simp [scan, List.zipIdx_append, List.foldl_append]

theorem IsFirstLeast.append {d : α → γ} {l : List α} {i : ℕ} {x y : α} (h : IsFirstLeast d l i x)
    (hy : d x ≤ d y) : IsFirstLeast d (l ++ [y]) i x := by
  have hi : i < l.length := (List.getElem?_eq_some_iff.mp h.here).1
  refine ⟨(List.getElem?_append_left hi).trans h.here, fun z hz => ?_, fun j z hj hz => ?_⟩
  · rcases List.mem_append.mp hz with hz | hz
    · exact h.least z hz
    · exact List.mem_singleton.mp hz ▸ hy
  · rw [List.getElem?_append_left (Nat.lt_trans hj hi)] at hz
    exact h.first j z hj hz

theorem isFirstLeast_last {d : α → γ} {l : List α} {x : α} (h : ∀ y ∈ l, d x < d y) :
    IsFirstLeast d (l ++ [x]) l.length x := by
  refine ⟨by simp, fun z hz => ?_, fun j z hj hz => ?_⟩
  · rcases List.mem_append.mp hz with hz | hz
    · exact (h z hz).le
    · exact (List.mem_singleton.mp hz ▸ le_rfl)
  · rw [List.getElem?_append_left hj] at hz
    exact h z (List.mem_of_getElem? hz)

theorem scan_spec (d : α → γ) {l : List α} (h : l ≠ []) :
    ∃ x, IsFirstLeast d l (scan d l).1 x ∧ (scan d l).2 = some (d x) := by
  induction l using List.reverseRecOn with
  | nil => exact absurd rfl h
  | append_singleton l y ih =>
    rw [scan_append]
    by_cases hl : l = []
    · subst hl
      exact ⟨y, isFirstLeast_last (l := []) fun z hz => absurd hz List.not_mem_nil, rfl⟩
    obtain ⟨x, hx, hbest⟩ := ih hl
    by_cases hlt : d y < d x
    · have himprove : improve d (scan d l) (y, l.length) = (l.length, some (d y)) := by
        simp [improve, hbest, hlt]
      rw [himprove]
      exact ⟨y, isFirstLeast_last fun z hz => hlt.trans_le (hx.least z hz), rfl⟩
    · have hkeep : improve d (scan d l) (y, l.length) = scan d l := by
        simp [improve, hbest, hlt]
      rw [hkeep]
      exact ⟨x, hx.append (le_of_not_gt hlt), hbest⟩

/-- The entries of a list in the order of a tour, each with how far it is from the one before. -/
inductive Tour (d : β → α → γ) (place : α → β) : β → List α → List (α × γ) → Prop
  | done (current : β) : Tour d place current [] []
  | next {current : β} {l : List α} {i : ℕ} {x : α} {t : List (α × γ)}
  (h : IsFirstLeast (d current) l i x)
      (ht : Tour d place (place x) (l.eraseIdx i) t) :
      Tour d place current l ((x, d current x) :: t)

theorem perm_eraseIdx {l : List α} {i : ℕ} {x : α} (h : l[i]? = some x) :
    (x :: l.eraseIdx i).Perm l := by
  obtain ⟨hi, rfl⟩ := List.getElem?_eq_some_iff.mp h
  exact List.getElem_cons_eraseIdx_perm hi

variable {d : β → α → γ} {place : α → β} {current : β} {l : List α} {t : List (α × γ)}

theorem Tour.perm (h : Tour d place current l t) : (t.map Prod.fst).Perm l := by
  induction h with
  | done current => exact List.Perm.nil
  | next hx _ ih => exact (ih.cons _).trans (perm_eraseIdx hx.here)

theorem Tour.length_eq (h : Tour d place current l t) : t.length = l.length := by
  rw [← h.perm.length_eq, List.length_map]

end Livora.NearestFirst
