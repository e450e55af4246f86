import Mathlib.Algebra.Order.BigOperators.Group.List
import Mathlib.Algebra.Order.Ring.Rat
import Mathlib.Data.List.Nodup
import Mathlib.Data.List.Perm.Subperm
import Mathlib.Tactic.Linarith
import Mathlib.Tactic.Ring

/-! Sums over the rows of a table whose keys are distinct: what one changed row, or the
rows that another list names, can add to them. -/

namespace Livora.KeyedSums

variable {β κ : Type*} {key : β → κ} {g g' : β → ℚ} {l : List β} {d : ℚ}

theorem sum_map_le_add [DecidableEq κ] {k : κ} (hkeys : (l.map key).Nodup) (hd : 0 ≤ d)
    (h : ∀ x ∈ l, g' x ≤ g x + if key x = k then d else 0) :
    (l.map g').sum ≤ (l.map g).sum + d := by
  induction l with
  | nil => simpa using hd
  | cons x l ih =>
    obtain ⟨hx, hl⟩ := List.nodup_cons.mp hkeys
    have hhead := h x List.mem_cons_self
    simp only [List.map_cons, List.sum_cons]
    by_cases hk : key x = k
    · have hrest : (l.map g').sum ≤ (l.map g).sum := by
        refine List.sum_le_sum fun y hy => ?_
        have hy' := h y (List.mem_cons_of_mem _ hy)
        have hne : key y ≠ k := fun he => hx (hk.trans he.symm ▸ List.mem_map_of_mem hy)
        rwa [if_neg hne, add_zero] at hy'
      rw [if_pos hk] at hhead
      linarith
    · have hrest := ih hl fun y hy => h y (List.mem_cons_of_mem _ hy)
      rw [if_neg hk] at hhead
      linarith

theorem sum_map_add_le {x : β} (hx : x ∈ l) (h : ∀ y ∈ l, g' y ≤ g y) (hd : g' x + d ≤ g x) :
    (l.map g').sum + d ≤ (l.map g).sum := by
  obtain ⟨before, after, rfl⟩ := List.append_of_mem hx
  have hbefore : (before.map g').sum ≤ (before.map g).sum :=
    List.sum_le_sum fun y hy => h y (List.mem_append_left _ hy)
  have hafter : (after.map g').sum ≤ (after.map g).sum :=
    List.sum_le_sum fun y hy => h y (List.mem_append_right _ (List.mem_cons_of_mem _ hy))
  simp only [List.map_append, List.map_cons, List.sum_append, List.sum_cons]
  linarith

theorem sum_map_set {x : β} (hkeys : (l.map key).Nodup) (hx : x ∈ l)
    (h : ∀ y ∈ l, key y ≠ key x → g' y = g y) :
    (l.map g').sum = (l.map g).sum + (g' x - g x) := by
  induction l with
  | nil => cases hx
  | cons y l ih =>
    obtain ⟨hy, hl⟩ := List.nodup_cons.mp hkeys
    simp only [List.map_cons, List.sum_cons]
    rcases List.mem_cons.mp hx with rfl | hx
    · have hrest : l.map g' = l.map g := List.map_congr_left fun z hz =>
        h z (List.mem_cons_of_mem _ hz) fun he => hy (he ▸ List.mem_map_of_mem hz)
      rw [hrest]
      ring
    · have hrest := ih hl hx fun z hz => h z (List.mem_cons_of_mem _ hz)
      have hhead := h y List.mem_cons_self fun he => hy (he ▸ List.mem_map_of_mem hx)
      rw [hrest, hhead]
      ring

theorem sum_filter (p : β → Bool) (g : β → ℚ) (l : List β) :
    ((l.filter p).map g).sum = (l.map fun x => if p x = true then g x else 0).sum := by
  induction l with
  | nil => rfl
  | cons x l ih =>
    by_cases hx : p x = true
    · simp [hx, ih]
    · simp [hx, ih]

theorem sum_filter_le {p q : β → Bool} (hg : ∀ x ∈ l, 0 ≤ g x)
    (h : ∀ x ∈ l, p x = true → q x = true) :
    ((l.filter p).map g).sum ≤ ((l.filter q).map g).sum := by
  rw [sum_filter, sum_filter]
  refine List.sum_le_sum fun x hx => ?_
  by_cases hp : p x = true
  · rw [if_pos hp, if_pos (h x hx hp)]
  · rw [if_neg hp]
    split
    · exact hg x hx
    · exact le_rfl

theorem sum_filter_le_of_keys {p : β → Bool} {l' : List β} (hkeys : (l.map key).Nodup)
    (hg : ∀ y ∈ l', 0 ≤ g y)
    (h : ∀ x ∈ l, p x = true → ∃ y ∈ l', key y = key x ∧ g y = g x) :
    ((l.filter p).map g).sum ≤ (l'.map g).sum := by
  have hpairs : ((l.filter p).map fun x => (key x, g x)).Nodup := by
    refine List.Nodup.of_map Prod.fst ?_
    rw [List.map_map]
    exact hkeys.sublist (List.filter_sublist.map key)
  have hsub : ((l.filter p).map fun x => (key x, g x)) ⊆ l'.map fun y => (key y, g y) := by
    intro entry hentry
    obtain ⟨x, hx, rfl⟩ := List.mem_map.mp hentry
    obtain ⟨hmem, hpx⟩ := List.mem_filter.mp hx
    obtain ⟨y, hy, hkey, hvalue⟩ := h x hmem hpx
    exact List.mem_map.mpr ⟨y, hy, by rw [hkey, hvalue]⟩
  obtain ⟨part, hperm, hpart⟩ := List.subperm_of_subset hpairs hsub
  calc ((l.filter p).map g).sum
      = (((l.filter p).map fun x => (key x, g x)).map Prod.snd).sum := by rw [List.map_map]; rfl
    _ = (part.map Prod.snd).sum := (hperm.map Prod.snd).sum_eq.symm
    _ ≤ ((l'.map fun y => (key y, g y)).map Prod.snd).sum := by
      refine (hpart.map Prod.snd).sum_le_sum fun a ha => ?_
      obtain ⟨entry, hentry, rfl⟩ := List.mem_map.mp ha
      obtain ⟨y, hy, rfl⟩ := List.mem_map.mp hentry
      exact hg y hy
    _ = (l'.map g).sum := by rw [List.map_map]; rfl

end Livora.KeyedSums
