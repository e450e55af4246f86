import Livora.ValueTrees

/-! Trees with what stands under some keys blotted out. An array has its indices for keys. -/

namespace Livora.RedactedTrees

open ValueTrees ValueTrees.Tree

universe u v

variable {κ : Type u} {L : Type v}

inductive Step (κ : Type u) where
  | key (k : κ)
  | index (i : ℕ)

inductive At : List (Step κ) → Tree κ L → Tree κ L → Prop
  | here (t : Tree κ L) : At [] t t
  | item {items : List (Tree κ L)} {i : ℕ} {p : List (Step κ)} {t w : Tree κ L}
  (h : items[i]? = some t)
      (ht : At p t w) : At (.index i :: p) (.array items) w
  | entry {entries : List (κ × Tree κ L)} {k : κ} {p : List (Step κ)} {t w : Tree κ L}
  (h : (k, t) ∈ entries)
      (ht : At p t w) : At (.key k :: p) (.object entries) w

section Redact

variable (hidden : Step κ → Bool) (mark : L)

mutual

def redact : Tree κ L → Tree κ L
  | .leaf a => .leaf a
  | .array items => .array (redactItems 0 items)
  | .object entries => .object (redactEntries entries)

def redactItems : ℕ → List (Tree κ L) → List (Tree κ L)
  | _, [] => []
  | i, t :: items =>
    (if hidden (.index i) then .leaf mark else redact t) :: redactItems (i + 1) items

def redactEntries : List (κ × Tree κ L) → List (κ × Tree κ L)
  | [] => []
  | (k, t) :: entries =>
    (k, if hidden (.key k) then .leaf mark else redact t) :: redactEntries entries

end

end Redact

variable {hidden : Step κ → Bool} {mark : L} {p : List (Step κ)} {s : Step κ} {t w : Tree κ L}

theorem getElem?_redactItems (items : List (Tree κ L)) (i j : ℕ) :
    (redactItems hidden mark i items)[j]? =
      items[j]?.map fun t =>
        if hidden (.index (i + j)) then .leaf mark else redact hidden mark t := by
  induction items generalizing i j with
  | nil => rfl
  | cons t items ih =>
    cases j with
    | zero => rfl
    | succ j =>
      rw [redactItems, List.getElem?_cons_succ, ih, List.getElem?_cons_succ,
        Nat.add_right_comm i 1 j]; rfl

theorem redactEntries_eq (entries : List (κ × Tree κ L)) :
    redactEntries hidden mark entries =
      entries.map fun e =>
        (e.1, if hidden (.key e.1) then .leaf mark else redact hidden mark e.2) := by
  induction entries with
  | nil => rfl
  | cons e entries ih => rw [redactEntries, ih]; rfl

theorem at_redact_cons (h : At (s :: p) (redact hidden mark t) w) :
    if hidden s then At p (.leaf mark) w else ∃ t', At [s] t t' ∧
      At p (redact hidden mark t') w := by
  cases t with
  | leaf a => cases h
  | array items =>
    cases h with
    | item h ht =>
      rename_i i u
      rw [getElem?_redactItems, Nat.zero_add, Option.map_eq_some_iff] at h
      obtain ⟨t', ht', rfl⟩ := h
      split at ht
      · rename_i hi
        rwa [if_pos hi]
      · rename_i hi
        rw [if_neg hi]
        exact ⟨t', .item ht' (.here t'), ht⟩
  | object entries =>
    cases h with
    | entry h ht =>
      rename_i k u
      rw [redactEntries_eq] at h
      obtain ⟨e, he, heq⟩ := List.mem_map.mp h
      obtain ⟨rfl, rfl⟩ := Prod.mk.inj heq
      split at ht
      · rename_i hk
        rwa [if_pos hk]
      · rename_i hk
        rw [if_neg hk]
        exact ⟨e.2, .entry he (.here e.2), ht⟩

theorem at_leaf {a : L} (h : At p (.leaf a : Tree κ L) w) : p = [] ∧ w = .leaf a := by
  cases h
  exact ⟨rfl, rfl⟩

theorem At.trans {q : List (Step κ)} {t t' : Tree κ L} (h : At p t t') (h' : At q t' w) :
    At (p ++ q) t w := by
  induction h with
  | here t => exact h'
  | item hi _ ih => exact .item hi (ih h')
  | entry hk _ ih => exact .entry hk (ih h')

theorem hidden_is_mark (hs : hidden s = true) (h : At (p ++ [s]) (redact hidden mark t) w) :
    w = .leaf mark := by
  induction p generalizing t with
  | nil =>
    have hstep := at_redact_cons h
    rw [if_pos hs] at hstep
    exact (at_leaf hstep).2
  | cons s' p ih =>
    have hstep := at_redact_cons h
    split at hstep
    · exact absurd (at_leaf hstep).1 (by simp)
    · obtain ⟨t', -, ht'⟩ := hstep
      exact ih ht'

theorem at_redact_iff (hp : ∀ s ∈ p, hidden s = false) :
    At p (redact hidden mark t) w ↔ ∃ t', At p t t' ∧ w = redact hidden mark t' := by
  induction p generalizing t with
  | nil =>
    refine ⟨fun h => ?_, ?_⟩
    · cases h
      exact ⟨t, .here t, rfl⟩
    · rintro ⟨t', ht', rfl⟩
      cases ht'
      exact .here _
  | cons s p ih =>
    have hs := hp s List.mem_cons_self
    have ih := fun t => ih (t := t) fun s hs => hp s (List.mem_cons_of_mem _ hs)
    refine ⟨fun h => ?_, ?_⟩
    · have hstep := at_redact_cons h
      rw [hs, if_neg Bool.false_ne_true] at hstep
      obtain ⟨t₁, hone, hrest⟩ := hstep
      obtain ⟨t', ht', rfl⟩ := (ih t₁).mp hrest
      exact ⟨t', hone.trans ht', rfl⟩
    · rintro ⟨t', ht', rfl⟩
      cases ht' with
      | item hi ht =>
        refine .item (t := redact hidden mark _) ?_ ((ih _).mpr ⟨t', ht, rfl⟩)
        rw [getElem?_redactItems, hi, Nat.zero_add, Option.map_some, hs, if_neg Bool.false_ne_true]
      | entry hk ht =>
        refine .entry (t := redact hidden mark _) ?_ ((ih _).mpr ⟨t', ht, rfl⟩)
        rw [redactEntries_eq]
        exact List.mem_map.mpr ⟨_, hk, by rw [hs, if_neg Bool.false_ne_true]⟩

theorem at_redact_leaf_iff {a : L} (hp : ∀ s ∈ p, hidden s = false) :
    At p (redact hidden mark t) (.leaf a) ↔ At p t (.leaf a) := by
  rw [at_redact_iff hp]
  refine ⟨?_, fun h => ⟨_, h, rfl⟩⟩
  rintro ⟨t', ht', hleaf⟩
  cases t' with
  | leaf b =>
    obtain rfl : a = b := Tree.leaf.inj hleaf
    exact ht'
  | array items => cases hleaf
  | object entries => cases hleaf

end Livora.RedactedTrees
