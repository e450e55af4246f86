import Mathlib.Algebra.BigOperators.Group.List.Basic
import Mathlib.Algebra.Order.Ring.Rat
import Mathlib.Data.List.Nodup
import Mathlib.Data.List.Perm.Basic
import Mathlib.Tactic.Common
import Mathlib.Tactic.Ring

/-! Objects used as dictionaries: entries in the order of their making, each key once. An
assignment replaces the value under its key or adds an entry; what is found does not
depend on the order. -/

namespace Livora.NumberRecords

variable {κ α : Type*}

/-- A dictionary, as the entries of its own; what every object inherits is no entry. -/
structure Record (κ α : Type*) where
  entries : List (κ × α)
  keys_nodup : (entries.map Prod.fst).Nodup

section Lookup

variable [DecidableEq κ] {l l' : List (κ × α)} {k : κ} {v : α}

theorem lookup_cons (e : κ × α) (l : List (κ × α)) (k : κ) :
    (e :: l).lookup k = if e.1 = k then some e.2 else l.lookup k := by
  obtain ⟨name, value⟩ := e
  rw [List.lookup_cons]
  by_cases h : name = k
  · simp [h]
  · have hother : (k == name) = false := beq_eq_false_iff_ne.mpr fun he => h he.symm
    rw [hother, if_neg h]

theorem lookup_eq_none (h : k ∉ l.map Prod.fst) : l.lookup k = none := by
  refine List.lookup_eq_none_iff.mpr fun e he => ?_
  simpa using fun hk : k = e.1 => h (hk ▸ List.mem_map_of_mem he)

theorem mem_of_lookup (h : l.lookup k = some v) : (k, v) ∈ l := by
  obtain ⟨before, after, rfl, -⟩ := List.lookup_eq_some_iff.mp h
  exact List.mem_append_right _ List.mem_cons_self

theorem lookup_perm (hkeys : (l.map Prod.fst).Nodup) (h : l.Perm l') :
    l.lookup k = l'.lookup k := by
  induction h with
  | nil => rfl
  | cons e _ ih => rw [lookup_cons, lookup_cons, ih (List.nodup_cons.mp hkeys).2]
  | swap e e' l =>
    have hne : e'.1 ≠ e.1 := by
      rw [List.map_cons, List.map_cons, List.nodup_cons] at hkeys
      exact fun he => hkeys.1 (he ▸ List.mem_cons_self)
    simp only [lookup_cons]
    split
    · rename_i hk
      rw [if_neg fun he => hne (hk.trans he.symm)]
    · rfl
  | trans h _ ih ih' => rw [ih hkeys, ih' ((h.map Prod.fst).nodup hkeys)]

def assign (k : κ) (v : α) : List (κ × α) → List (κ × α)
  | [] => [(k, v)]
  | e :: l => if e.1 = k then (k, v) :: l else e :: assign k v l

theorem keys_assign (k : κ) (v : α) (l : List (κ × α)) :
    (assign k v l).map Prod.fst =
      if k ∈ l.map Prod.fst then l.map Prod.fst else l.map Prod.fst ++ [k] := by
  induction l with
  | nil => rfl
  | cons e l ih =>
    by_cases h : e.1 = k
    · simp [assign, h]
    · rw [assign, if_neg h, List.map_cons, ih, List.map_cons]
      have hmem : k ∈ e.1 :: l.map Prod.fst ↔ k ∈ l.map Prod.fst := by
        rw [List.mem_cons, or_iff_right fun he => h he.symm]
      simp only [hmem]
      split <;> rfl

theorem nodup_assign (h : (l.map Prod.fst).Nodup) : ((assign k v l).map Prod.fst).Nodup := by
  rw [keys_assign]
  split
  · exact h
  · rename_i hk
    refine List.nodup_append.mpr ⟨h, List.nodup_singleton k, ?_⟩
    rintro a ha b hb rfl
    exact hk (List.mem_singleton.mp hb ▸ ha)

end Lookup

def total (l : List (κ × ℚ)) : ℚ := (l.map Prod.snd).sum

namespace Record

variable [DecidableEq κ]

def get (r : Record κ α) (k : κ) : Option α := r.entries.lookup k

/-- `r[k] = v` -/
def set (r : Record κ α) (k : κ) (v : α) : Record κ α :=
  ⟨assign k v r.entries, nodup_assign r.keys_nodup⟩

/-- `{}` -/
def empty : Record κ α := ⟨[], List.nodup_nil⟩

end Record

end Livora.NumberRecords
