import Mathlib.Data.List.Nodup
import Mathlib.Data.Set.Card
import Mathlib.Tactic.Common

/-! Rows of a table that are found by their keys. A write maps over the rows and keeps the keys, or
appends a row under a new one; what is found afterwards is what was found before, changed in the
same way. -/

namespace Livora.KeyedRows

variable {β κ : Type*} [DecidableEq κ] {key : β → κ} {l : List β} {x : β} {k : κ}

/-- The first row under the key. -/
def lookup (key : β → κ) (l : List β) (k : κ) : Option β := l.find? fun x => key x == k

theorem key_of_lookup (h : lookup key l k = some x) : key x = k := by
  simpa using List.find?_some h

theorem mem_of_lookup (h : lookup key l k = some x) : x ∈ l := List.mem_of_find?_eq_some h

theorem lookup_eq_none : lookup key l k = none ↔ ∀ x ∈ l, key x ≠ k := by
  simp [lookup]

theorem lookup_of_mem (hkeys : (l.map key).Nodup) (hx : x ∈ l) : lookup key l (key x) = some x := by
  cases h : lookup key l (key x) with
  | none => exact absurd rfl (lookup_eq_none.mp h x hx)
  | some y =>
    rw [List.inj_on_of_nodup_map hkeys (mem_of_lookup h) hx (key_of_lookup h)]

theorem lookup_iff (hkeys : (l.map key).Nodup) : lookup key l k = some x ↔ x ∈ l ∧ key x = k := by
  constructor
  · exact fun h => ⟨mem_of_lookup h, key_of_lookup h⟩
  · rintro ⟨hx, rfl⟩
    exact lookup_of_mem hkeys hx

theorem lookup_map {f : β → β} (hf : ∀ x, key (f x) = key x) :
    lookup key (l.map f) k = (lookup key l k).map f := by
  unfold lookup
  rw [List.find?_map]
  congr 2
  funext x
  simp [hf]

omit [DecidableEq κ] in
theorem keys_map {f : β → β} (hf : ∀ x, key (f x) = key x) : (l.map f).map key = l.map key := by
  rw [List.map_map]
  exact List.map_congr_left fun x _ => hf x

theorem lookup_append :
    lookup key (l ++ [x]) k = (lookup key l k).or (if key x = k then some x else none) := by
  unfold lookup
  rw [List.find?_append]
  congr 1
  by_cases hx : key x = k
  · simp [hx]
  · simp [hx]

theorem nodup_append (hkeys : (l.map key).Nodup) (hnew : lookup key l (key x) = none) :
    ((l ++ [x]).map key).Nodup := by
  rw [List.map_append, List.map_cons, List.map_nil]
  refine List.nodup_append.mpr ⟨hkeys, List.nodup_singleton _, ?_⟩
  rintro a ha b hb rfl
  obtain ⟨y, hy, rfl⟩ := List.mem_map.mp ha
  exact lookup_eq_none.mp hnew y hy (List.mem_singleton.mp hb)

/-- The row replaces the one under its key, or is put at the end. -/
def upsert (key : β → κ) (l : List β) (x : β) : List β :=
  if (lookup key l (key x)).isSome then l.map fun y => if key y = key x then x else y else l ++ [x]

theorem lookup_upsert :
    lookup key (upsert key l x) k = if key x = k then some x else lookup key l k := by
  unfold upsert
  split
  · rename_i hsome
    rw [lookup_map fun y => by split <;> simp_all]
    split
    · rename_i hk
      subst hk
      obtain ⟨y, hy⟩ := Option.isSome_iff_exists.mp hsome
      simp [hy, key_of_lookup hy]
    · rename_i hk
      cases hy : lookup key l k with
      | none => rfl
      | some y =>
        have hne : key y ≠ key x := fun he => hk (he.symm.trans (key_of_lookup hy))
        simp [hne]
  · rename_i hnone
    rw [Option.not_isSome_iff_eq_none] at hnone
    rw [lookup_append]
    split
    · rename_i hk
      subst hk
      rw [hnone, Option.none_or]
    · rw [Option.or_none]

theorem nodup_upsert (hkeys : (l.map key).Nodup) : ((upsert key l x).map key).Nodup := by
  unfold upsert
  split
  · rw [keys_map fun y => by split <;> simp_all]
    exact hkeys
  · exact nodup_append hkeys (Option.not_isSome_iff_eq_none.mp ‹_›)

/-- So many rows have the property, as there are keys under which one is found that has it. -/
theorem length_filter (hkeys : (l.map key).Nodup) (p : β → Bool) :
    ((l.filter p).length : ℕ∞) = {k | ∃ x, lookup key l k = some x ∧ p x = true}.encard := by
  have hnodup : ((l.filter p).map key).Nodup := hkeys.sublist (List.filter_sublist.map key)
  have hset : {k | ∃ x, lookup key l k = some x ∧ p x = true} =
      (((l.filter p).map key).toFinset : Set κ) := by
    ext k
    simp [lookup_iff hkeys, and_comm, and_left_comm]
  rw [hset, Set.encard_coe_eq_coe_finsetCard, List.toFinset_card_of_nodup hnodup, List.length_map]

end Livora.KeyedRows
