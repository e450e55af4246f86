import Mathlib.Data.Finsupp.Weight
import Mathlib.Data.Set.Finite.Basic

/-! A key-value store in which the type of a value is determined by its key.
Only finitely many keys ever hold a value, and a store carries that fact, so an
integer family read off the store is a finitely supported function and has a
total without side conditions. -/

namespace Livora.TypedStore

structure Store {κ : Type*} (ν : κ → Type*) where
  get : (k : κ) → Option (ν k)
  finite : {k | get k ≠ none}.Finite

namespace Store

variable {κ : Type*} {ν : κ → Type*}

def empty : Store ν := ⟨fun _ => none, by simp⟩

@[simp] theorem get_empty (k : κ) : (empty : Store ν).get k = none := rfl

def has (s : Store ν) (k : κ) : Bool := (s.get k).isSome

variable [DecidableEq κ]

def set (s : Store ν) (k : κ) (v : ν k) : Store ν where
  get := Function.update s.get k (some v)
  finite := (s.finite.insert k).subset fun k' h => by
    by_cases e : k' = k
    · exact Or.inl e
    · exact Or.inr (by simpa [Function.update_of_ne e] using h)

@[simp] theorem get_set_self (s : Store ν) (k : κ) (v : ν k) : (s.set k v).get k = some v := by
  simp [set]

theorem get_set_of_ne {s : Store ν} {k k' : κ} {v : ν k} (h : k' ≠ k) :
    (s.set k v).get k' = s.get k' := by
  simp [set, Function.update_of_ne h]

@[simp] theorem has_set_self (s : Store ν) (k : κ) (v : ν k) : (s.set k v).has k = true := by
  simp [has]

theorem has_set_of_ne {s : Store ν} {k k' : κ} {v : ν k} (h : k' ≠ k) :
    (s.set k v).has k' = s.has k' := by
  simp only [has, get_set_of_ne h]

end Store

/-- An integer-valued family of keys, one key for each index. -/
structure Family {κ : Type*} (ν : κ → Type*) (α : Type*) where
  key : α → κ
  key_injective : Function.Injective key
  value : (a : α) → ν (key a) → ℤ

namespace Family

variable {κ α : Type*} {ν : κ → Type*} (F : Family ν α)

/-- The value at an index, absent entries reading as zero. -/
def read (s : Store ν) (a : α) : ℤ := ((s.get (F.key a)).map (F.value a)).getD 0

theorem read_finite (s : Store ν) : (Function.support (F.read s)).Finite := by
  refine (s.finite.preimage F.key_injective.injOn).subset fun a ha => ?_
  simp only [Set.mem_preimage, Set.mem_ofPred_eq]
  intro h
  exact ha (by simp [read, h])

noncomputable def values (s : Store ν) : α →₀ ℤ :=
  Finsupp.ofSupportFinite (F.read s) (F.read_finite s)

@[simp] theorem values_apply (s : Store ν) (a : α) : F.values s a = F.read s a := rfl

theorem values_congr {s t : Store ν} (h : ∀ a, s.get (F.key a) = t.get (F.key a)) :
    F.values s = F.values t := by
  ext a
  simp [read, h a]

variable [DecidableEq κ]

variable [DecidableEq α]

theorem read_set (s : Store ν) (a b : α) (v : ν (F.key a)) :
    F.read (s.set (F.key a) v) b = if b = a then F.value a v else F.read s b := by
  by_cases h : b = a
  · subst h
    simp [read]
  · have hk : F.key b ≠ F.key a := fun e => h (F.key_injective e)
    simp [read, h, Store.get_set_of_ne hk]

/-- Writing one entry adds the difference between the new and the old value. -/
theorem values_set (s : Store ν) (a : α) (v : ν (F.key a)) :
    F.values (s.set (F.key a) v) =
      F.values s + Finsupp.single a (F.value a v - F.read s a) := by
  ext b
  by_cases h : a = b
  · subst h
    simp [read_set]
  · have h' : b ≠ a := fun e => h e.symm
    simp [read_set, h']

end Family

end Livora.TypedStore
