import Mathlib.Algebra.Order.Ring.Int
import Mathlib.Tactic.NormNum

/-! Signed machine words whose arithmetic is checked: an operation whose exact
result leaves the word range has no value, as in a build with overflow checks.
Words carry their range proof, so no later statement has to re-establish it. -/

namespace Livora.CheckedWords

/-- The integer `x` is representable in two's complement on `w` bits. -/
def Fits (w : ℕ) (x : ℤ) : Prop :=
  -2 ^ (w - 1) ≤ x ∧ x < 2 ^ (w - 1)

instance (w : ℕ) (x : ℤ) : Decidable (Fits w x) :=
  inferInstanceAs (Decidable (_ ∧ _))

structure SWord (w : ℕ) where
  val : ℤ
  fits : Fits w val
deriving DecidableEq

namespace SWord

variable {w : ℕ}

@[ext] theorem ext {a b : SWord w} (h : a.val = b.val) : a = b := by
  cases a
  cases b
  simp_all

instance : LE (SWord w) := ⟨fun a b => a.val ≤ b.val⟩
instance : LT (SWord w) := ⟨fun a b => a.val < b.val⟩
instance (a b : SWord w) : Decidable (a ≤ b) := inferInstanceAs (Decidable (a.val ≤ b.val))
instance (a b : SWord w) : Decidable (a < b) := inferInstanceAs (Decidable (a.val < b.val))

instance : Zero (SWord w) := ⟨⟨0, by constructor <;> simp⟩⟩

instance : Inhabited (SWord w) := ⟨0⟩

theorem le_def (a b : SWord w) : a ≤ b ↔ a.val ≤ b.val := Iff.rfl
theorem lt_def (a b : SWord w) : a < b ↔ a.val < b.val := Iff.rfl
@[simp] theorem val_zero : (0 : SWord w).val = 0 := rfl

def ofInt? (w : ℕ) (x : ℤ) : Option (SWord w) :=
  if h : Fits w x then some ⟨x, h⟩ else none

@[simp] theorem ofInt?_eq_some {x : ℤ} {a : SWord w} : ofInt? w x = some a ↔ a.val = x := by
  unfold ofInt?
  split
  · rename_i h
    simp only [Option.some.injEq]
    exact ⟨fun e => e ▸ rfl, fun e => ext e.symm⟩
  · rename_i h
    simp only [reduceCtorEq, false_iff]
    exact fun e => h (e ▸ a.fits)

def checkedAdd (a b : SWord w) : Option (SWord w) := ofInt? w (a.val + b.val)
def checkedSub (a b : SWord w) : Option (SWord w) := ofInt? w (a.val - b.val)
def checkedMul (a b : SWord w) : Option (SWord w) := ofInt? w (a.val * b.val)

/-- Division truncates towards zero; only `MIN / -1` leaves the range. -/
def checkedDiv (a b : SWord w) : Option (SWord w) :=
  if b.val = 0 then none else ofInt? w (a.val.tdiv b.val)

@[simp] theorem checkedAdd_eq_some {a b c : SWord w} :
    a.checkedAdd b = some c ↔ c.val = a.val + b.val := ofInt?_eq_some

@[simp] theorem checkedSub_eq_some {a b c : SWord w} :
    a.checkedSub b = some c ↔ c.val = a.val - b.val := ofInt?_eq_some

@[simp] theorem checkedMul_eq_some {a b c : SWord w} :
    a.checkedMul b = some c ↔ c.val = a.val * b.val := ofInt?_eq_some

@[simp] theorem checkedDiv_eq_some {a b c : SWord w} :
    a.checkedDiv b = some c ↔ b.val ≠ 0 ∧ c.val = a.val.tdiv b.val := by
  unfold checkedDiv
  split <;> simp_all

theorem fits_sub_of_le {a b : SWord w} (hb : 0 ≤ b.val) (h : b.val ≤ a.val) :
    Fits w (a.val - b.val) := by
  obtain ⟨hl, hu⟩ := a.fits
  obtain ⟨_, _⟩ := b.fits
  constructor <;> omega

end SWord

end Livora.CheckedWords
