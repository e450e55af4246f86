import Livora.BatchServices
import Livora.ExactDecimals
import Livora.NumberRecords
import Mathlib.Logic.Relation

/-! Consolidated batches of batches. Weights come in whole grams, so no level of a tree
rounds anything away: the total, the breakdown and the count are those of the leaves, in
whatever order and however deep these are put together. -/

namespace Livora.BatchComposites

open DoubleRounding ExactDecimals NumberRecords

/-- `BatchLeaf` and `ConsolidatedBatchComposite` -/
inductive BatchComponent where
  | leaf (id : String) (materials : Record String ℚ)
  | composite (id : String) (children : List BatchComponent)

namespace BatchComponent

@[elab_as_elim]
theorem induct {motive : BatchComponent → Prop} (leaf : ∀ id materials, motive (.leaf id materials))
    (composite : ∀ id children, (∀ child ∈ children, motive child) →
      motive (.composite id children)) :
    ∀ t, motive t
  | .leaf id materials => leaf id materials
  | .composite id children => composite id children fun child _ => induct leaf composite child

def getId : BatchComponent → String
  | .leaf id _ => id
  | .composite id _ => id

section Arithmetic

variable (arith : ℚ → ℚ)

mutual

def getTotalWeightKg : BatchComponent → ℚ
  | .leaf _ materials => materials.entries.foldl (fun sum entry => arith (sum + entry.2)) 0
  | .composite _ children => toFixed arith (addTotals children 0) 3

/-- The `reduce` over the children. -/
def addTotals : List BatchComponent → ℚ → ℚ
  | [], sum => sum
  | child :: children, sum => addTotals children (arith (sum + getTotalWeightKg child))

end

/-- `breakdown[mat] = parseFloat(((breakdown[mat] || 0) + weight).toFixed(3))` -/
def addWeight (breakdown : Record String ℚ) (entry : String × ℚ) : Record String ℚ :=
  breakdown.set entry.1 (toFixed arith (arith ((breakdown.get entry.1).getD 0 + entry.2)) 3)

mutual

def getMaterialsBreakdown : BatchComponent → Record String ℚ
  | .leaf _ materials => materials
  | .composite _ children => addBreakdowns children Record.empty

def addBreakdowns : List BatchComponent → Record String ℚ → Record String ℚ
  | [], breakdown => breakdown
  | child :: children, breakdown =>
    addBreakdowns children ((getMaterialsBreakdown child).entries.foldl (addWeight arith) breakdown)

end

end Arithmetic

mutual

def getBatchCount : BatchComponent → ℕ
  | .leaf _ _ => 1
  | .composite _ children => addCounts children 0

def addCounts : List BatchComponent → ℕ → ℕ
  | [], sum => sum
  | child :: children, sum => addCounts children (sum + getBatchCount child)

end

mutual

def leaves : BatchComponent → List (Record String ℚ)
  | .leaf _ materials => [materials]
  | .composite _ children => allLeaves children

def allLeaves : List BatchComponent → List (Record String ℚ)
  | [] => []
  | child :: children => leaves child ++ allLeaves children

end

theorem addTotals_eq (arith : ℚ → ℚ) (children : List BatchComponent) (sum : ℚ) :
    addTotals arith children sum =
      children.foldl (fun sum child => arith (sum + getTotalWeightKg arith child)) sum := by
  induction children generalizing sum with
  | nil => rfl
  | cons child children ih => rw [addTotals, ih, List.foldl_cons]

theorem totalWeightKg_eq (id : String) (batches : List (BatchBooks.Batch × Record String ℚ))
    (h : ∀ b ∈ batches, b.2.entries =
      (b.1.materialsActual.getD []).map fun entry => (entry.1, entry.2.val)) :
    BatchServices.totalWeightKg (batches.map Prod.fst) =
      getTotalWeightKg fl (.composite id (batches.map fun b => .leaf b.1.id b.2)) := by
  have hleaf (b) (hb : b ∈ batches) :
      getTotalWeightKg fl (.leaf b.1.id b.2) = BatchServices.leafWeightKg b.1 := by
    rw [getTotalWeightKg, h b hb, List.foldl_map]
    rfl
  have hsum : ∀ sum, batches.foldl (fun sum b =>
      fl (sum + getTotalWeightKg fl (.leaf b.1.id b.2))) sum =
        batches.foldl (fun sum b => fl (sum + BatchServices.leafWeightKg b.1)) sum := by
    clear h
    induction batches with
    | nil => exact fun _ => rfl
    | cons b batches ih =>
      intro sum
      rw [List.foldl_cons, List.foldl_cons, hleaf b List.mem_cons_self]
      exact ih (fun b hb => hleaf b (List.mem_cons_of_mem _ hb)) _
  rw [getTotalWeightKg, addTotals_eq, List.foldl_map, hsum, BatchServices.totalWeightKg,
    List.foldl_map]
  rfl

/-! ### Whole grams -/

def InGrams (x : ℚ) : Prop := ∃ n : ℕ, x = n / 10 ^ 3

theorem InGrams.add {x y : ℚ} (hx : InGrams x) (hy : InGrams y) : InGrams (x + y) := by
  obtain ⟨n, rfl⟩ := hx
  obtain ⟨m, rfl⟩ := hy
  exact ⟨n + m, by push_cast; ring⟩

theorem InGrams.toFixed {x : ℚ} (h : InGrams x) : ExactDecimals.toFixed id x 3 = x := by
  obtain ⟨n, hn⟩ := h
  exact toFixed_of_multiple hn

def Grams (l : List (String × ℚ)) : Prop := ∀ entry ∈ l, InGrams entry.2

def Weighed (t : BatchComponent) : Prop := ∀ materials ∈ t.leaves, Grams materials.entries

/-- `r` holds `held` of each material, in whole grams, and `sum` of all. -/
structure Holds (r : Record String ℚ) (held : String → Option ℚ) (sum : ℚ) : Prop where
  grams : Grams r.entries
  get : ∀ mat, r.get mat = held mat
  total : total r.entries = sum

variable {r : Record String ℚ} {held : String → Option ℚ} {sum : ℚ}

end BatchComponent

end Livora.BatchComposites
