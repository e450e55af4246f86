import Livora.KeyedSums
import Livora.StoreBooks

/-! The stock of the collection centres: what is there of a material, and the movements in
and out. The services change both together, in one transaction of the database; the writes are
given here as they take effect, or fail and change nothing. -/

namespace Livora.StockBooks

open DoubleRounding RewardStrategies

/-! ### Names of materials -/

/-- The two functions of strings that the services normalise names with. -/
structure Letters where
  toUpperCase : String → String
  trim : String → String
  upper_upper : ∀ s, toUpperCase (toUpperCase s) = toUpperCase s
  trim_trim : ∀ s, trim (trim s) = trim s
  upper_trim : ∀ s, toUpperCase (trim s) = trim (toUpperCase s)

namespace Letters

/-- `material.toUpperCase().trim()` -/
def norm (t : Letters) (material : String) : String := t.trim (t.toUpperCase material)

/-- `equals` with `mode: 'insensitive'` -/
def insensitive (t : Letters) (a b : String) : Bool := t.toUpperCase a == t.toUpperCase b

variable {t : Letters} {a b : String}

theorem norm_norm : t.norm (t.norm a) = t.norm a := by
  rw [norm, norm, t.upper_trim, t.upper_upper, t.trim_trim]

theorem norm_eq_of_insensitive (h : t.insensitive a b = true) : t.norm a = t.norm b := by
  rw [norm, norm, beq_iff_eq.mp h]

end Letters

/-! ### Amounts -/

/-- Three decimals, halves away from zero. -/
def scale3 (x : ℚ) : ℚ :=
  if x < 0 then -⌊-x * 1000 + 1 / 2⌋ / 1000 else ⌊x * 1000 + 1 / 2⌋ / 1000

/-- What a `Decimal(14, 3)` column takes; none where it does not fit. -/
def kgColumn (x : ℚ) : Option ℚ := if |scale3 x| < 10 ^ 11 then some (scale3 x) else none

/-- The number as the database is sent it. -/
def decimalOf (x : ℚ) : Option ℚ := (Double.ofRat? x).map fun d => d.toDecimal.value

/-! ### The tables -/

inductive MovementType where
  | in_
  | out
deriving DecidableEq

/-- What a movement was made for; kept for statements only. -/
inductive Origin where
  | byHand
  | sale
  | batch (id : String)
  | transfer (id : String)
deriving DecidableEq

/-- A centre has one row at most for a name, by which the row is updated. -/
structure InventoryItem where
  centerId : String
  materialType : String
  quantityKg : ℚ
deriving DecidableEq

structure InventoryMovement where
  centerId : String
  type : MovementType
  quantityKg : ℚ
  materialType : String
  origin : Origin
deriving DecidableEq

structure Stock where
  items : List InventoryItem
  movements : List InventoryMovement
deriving DecidableEq

abbrev Weighed := String × ℚ

namespace Stock

/-- `findFirst` with the name as it is. -/
def find (s : Stock) (centerId materialType : String) : Option InventoryItem :=
  s.items.find? fun item => item.centerId == centerId && item.materialType == materialType

def matching (t : Letters) (s : Stock) (centerId name : String) : List InventoryItem :=
  s.items.filter fun item => item.centerId == centerId && t.insensitive item.materialType name

/-- The sum over the movements of the centre under a name, in whatever letters. -/
def sumInsensitive (t : Letters) (s : Stock) (centerId name : String) (type : MovementType) : ℚ :=
  ((s.movements.filter fun m => m.centerId == centerId && t.insensitive m.materialType name &&
    m.type == type).map InventoryMovement.quantityKg).sum

/-! #### Writes -/

def write (s : Stock) (centerId materialType : String) (quantityKg : ℚ) : Stock :=
  { s with items := s.items.map fun item =>
      if item.centerId = centerId ∧ item.materialType = materialType then
        { item with quantityKg := quantityKg }
      else item }

/-- `data: { quantityKg }`, by the number. -/
def set (s : Stock) (centerId materialType : String) (number : ℚ) : Option Stock := do
  let _row ← s.find centerId materialType
  let quantityKg ← kgColumn (← decimalOf number)
  some (s.write centerId materialType quantityKg)

/-- `increment`, or `decrement` by the negative. -/
def increment (s : Stock) (centerId materialType : String) (amount : ℚ) : Option Stock := do
  let row ← s.find centerId materialType
  let quantityKg ← kgColumn (row.quantityKg + amount)
  some (s.write centerId materialType quantityKg)

/-- The name is unique within the centre. -/
def create (s : Stock) (centerId materialType : String) (number : ℚ) : Option Stock :=
  if (s.find centerId materialType).isSome then none
  else do
    let quantityKg ← kgColumn (← decimalOf number)
    some { s with items := s.items ++ [⟨centerId, materialType, quantityKg⟩] }

def log (s : Stock) (centerId : String) (type : MovementType) (number : ℚ) (materialType : String)
    (origin : Origin) : Option Stock := do
  let quantityKg ← kgColumn (← decimalOf number)
  some { s with movements := s.movements ++ [⟨centerId, type, quantityKg, materialType, origin⟩] }

/-! #### Transactions -/

def recordMovement (s : Stock) (centerId : String) (type : MovementType) (quantityKg : ℚ)
    (materialType : String) (existingItem : Option InventoryItem) : Option Stock := do
  let s ← s.log centerId type quantityKg materialType .byHand
  match existingItem with
  | some item =>
    let currentQty := fl item.quantityKg
    s.set item.centerId item.materialType
      (if type = .in_ then fl (currentQty + quantityKg) else fl (currentQty - quantityKg))
  | none => s.create centerId materialType quantityKg

def bringIn (s : Stock) (centerId normMaterial : String) (weight : ℚ) : Option Stock :=
  match s.find centerId normMaterial with
  | some existingItem => do
    s.increment existingItem.centerId existingItem.materialType (← decimalOf weight)
  | none => s.create centerId normMaterial weight

def creditOne (t : Letters) (s : Stock) (centerId : String) (origin : Origin) (entry : Weighed) :
    Option Stock := do
  let s ← s.bringIn centerId (t.norm entry.1) entry.2
  s.log centerId .in_ entry.2 (t.norm entry.1) origin

/-- What a batch brings in: its materials of some weight, one after the other. -/
def credit (t : Letters) (s : Stock) (centerId : String) (origin : Origin)
    (materials : List Weighed) : Option Stock :=
  (materials.filter fun entry => decide (0 < entry.2)).foldlM
    (fun s entry => s.creditOne t centerId origin entry) s

def decrement (s : Stock) (item : InventoryItem) (weightKg : ℚ) : Option Stock := do
  s.increment item.centerId item.materialType (-(← decimalOf weightKg))

/-- Each material out of the row that was read for it, then one movement for each. -/
def takeOut (s : Stock) (centerId : String) (origin : Origin)
    (lines : List (InventoryItem × Weighed)) : Option Stock := do
  let s ← lines.foldlM (fun s line => s.decrement line.1 line.2.2) s
  lines.foldlM (fun s line => s.log centerId .out line.2.2 line.2.1 origin) s

end Stock

/-! ### What is there, and what was moved -/

variable {t : Letters} {s s' : Stock} {centerId materialType name : String} {x y number : ℚ}
  {origin : Origin} {type : MovementType}

/-- The row is of the centre and of the material, under any of its names. -/
def InventoryItem.of (t : Letters) (item : InventoryItem) (centerId material : String) : Bool :=
  item.centerId == centerId && t.norm item.materialType == material

def InventoryMovement.of (t : Letters) (m : InventoryMovement) (centerId material : String) :
    Bool :=
  m.centerId == centerId && t.norm m.materialType == material

def InventoryMovement.signed (m : InventoryMovement) : ℚ :=
  if m.type = .in_ then m.quantityKg else -m.quantityKg

namespace Stock

def held (t : Letters) (s : Stock) (centerId material : String) : ℚ :=
  ((s.items.filter fun item => item.of t centerId material).map InventoryItem.quantityKg).sum

def total (t : Letters) (s : Stock) (centerId material : String) (type : MovementType) : ℚ :=
  ((s.movements.filter fun m => m.of t centerId material && m.type == type).map
    InventoryMovement.quantityKg).sum

end Stock

end Livora.StockBooks
