import Livora.StockBooks

/-! The tables behind the stock of the centres, and every outside call that movements, sales
and transfers to companies make. A transaction of the database that only writes is one call; the
acceptance of a transfer locks its rows first and keeps them until it ends. A locked row is
refused to the others, which stands for their waiting until they give up. -/

namespace Livora.CenterBooks

open DoubleRounding EffectPrograms EffectPrograms.Action RewardStrategies StockBooks
open BackOffice (Role User)
open PinVerification (Delivery truthy)
open StoreBooks (Failure)

/-! ### The tables -/

inductive TransferStatus where
  | requested
  | accepted
  | delivered
deriving DecidableEq

def TransferStatus.name : TransferStatus → String
  | .requested => "REQUESTED"
  | .accepted => "ACCEPTED"
  | .delivered => "DELIVERED"

structure B2bTransfer where
  id : String
  requestedMaterials : List Weighed
  materials : List Weighed
  status : TransferStatus
  notes : Option String
  buyerId : String
  centerId : String
deriving DecidableEq

structure Sale where
  materialType : String
  weightKg : ℚ
  totalAmount : ℚ
  buyerId : String
  centerId : String
  consolidatedBatchId : Option String
deriving DecidableEq

structure EsgImpact where
  recycledMaterial : String
  recycledKg : ℚ
  co2SavedKg : ℚ
  waterSavedLiters : ℚ
  energySavedKwh : ℚ
  materialsBreakdown : List Weighed
deriving DecidableEq

structure Certificate where
  buyerId : String
  ipfsHash : String
  esgImpact : EsgImpact
  /-- The transfer it was issued for; kept for statements only. -/
  transferId : String
deriving DecidableEq

structure ConsolidatedBatch where
  id : String
  sold : Bool
deriving DecidableEq

/-- A validated sale: at most two decimals, and half a kilogram at least. -/
structure CreateSaleDto where
  materialType : String
  weightKg : Double
  totalAmount : Double
  buyerId : String
  consolidatedBatchId : Option String
  twoDecimals : ∃ n : ℕ, weightKg.toDecimal.value = n / 100
  least : 1 / 2 ≤ weightKg.val

/-- What a batch brought in was validated when the centre weighed it. -/
structure BatchCredit where
  batchId : String
  centerId : String
  materials : List (String × Double)
  twoDecimals : ∀ entry ∈ materials, ∃ n : ℕ, entry.2.toDecimal.value = n / 100

def BatchCredit.weighed (b : BatchCredit) : List Weighed :=
  b.materials.map fun entry => (entry.1, entry.2.val)

/-! ### The calls -/

inductive Op where
  | findUser (userId : String)
  | findItem (centerId materialType : String)
  | recordMovement (centerId : String) (type : MovementType) (quantityKg : Double)
      (materialType : String) (existingItem : Option InventoryItem)
  | sumMovements (centerId name : String) (type : MovementType)
  | findInsensitive (centerId name : String)
  | sell (centerId normMaterial : String) (item : InventoryItem) (dto : CreateSaleDto)
  | dispatch (centerId buyerId : String) (lines : List (InventoryItem × Weighed))
  | findTransfer (id : String)
  | begin
  | lockItems (tx : ℕ) (centerId : String) (names : List String)
  | sumByMaterial (tx : ℕ) (centerId : String) (names : List String)
  | accept (tx : ℕ) (id centerId : String) (lines : List (InventoryItem × Weighed))
      (notes : Option String)
  | rollback (tx : ℕ)
  | deliver (id : String)
  | uploadJson (esgImpact : EsgImpact)
  | createCertificate (transferId buyerId ipfsHash : String) (esgImpact : EsgImpact)
  | credit (batch : BatchCredit)

/-- A sum over the movements of one material in one direction. -/
abbrev MovementSum := String × MovementType × ℚ

abbrev Reply : Op → Type
  | .findUser _ => Option User
  | .findItem _ _ => Option InventoryItem
  | .recordMovement _ _ _ _ _ => InventoryMovement
  | .sumMovements _ _ _ => ℚ
  | .findInsensitive _ _ => Option InventoryItem
  | .sell _ _ _ _ => Sale
  | .dispatch _ _ _ => B2bTransfer
  | .findTransfer _ => Option B2bTransfer
  | .begin => ℕ
  | .lockItems _ _ _ => List InventoryItem
  | .sumByMaterial _ _ _ => List MovementSum
  | .accept _ _ _ _ _ => B2bTransfer
  | .rollback _ => Unit
  | .deliver _ => Bool
  | .uploadJson _ => String
  | .createCertificate _ _ _ _ => Certificate
  | .credit _ => Unit

abbrev Work (α : Type) := Action Op Reply Failure α

def call (i : Op) : Work (Reply i) := perform i

/-! ### The world -/

structure World where
  users : List User
  stock : Stock
  transfers : List B2bTransfer
  sales : List Sale
  certificates : List Certificate
  consolidated : List ConsolidatedBatch
  /-- The open transactions of the database that hold locks, and the rows they hold. -/
  transactions : ℕ → Bool
  nextTx : ℕ
  rowLock : String × String → Option ℕ

/-- How the answer of a call arrives, and what the outside puts into it. -/
structure Outcome where
  delivery : Delivery
  /-- The row that a query finds first. -/
  row : ℕ
  id : String

namespace World

def update (w : World) (d : Delivery) (f : World → World) : World := if d.applied then f w else w

/-! #### Reads -/

def findUser (w : World) (userId : String) : Option User :=
  w.users.find? fun user => user.id == userId

def findTransfer (w : World) (id : String) : Option B2bTransfer :=
  w.transfers.find? fun row => row.id == id

/-- One of the rows of the centre under the name, in whatever letters. -/
def findInsensitive (t : Letters) (w : World) (centerId name : String) (row : ℕ) :
    Option InventoryItem :=
  let rows := w.stock.matching t centerId name
  rows[row]?.or rows.head?

/-- `UPPER(TRIM("materialType")) IN (…)` -/
def named (t : Letters) (w : World) (centerId : String) (names : List String) :
    List InventoryItem :=
  w.stock.items.filter fun item => item.centerId == centerId &&
    names.contains (t.norm item.materialType)

/-- The sums of the movements, by material and direction, of those that there are. -/
def sumByMaterial (t : Letters) (w : World) (centerId : String) (names : List String) :
    List MovementSum :=
  (names.flatMap fun name => [(name, MovementType.in_), (name, MovementType.out)]).filterMap
    fun group =>
      if w.stock.movements.any fun m => m.of t centerId group.1 && m.type == group.2 then
        some (group.1, group.2, w.stock.total t centerId group.1 group.2)
      else none

/-! #### Locks -/

def rowOf (item : InventoryItem) : String × String := (item.centerId, item.materialType)

def free (w : World) (tx : Option ℕ) (row : String × String) : Bool :=
  w.rowLock row == none || w.rowLock row == tx

def freeItems (w : World) (tx : Option ℕ) (items : List InventoryItem) : Bool :=
  items.all fun item => w.free tx (rowOf item)

def close (w : World) (tx : ℕ) : World :=
  { w with
    transactions := Function.update w.transactions tx false
    rowLock := fun row => if w.rowLock row = some tx then none else w.rowLock row }

def lock (w : World) (tx : ℕ) (items : List InventoryItem) : World :=
  { w with rowLock := fun row =>
      if items.any fun item => rowOf item == row then some tx else w.rowLock row }

/-! #### Writes -/

def rowsOf (t : Letters) (w : World) : Op → List InventoryItem
  | .recordMovement _ _ _ _ existingItem => existingItem.toList
  | .sell _ _ item _ => [item]
  | .dispatch _ _ lines => lines.map Prod.fst
  | .accept _ _ _ lines _ => lines.map Prod.fst
  | .credit batch => batch.materials.filterMap fun entry =>
      w.stock.find batch.centerId (t.norm entry.1)
  | _ => []

def sold (w : World) (consolidatedBatchId : Option String) : Option (List ConsolidatedBatch) :=
  match consolidatedBatchId with
  | none => some w.consolidated
  | some id =>
    if w.consolidated.any fun b => b.id == id then
      some (w.consolidated.map fun b => if b.id = id then { b with sold := true } else b)
    else none

def saleOf (centerId normMaterial : String) (dto : CreateSaleDto) : Sale :=
  ⟨normMaterial, dto.weightKg.toDecimal.value, dto.totalAmount.toDecimal.value, dto.buyerId,
    centerId, truthy dto.consolidatedBatchId⟩

/-- The columns of a sale are `Decimal(12, 3)` and `Decimal(14, 2)`. -/
def sell (w : World) (centerId normMaterial : String) (item : InventoryItem) (dto : CreateSaleDto) :
    Option World := do
  let stock ← w.stock.takeOut centerId .sale [(item, normMaterial, dto.weightKg.val)]
  let consolidated ← w.sold (truthy dto.consolidatedBatchId)
  if dto.weightKg.toDecimal.value < 10 ^ 9 ∧ dto.totalAmount.toDecimal.value < 10 ^ 12 then
    some { w with
      stock := stock
      consolidated := consolidated
      sales := w.sales ++ [saleOf centerId normMaterial dto] }
  else none

def dispatched (id centerId buyerId : String) (lines : List (InventoryItem × Weighed)) :
    B2bTransfer :=
  ⟨id, lines.map Prod.snd, lines.map Prod.snd, .accepted, none, buyerId, centerId⟩

def dispatch (w : World) (id centerId buyerId : String) (lines : List (InventoryItem × Weighed)) :
    Option World :=
  if (w.findTransfer id).isSome then none
  else do
    let stock ← w.stock.takeOut centerId (.transfer id) lines
    some { w with stock := stock, transfers := w.transfers ++
      [dispatched id centerId buyerId lines] }

def acceptedAs (id : String) (materials : List Weighed) (notes : Option String)
    (row : B2bTransfer) : B2bTransfer :=
  if row.id = id then { row with status := .accepted, materials := materials, notes := notes }
  else row

def accept (w : World) (id centerId : String) (lines : List (InventoryItem × Weighed))
    (notes : Option String) : Option World :=
  if (w.findTransfer id).isSome then do
    let stock ← w.stock.takeOut centerId (.transfer id) lines
    some { w with
      stock := stock
      transfers := w.transfers.map (acceptedAs id (lines.map Prod.snd) notes) }
  else none

def deliverable (w : World) (id : String) : Bool :=
  w.transfers.any fun row => row.id == id && row.status == .accepted

def deliveredAs (id : String) (row : B2bTransfer) : B2bTransfer :=
  if row.id = id ∧ row.status = .accepted then { row with status := .delivered } else row

/-- `UPDATE … WHERE id AND status = 'ACCEPTED'` -/
def deliver (w : World) (id : String) : World :=
  { w with transfers := w.transfers.map (deliveredAs id) }

def recordMovement (w : World) (centerId : String) (type : MovementType) (quantityKg : Double)
    (materialType : String) (existingItem : Option InventoryItem) : Option World := do
  let stock ← w.stock.recordMovement centerId type quantityKg.val materialType existingItem
  some { w with stock := stock }

def credit (t : Letters) (w : World) (batch : BatchCredit) : Option World := do
  let stock ← w.stock.credit t batch.centerId (.batch batch.batchId) batch.weighed
  some { w with stock := stock }

def effect (t : Letters) (w : World) (o : Outcome) : Op → Option World
  | .recordMovement centerId type quantityKg materialType existingItem =>
    w.recordMovement centerId type quantityKg materialType existingItem
  | .sell centerId normMaterial item dto => w.sell centerId normMaterial item dto
  | .dispatch centerId buyerId lines => w.dispatch o.id centerId buyerId lines
  | .accept _ id centerId lines notes => w.accept id centerId lines notes
  | .deliver id => some (w.deliver id)
  | .createCertificate transferId buyerId ipfsHash esgImpact =>
    some { w with certificates := w.certificates ++ [⟨buyerId, ipfsHash, esgImpact, transferId⟩] }
  | .credit batch => w.credit t batch
  | _ => some w

def txOf : Op → Option ℕ
  | .accept tx _ _ _ _ => some tx
  | _ => none

/-- The effect, where no other transaction holds a row that the call writes. -/
def attempt (t : Letters) (w : World) (o : Outcome) (i : Op) : Option World :=
  if w.freeItems (txOf i) (w.rowsOf t i) then w.effect t o i else none

def after (t : Letters) (w : World) (i : Op) (o : Outcome) : World :=
  match i with
  | .begin => w.update o.delivery fun w =>
      { w with transactions := Function.update w.transactions w.nextTx true, nextTx := w.nextTx + 1 }
  | .lockItems tx centerId names =>
    if w.transactions tx then
      if o.delivery = .done && w.freeItems (some tx) (w.named t centerId names) then
        w.lock tx (w.named t centerId names)
      else w.close tx
    else w
  | .sumByMaterial tx _ _ => if o.delivery = .done then w else w.close tx
  | .accept tx _ _ _ _ =>
    if w.transactions tx then
      (w.update o.delivery fun w => (w.attempt t o i).getD w).close tx
    else w
  | .rollback tx => w.close tx
  | i => w.update o.delivery fun w => (w.attempt t o i).getD w

/-- The answer of a writing call, with what it returns of the new rows. -/
def written {α : Type} (w : Option World) (d : Delivery) (f : World → Option α) :
    Except Failure α :=
  match w.bind f with
  | some a => d.answer .outside a
  | none => .error .outside

def reply (t : Letters) (w : World) (i : Op) (o : Outcome) : Except Failure (Reply i) :=
  match i with
  | .findUser userId => o.delivery.answer .outside (w.findUser userId)
  | .findItem centerId materialType =>
    o.delivery.answer .outside (w.stock.find centerId materialType)
  | .recordMovement centerId type quantityKg materialType existingItem =>
    written (w.attempt t o (.recordMovement centerId type quantityKg materialType existingItem))
      o.delivery fun w => w.stock.movements.getLast?
  | .sumMovements centerId name type =>
    o.delivery.answer .outside (w.stock.sumInsensitive t centerId name type)
  | .findInsensitive centerId name =>
    o.delivery.answer .outside (w.findInsensitive t centerId name o.row)
  | .sell centerId normMaterial item dto =>
    written (w.attempt t o (.sell centerId normMaterial item dto)) o.delivery fun w =>
      w.sales.getLast?
  | .dispatch centerId buyerId lines =>
    written (w.attempt t o (.dispatch centerId buyerId lines)) o.delivery fun w =>
      w.findTransfer o.id
  | .findTransfer id => o.delivery.answer .outside (w.findTransfer id)
  | .begin => o.delivery.answer .outside w.nextTx
  | .lockItems tx centerId names =>
    if w.transactions tx && w.freeItems (some tx) (w.named t centerId names) then
      o.delivery.answer .outside (w.named t centerId names)
    else .error .outside
  | .sumByMaterial tx centerId names =>
    if w.transactions tx then o.delivery.answer .outside (w.sumByMaterial t centerId names)
    else .error .outside
  | .accept tx id centerId lines notes =>
    if w.transactions tx then
      written (w.attempt t o (.accept tx id centerId lines notes)) o.delivery fun w =>
        w.findTransfer id
    else .error .outside
  | .rollback _ => o.delivery.answer .outside ()
  | .deliver id => o.delivery.answer .outside (w.deliverable id)
  | .uploadJson _ => o.delivery.answer .outside o.id
  | .createCertificate transferId buyerId ipfsHash esgImpact =>
    o.delivery.answer .outside ⟨buyerId, ipfsHash, esgImpact, transferId⟩
  | .credit batch => written (w.attempt t o (.credit batch)) o.delivery fun _ => some ()

def serve (t : Letters) (w : World) (i : Op) (o : Outcome) : Except Failure (Reply i) × World :=
  (w.reply t i o, w.after t i o)

end World

end Livora.CenterBooks
