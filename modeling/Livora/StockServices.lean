import Livora.CenterBooks

/-! `InventoryService`, `SalesService` and `B2bTransfersService`: the calls that change the stock of
a centre. Each checks the stock, two of them the balance of masses, and writes afterwards. -/

namespace Livora.StockServices

open DoubleRounding EffectPrograms EffectPrograms.Action RewardStrategies StockBooks
open CenterBooks
  (Op Reply Work call B2bTransfer Sale Certificate EsgImpact CreateSaleDto BatchCredit
  MovementSum TransferStatus)
open StoreBooks (Failure sumNumbers numberText centsText toFixed2)
open BackOffice (Role User)
open PinVerification (truthy)

structure CreateMovementDto where
  type : MovementType
  quantityKg : Double
  materialType : String
  positive : 0 < quantityKg.val

structure MaterialLineDto where
  material : String
  weightKg : Double
  positive : 0 < weightKg.val

structure CreateB2bTransferDto where
  buyerId : String
  materials : List MaterialLineDto

structure AcceptB2bTransferDto where
  actualMaterials : List MaterialLineDto
  notes : Option String

/-! ### Stock and balance -/

/-- `!item || Number(item.quantityKg) < weightKg` -/
def short (item : Option InventoryItem) (weightKg : ℚ) : Bool :=
  item.all fun row => decide (fl row.quantityKg < weightKg)

/-- `Number(item?.quantityKg || 0)` as a text -/
def availableText (item : Option InventoryItem) : String :=
  numberText ((item.map fun row => fl row.quantityKg).getD 0)

def shrinkFactor : ℚ := fl (5 / 100)

def allowedLimit (totalIn : ℚ) : ℚ := fl (totalIn * fl (1 - shrinkFactor))

/-- `totalOut + weightKg > allowedLimit` -/
def exceeds (totalIn totalOut weightKg : ℚ) : Bool :=
  decide (allowedLimit totalIn < fl (totalOut + weightKg))

/-! ### Movements by hand -/

def createMovement (centerId : String) (dto : CreateMovementDto) : Work InventoryMovement := do
  let existingItem ← call (.findItem centerId dto.materialType)
  if dto.type = .out ∧ short existingItem dto.quantityKg.val = true then
    throw (.badRequest ("Stock insuficiente de " ++ dto.materialType ++
      " para realizar la salida (disponible: " ++ availableText existingItem ++ " kg)"))
  else call (.recordMovement centerId dto.type dto.quantityKg dto.materialType existingItem)

/-! ### Sales -/

def isCompany (buyer : Option User) : Bool := buyer.any fun user => user.role = .empresaB2b

def exceedsText (normMaterial : String) (totalIn totalOut weightKg : ℚ) : String :=
  "La venta excede el límite contable de conservación de masa con merma del 5% para " ++
    normMaterial ++ ". Total entradas: " ++ numberText totalIn ++ " kg (límite con merma: " ++
    centsText (toFixed2 (allowedLimit totalIn)) ++ " kg), Salidas históricas: " ++
    numberText totalOut ++ " kg, Solicitado: " ++ numberText weightKg ++ " kg."

def sellFree (centerId normMaterial : String) (dto : CreateSaleDto) : Work Sale := do
  match ← call (.findInsensitive centerId normMaterial) with
  | some invItem =>
    if short (some invItem) dto.weightKg.val then
      throw (.badRequest ("Inventario insuficiente para " ++ normMaterial ++ ". Disponible: " ++
        availableText (some invItem) ++ " kg, requerido: " ++ numberText dto.weightKg.val ++
          " kg."))
    else call (.sell centerId normMaterial invItem dto)
  | none =>
    throw (.badRequest ("Inventario insuficiente para " ++ normMaterial ++ ". Disponible: " ++
      availableText none ++ " kg, requerido: " ++ numberText dto.weightKg.val ++ " kg."))

def sellBalanced (centerId normMaterial : String) (dto : CreateSaleDto) : Work Sale := do
  let totalIn ← call (.sumMovements centerId normMaterial .in_)
  let totalOut ← call (.sumMovements centerId normMaterial .out)
  if exceeds (fl totalIn) (fl totalOut) dto.weightKg.val then
    throw (.badRequest (exceedsText normMaterial (fl totalIn) (fl totalOut) dto.weightKg.val))
  else sellFree centerId normMaterial dto

def createSale (t : Letters) (centerId : String) (dto : CreateSaleDto) : Work Sale := do
  let buyer ← call (.findUser dto.buyerId)
  if isCompany buyer then sellBalanced centerId (t.norm dto.materialType) dto
  else throw (.notFound "La empresa compradora B2B no existe o no posee el rol EMPRESA_B2B")

/-! ### Weights by material -/

/-- `map.set(norm, (map.get(norm) || 0) + weightKg)` -/
def addWeight : List Weighed → String → ℚ → List Weighed
  | [], norm, weightKg => [(norm, weightKg)]
  | (name, weight) :: map, norm, weightKg =>
    if name = norm then (name, fl (weight + weightKg)) :: map
    else (name, weight) :: addWeight map norm weightKg

def weigh (t : Letters) (lines : List MaterialLineDto) : List Weighed :=
  lines.foldl (fun map line => addWeight map (t.norm line.material) line.weightKg.val) []

/-! ### Direct dispatch -/

/-- The rows of the materials, each of which has its weight. -/
def findRows (centerId : String) : List Weighed → Work (List (InventoryItem × Weighed))
  | [] => pure []
  | (normMaterial, weightKg) :: requested => do
    match ← call (.findInsensitive centerId normMaterial) with
    | some invItem =>
      if short (some invItem) weightKg then
        throw (.badRequest ("Inventario insuficiente para " ++ normMaterial ++ ". Disponible: " ++
          availableText (some invItem) ++ " kg"))
      else do
        let rows ← findRows centerId requested
        pure ((invItem, normMaterial, weightKg) :: rows)
    | none =>
      throw (.badRequest ("Inventario insuficiente para " ++ normMaterial ++ ". Disponible: " ++
        availableText none ++ " kg"))

def createTransfer (t : Letters) (centerId : String) (dto : CreateB2bTransferDto) :
    Work B2bTransfer := do
  let buyer ← call (.findUser dto.buyerId)
  if isCompany buyer then do
    let lines ← findRows centerId (weigh t dto.materials)
    call (.dispatch centerId dto.buyerId lines)
  else throw (.notFound "La empresa compradora B2B no existe.")

/-! ### Acceptance -/

/-- The rows and the sums that an acceptance goes by; a later entry replaces an earlier one. -/
structure Inventory where
  inventoryMap : List (String × InventoryItem)
  movementSums : List MovementSum
deriving DecidableEq

namespace Inventory

def empty : Inventory := ⟨[], []⟩

def get (inventory : Inventory) (normMaterial : String) : Option InventoryItem :=
  ((inventory.inventoryMap.filter fun entry => entry.1 == normMaterial).getLast?).map Prod.snd

/-- `totals.get(normMaterial) || 0` -/
def total (inventory : Inventory) (normMaterial : String) (type : MovementType) : ℚ :=
  (((inventory.movementSums.filter fun sum =>
    sum.1 == normMaterial && sum.2.1 == type).getLast?).map
    fun sum => fl sum.2.2).getD 0

end Inventory

/-- The rows of the centre under the names, or none where the database threw. -/
def lockItems (tx : ℕ) (centerId : String) (materialNames : List String) :
    Work (Option (List InventoryItem)) :=
  recover (do
    let lockedItems ← call (.lockItems tx centerId materialNames)
    pure (some lockedItems)) none

/-- The rows are locked, and then the movements are summed; what fails is left out. -/
def lockRows (t : Letters) (tx : ℕ) (centerId : String) (materialNames : List String) :
    Work Inventory := do
  match ← lockItems tx centerId materialNames with
  | none => pure .empty
  | some lockedItems => do
    let movementSums ← recover (call (.sumByMaterial tx centerId materialNames)) []
    pure ⟨lockedItems.map fun item => (t.norm item.materialType, item), movementSums⟩

def lookUp (centerId : String) : List String → Work Inventory
  | [] => pure .empty
  | normMaterial :: materialNames => do
    let invItem ← call (.findInsensitive centerId normMaterial)
    let totalIn ← call (.sumMovements centerId normMaterial .in_)
    let totalOut ← call (.sumMovements centerId normMaterial .out)
    let rest ← lookUp centerId materialNames
    pure ⟨(invItem.toList.map fun item => (normMaterial, item)) ++ rest.inventoryMap,
      (normMaterial, .in_, totalIn) :: (normMaterial, .out, totalOut) :: rest.movementSums⟩

def takeInventory (t : Letters) (tx : ℕ) (centerId : String) (materialNames : List String) :
    Work Inventory := do
  let inventory ← lockRows t tx centerId materialNames
  if inventory.inventoryMap = [] then lookUp centerId materialNames else pure inventory

/-- One material against the balance of masses, where it has come in at all, and the stock. -/
def checkLine (inventory : Inventory) (entry : Weighed) :
    Except Failure (InventoryItem × Weighed) :=
  if 0 < inventory.total entry.1 .in_ ∧
      exceeds (inventory.total entry.1 .in_) (inventory.total entry.1 .out) entry.2 = true then
    .error (.badRequest ("La salida excede el balance de masa con merma industrial del 5% para " ++
      entry.1 ++ "."))
  else
    match inventory.get entry.1 with
    | some inv =>
      if short (some inv) entry.2 then
        .error (.badRequest ("Inventario físico insuficiente para " ++ entry.1 ++
          ". Disponible: " ++
          availableText (some inv) ++ " kg, a despachar: " ++ numberText entry.2 ++ " kg."))
      else .ok (inv, entry)
    | none =>
      .error (.badRequest ("Inventario físico insuficiente para " ++ entry.1 ++ ". Disponible: " ++
        availableText none ++ " kg, a despachar: " ++ numberText entry.2 ++ " kg."))

def checkLines (inventory : Inventory) (actual : List Weighed) :
    Except Failure (List (InventoryItem × Weighed)) :=
  actual.mapM (checkLine inventory)

/-- `dto.notes ? ... : transfer.notes` -/
def joinedNotes (t : Letters) (notes transferNotes : Option String) : Option String :=
  match truthy notes with
  | some text => some (t.trim (transferNotes.getD "" ++ " | " ++ text))
  | none => transferNotes

def acceptIn (t : Letters) (tx : ℕ) (transfer : B2bTransfer) (id centerId : String)
    (actual : List Weighed) (notes : Option String) : Work B2bTransfer := do
  let inventory ← takeInventory t tx centerId (actual.map Prod.fst)
  match checkLines inventory actual with
  | .error e => throw e
  | .ok lines => call (.accept tx id centerId lines (joinedNotes t notes transfer.notes))

def acceptFound (t : Letters) (transfer : B2bTransfer) (id centerId : String)
    (dto : AcceptB2bTransferDto) : Work B2bTransfer := do
  let tx ← call .begin
  rescue (acceptIn t tx transfer id centerId (weigh t dto.actualMaterials) dto.notes) fun e => do
    call (.rollback tx)
    throw e

def acceptTransfer (t : Letters) (id centerId : String) (dto : AcceptB2bTransferDto) :
    Work B2bTransfer := do
  match ← call (.findTransfer id) with
  | none => throw (.notFound "Transferencia B2B no encontrada.")
  | some transfer =>
    if transfer.centerId ≠ centerId then
      throw (.badRequest "No tienes permiso para gestionar esta transferencia.")
    else if transfer.status ≠ .requested then
      throw (.badRequest ("La solicitud no está en estado pendiente de despacho. Estado actual: " ++
        transfer.status.name))
    else if weigh t dto.actualMaterials = [] then
      throw (.badRequest "Debe especificar los kg reales despachados.")
    else acceptFound t transfer id centerId dto

/-! ### Delivery -/

/-- `Object.values(materialsMap).reduce(...)` -/
def totalKg (materials : List Weighed) : ℚ := sumNumbers (materials.map Prod.snd)

def esgImpact (materials : List Weighed) : EsgImpact :=
  ⟨", ".intercalate (materials.map Prod.fst), totalKg materials,
    toFixed (fl (totalKg materials * (25 / 10))) 1, toFixed (fl (totalKg materials * 10)) 1,
    toFixed (fl (totalKg materials * fl (42 / 10))) 1, materials⟩

def certify (id : String) : Work (B2bTransfer × Certificate) := do
  match ← call (.findTransfer id) with
  | none => throw .outside
  | some updatedTransfer => do
    let ipfsHash ← call (.uploadJson (esgImpact updatedTransfer.materials))
    let certificate ← call (.createCertificate id updatedTransfer.buyerId ipfsHash
      (esgImpact updatedTransfer.materials))
    pure (updatedTransfer, certificate)

def deliverTransfer (id : String) : Work (B2bTransfer × Certificate) := do
  let updated ← call (.deliver id)
  if updated then certify id
  else throw (.conflict ("La transferencia B2B ya fue recepcionada o está siendo procesada " ++
    "concurrentemente."))

def receiveTransfer (id buyerId : String) : Work (B2bTransfer × Certificate) := do
  match ← call (.findTransfer id) with
  | none => throw (.notFound "Transferencia B2B no encontrada.")
  | some transfer =>
    if transfer.buyerId ≠ buyerId then
      throw (.badRequest "No tienes autorización para recibir esta transferencia.")
    else if transfer.status ≠ .accepted then
      throw (.badRequest
        ("Solo se pueden recibir despachos que han sido aceptados por el centro. " ++
        "Estado actual: " ++ transfer.status.name))
    else deliverTransfer id

end Livora.StockServices
