import Livora.WalletBalance
import Mathlib.Data.List.Sort

/-! `WalletHistoryAggregatorService`: what a wallet has paid and earned, page by page, read off the
same rows as the balance. -/

namespace Livora.WalletHistory

open DoubleRounding RewardStrategies StoreBooks
open BackOffice (Role User PaymentTransaction)
open PinVerification (truthy firstText)

/-! ### The rows, with what the history shows of them -/

structure Party where
  name : Option String
  email : String
  walletAddress : Option String
deriving DecidableEq

structure HistoryBatch extends StoreBooks.Batch where
  destinationCenter : Option Party
  txHash : Option String
  ipfsCid : Option String
  updatedAt : ℕ
deriving DecidableEq

structure HistoryRequest extends StoreBooks.CollectionRequest where
  id : String
  isDonation : Bool
  collector : Option Party
  txHash : Option String
  updatedAt : ℕ
deriving DecidableEq

structure HistoryRedemption extends StoreBooks.RedemptionTransaction where
  id : String
  businessName : String
  storeUser : Party
  txHash : Option String
  updatedAt : ℕ
deriving DecidableEq

structure HistoryTransfer extends StoreBooks.WalletTransfer where
  id : String
  sender : Option Party
  receiver : Option Party
  fromAddress : String
  toAddress : String
  note : Option String
  txHash : Option String
  createdAt : ℕ
deriving DecidableEq

structure Tables where
  users : List User
  redemptions : List HistoryRedemption
  batches : List HistoryBatch
  requests : List HistoryRequest
  transfers : List HistoryTransfer
  payments : List PaymentTransaction

/-- The same rows as the balance reads them, beside the balances of the chain. -/
def Tables.world (t : Tables) (chain : String → ℕ) : World where
  users := t.users
  stores := []
  redemptions := t.redemptions.map HistoryRedemption.toRedemptionTransaction
  settlements := []
  books := ⟨t.batches.map HistoryBatch.toBatch, t.requests.map HistoryRequest.toCollectionRequest,
    t.transfers.map HistoryTransfer.toWalletTransfer, t.payments⟩
  queue := []
  chain := chain
  received := fun _ => 0
  transactions := fun _ => none
  nextTx := 0
  userLock := fun _ => none
  rowLock := fun _ => none

/-! ### Items -/

inductive Direction where
  | incoming
  | outgoing
deriving DecidableEq

def Direction.name : Direction → String
  | .incoming => "IN"
  | .outgoing => "OUT"

structure WalletTransactionItem where
  id : String
  type : String
  amount : ℚ
  direction : Direction
  recipientName : String
  recipientWallet : String
  txHash : Option String
  ipfsCid : Option String
  createdAt : ℕ
deriving DecidableEq

/-- `DEFAULT_RATES` -/
def defaultRates : List (String × ℚ) :=
  [("PET", 1), ("PAPEL", fl (5 / 10)), ("CARTON", fl (5 / 10)), ("CARTÓN", fl (5 / 10)),
    ("VIDRIO", fl (3 / 10)), ("PLASTICO", 1), ("PLÁSTICO", 1), ("ALUMINIO", fl (15 / 10)),
    ("TETRAPAK", fl (4 / 10)), ("HDPE", 1)]

/-- `DEFAULT_RATES[mat.toUpperCase()] || 1.0` -/
def defaultRate (toUpperCase : String → String) (mat : String) : ℚ :=
  (defaultRates.lookup (toUpperCase mat)).getD 1

def systemWallet : String := "GA3LZ7ROA3YAYOY52J5TDLDDMDADCCZ3CV6CXVQE4SUQGCAB732QXGEB"

def noWallet : String := "GAAAAAAAAAAAAAAAAAAAAAAAAAAAAAAAAAAAAAAAAAAAAAAAAAAAAAAA"

def systemName : String := "Sistema Livora (LIVOs)"

def localPart (email : String) : String := (email.splitOn "@").headD ""

def redemptionItem (r : HistoryRedemption) : WalletTransactionItem where
  id := r.id
  type := "PAGO_TIENDA"
  amount := fl r.tokenAmount
  direction := .outgoing
  recipientName := firstText r.businessName (localPart r.storeUser.email)
  recipientWallet := (truthy r.storeUser.walletAddress).getD noWallet
  txHash := truthy r.txHash
  ipfsCid := none
  createdAt := r.updatedAt

/-! ### Rewards -/

section Rewards

variable (toUpperCase : String → String)

def valueAt (rate : String → ℚ) (materials : NumberRecord) : ℚ :=
  materials.foldl (fun total entry => fl (total + fl (entry.2.val * rate entry.1))) 0

/-- `agreedRates[mat] || agreedRates[mat.toUpperCase()]`, or another rate. -/
def rateOr (agreedRates : NumberRecord) (other : String → ℚ) (mat : String) : ℚ :=
  ((rateUnder agreedRates mat).or (rateUnder agreedRates (toUpperCase mat))).getD (other mat)

def HistoryRequest.weights (r : HistoryRequest) : NumberRecord :=
  (r.actualWeights.or r.itemsEstimated).getD []

def HistoryRequest.rates (r : HistoryRequest) : NumberRecord := r.agreedRates.getD []

def siblings (t : Tables) (batchId : String) : ℕ :=
  (t.requests.filter fun r => r.batchId == some batchId).length

def collectorItem (t : Tables) (b : HistoryBatch) : WalletTransactionItem where
  id := b.id
  type := "RECOMPENSA_RECICLAJE"
  amount :=
    let batchTotal := valueAt (defaultRate toUpperCase) (b.materialsActual.getD [])
    toFixed (if siblings t b.id = 0 then batchTotal else fl (batchTotal * fl (2 / 10))) 2
  direction := .incoming
  recipientName := systemName
  recipientWallet :=
    ((b.destinationCenter.bind Party.walletAddress).filter (· ≠ "")).getD systemWallet
  txHash := truthy b.txHash
  ipfsCid := truthy b.ipfsCid
  createdAt := b.updatedAt

/-- A request of a batch that was received shares in the value of the batch. -/
def batchShare (t : Tables) (r : HistoryRequest) (b : HistoryBatch) : ℚ :=
  let batchTotal := valueAt (rateOr toUpperCase r.rates (defaultRate toUpperCase))
    (b.materialsActual.getD [])
  let divisor := if siblings t b.id = 0 then 1 else siblings t b.id
  fl (fl (batchTotal * fl (8 / 10)) / divisor)

def shareItem (t : Tables) (r : HistoryRequest) (b : HistoryBatch) : WalletTransactionItem where
  id := r.id
  type := "RECOMPENSA_RECICLAJE"
  amount := toFixed (batchShare toUpperCase t r b) 2
  direction := .incoming
  recipientName := systemName
  recipientWallet :=
    ((b.destinationCenter.bind Party.walletAddress).filter (· ≠ "")).getD systemWallet
  txHash := (truthy r.txHash).or (truthy b.txHash)
  ipfsCid := truthy b.ipfsCid
  createdAt := b.updatedAt

/-- Any other request earned its reward, or a quarter of its value; a donation earned nothing. -/
def ownReward (r : HistoryRequest) : ℚ :=
  if r.isDonation then 0
  else ((r.householdRewardEarned.map fl).filter (· ≠ 0)).getD
    (fl (valueAt (rateOr toUpperCase r.rates (defaultRate toUpperCase)) r.weights * fl (25 / 100)))

def ownItem (r : HistoryRequest) : WalletTransactionItem where
  id := r.id
  type := if r.isDonation then "DONACION_ECOLOGICA" else "RECOMPENSA_RECICLAJE"
  amount := toFixed (ownReward toUpperCase r) 2
  direction := .incoming
  recipientName := if r.isDonation then "Donación Ecológica (0 LIVOs)" else systemName
  recipientWallet := ((r.collector.bind Party.walletAddress).filter (· ≠ "")).getD systemWallet
  txHash := truthy r.txHash
  ipfsCid := none
  createdAt := r.updatedAt

def Tables.batchOf (t : Tables) (r : HistoryRequest) : Option HistoryBatch :=
  r.batchId.bind fun id => t.batches.find? fun b => b.id == id

def receivedBatch (t : Tables) (r : HistoryRequest) : Option HistoryBatch :=
  (t.batchOf r).filter fun b => b.status == .received

def requestItem (t : Tables) (r : HistoryRequest) : Option WalletTransactionItem :=
  match receivedBatch t r with
  | some b => some (shareItem toUpperCase t r b)
  | none =>
    if 0 < ownReward toUpperCase r ∨ r.isDonation = true then some (ownItem toUpperCase r) else none

/-- `orderBy: { updatedAt: 'desc' }` -/
def newest {β : Type} (time : β → ℕ) (rows : List β) : List β :=
  rows.insertionSort fun a b => time b ≤ time a

/-- `householdId: userId, status: 'COMPLETED'` -/
def completed (t : Tables) (userId : String) : List HistoryRequest :=
  t.requests.filter fun r => r.householdId == userId && r.status == .completed

def rewards (t : Tables) (user : User) : List WalletTransactionItem :=
  match user.role with
  | .recolector =>
    (newest HistoryBatch.updatedAt (t.batches.filter fun b =>
      b.collectorId == user.id && b.status == .received)).map (collectorItem toUpperCase t)
  | .hogar =>
    (newest HistoryRequest.updatedAt (completed t user.id)).filterMap (requestItem toUpperCase t)
  | _ => []

end Rewards

/-! ### Transfers -/

def Party.label (p : Party) : Option String :=
  (truthy p.name).or (truthy (some (localPart p.email)))

/-- `address.slice(0, 8) + '...'` -/
def shortened (address : String) : String := String.ofList (address.toList.take 8) ++ "..."

def sentItem (x : HistoryTransfer) : WalletTransactionItem where
  id := x.id
  type := "TRANSFERENCIA_P2P"
  amount := fl x.amount
  direction := .outgoing
  recipientName := (x.receiver.bind Party.label).getD (shortened x.toAddress)
  recipientWallet := x.toAddress
  txHash := truthy x.txHash
  ipfsCid := none
  createdAt := x.createdAt

/-- `t.note?.startsWith('FOREST_')` -/
def isForestReward (x : HistoryTransfer) : Bool := x.note.any fun note => note.startsWith "FOREST_"

def receivedItem (x : HistoryTransfer) : WalletTransactionItem where
  id := x.id ++ "_recv"
  type := if isForestReward x then "RECOMPENSA_RECICLAJE" else "TRANSFERENCIA_P2P"
  amount := fl x.amount
  direction := .incoming
  recipientName :=
    if isForestReward x then "Misión Mi Bosque (LIVOs)"
    else (x.sender.bind Party.label).getD (shortened x.fromAddress)
  recipientWallet := x.fromAddress
  txHash := truthy x.txHash
  ipfsCid := none
  createdAt := x.createdAt

/-! ### The history -/

def transactions (toUpperCase : String → String) (t : Tables) (user : User) :
    List WalletTransactionItem :=
  (newest HistoryRedemption.updatedAt (t.redemptions.filter fun r =>
      r.userId == some user.id && r.status == .completed)).map redemptionItem ++
    rewards toUpperCase t user ++
    (newest HistoryTransfer.createdAt (t.transfers.filter fun x =>
      x.senderUserId == user.id && x.receiverUserId.any fun id => id != user.id)).map sentItem ++
    (newest HistoryTransfer.createdAt (t.transfers.filter fun x =>
      x.receiverUserId == some user.id)).map receivedItem

/-- `direction && direction !== 'TODAS' ? t.direction === direction : true` -/
def wanted (direction : Option String) (item : WalletTransactionItem) : Bool :=
  match truthy direction with
  | none => true
  | some name => name == "TODAS" || item.direction.name == name

def sorted (toUpperCase : String → String) (t : Tables) (user : User) (direction : Option String) :
    List WalletTransactionItem :=
  newest WalletTransactionItem.createdAt
    ((transactions toUpperCase t user).filter (wanted direction))

structure PaginatedResultDto where
  data : List WalletTransactionItem
  total : ℕ
  page : ℕ
  limit : ℕ
  totalPages : ℕ
  hasNextPage : Bool
  hasPrevPage : Bool
deriving DecidableEq

/-- `Math.max(1, Math.ceil(total / (limit || 15)))` -/
def totalPages (total limit : ℕ) : ℕ :=
  max 1 ((total + (if limit = 0 then 15 else limit) - 1) / (if limit = 0 then 15 else limit))

def paginated (data : List WalletTransactionItem) (total page limit : ℕ) : PaginatedResultDto :=
  ⟨data, total, page, limit, totalPages total limit, page < totalPages total limit, 1 < page⟩

def getTransactionHistory (toUpperCase : String → String) (t : Tables) (userId : String)
    (page limit : ℕ) (direction : Option String) : Except Failure PaginatedResultDto :=
  match t.users.find? fun user => user.id == userId with
  | none => .error (.notFound "Usuario no encontrado")
  | some user =>
    let items := sorted toUpperCase t user direction
    .ok (paginated ((items.drop ((page - 1) * limit)).take limit) items.length page limit)

/-- The items of all the pages that the first one announces. -/
def allPages (toUpperCase : String → String) (t : Tables) (userId : String) (limit : ℕ)
    (direction : Option String) : Except Failure (List WalletTransactionItem) := do
  let first ← getTransactionHistory toUpperCase t userId 1 limit direction
  let pages ← (List.range first.totalPages).mapM fun p =>
    getTransactionHistory toUpperCase t userId (p + 1) limit direction
  pure (pages.flatMap PaginatedResultDto.data)

def incoming (items : List WalletTransactionItem) : ℚ :=
  ((items.filter fun item => item.direction = .incoming).map WalletTransactionItem.amount).sum

end Livora.WalletHistory
