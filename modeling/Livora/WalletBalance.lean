import Livora.StoreBooks

/-! `WalletsService.getBalance`: the balance of a wallet from the chain, less what its
user has redeemed, or where the chain shows nothing an estimate from the tables. The
balance is the cents of the text returned. -/

namespace Livora.WalletBalance

open DoubleRounding EffectPrograms EffectPrograms.Action RewardStrategies StoreBooks
open BackOffice (Role User)
open PinVerification (truthy)

structure Service where
  contractId : String
  toUpperCase : String → String

/-! ### The estimate -/

/-- The value of the materials of a batch at the rates in force. -/
def batchTotal : NumberRecord → ℚ → Work ℚ
  | [], total => pure total
  | (mat, wt) :: rest, total => do
    let rate ← call (.materialRate mat)
    batchTotal rest (fl (total + fl (wt.val * rate.val)))

def collectorEarned : List Batch → ℚ → Work ℚ
  | [], totalEarned => pure totalEarned
  | b :: rest, totalEarned => do
    let total ← batchTotal (b.materialsActual.getD []) 0
    let reqs ← call (.batchRequests b.id)
    collectorEarned rest
      (fl (totalEarned + if reqs = [] then total else fl (total * fl (2 / 10))))

/-- `agreedRates[mat] || agreedRates[mat.toUpperCase()] || await getMaterialRate(mat)` -/
def agreedRate (svc : Service) (agreedRates : NumberRecord) (mat : String) : Work ℚ :=
  match (rateUnder agreedRates mat).or (rateUnder agreedRates (svc.toUpperCase mat)) with
  | some rate => pure rate
  | none => do
    let rate ← call (.materialRate mat)
    pure rate.val

def requestTotal (svc : Service) (agreedRates : NumberRecord) : NumberRecord → ℚ → Work ℚ
  | [], reqTotal => pure reqTotal
  | (mat, wt) :: rest, reqTotal => do
    let rate ← agreedRate svc agreedRates mat
    requestTotal svc agreedRates rest (fl (reqTotal + fl (wt.val * rate)))

/-- A reward that was paid counts as it is, one that was not is a quarter of the value. -/
def requestEarned (svc : Service) (r : CollectionRequest) : Work ℚ :=
  match (r.householdRewardEarned.map fl).filter (0 < ·) with
  | some reward => pure reward
  | none => do
    let total ← requestTotal svc (r.agreedRates.getD [])
      ((r.actualWeights.or r.itemsEstimated).getD []) 0
    pure (fl (total * fl (25 / 100)))

def householdEarned (svc : Service) : List CollectionRequest → ℚ → Work ℚ
  | [], totalEarned => pure totalEarned
  | r :: rest, totalEarned => do
    let earned ← requestEarned svc r
    householdEarned svc rest (fl (totalEarned + earned))

def storeEarned (userId : String) : Work ℚ := do
  match ← call (.findStoreProfile userId) with
  | none => pure 0
  | some storeProfile => do
    let redemptions ← call (.storeRedemptions storeProfile.id)
    pure (sumNumbers (redemptions.map RedemptionTransaction.tokenAmount))

def roleEarned (svc : Service) (user : User) : Work ℚ :=
  match user.role with
  | .recolector => do
    let batches ← call (.receivedBatches user.id)
    collectorEarned batches 0
  | .hogar => do
    let reqs ← call (.householdRequests user.id)
    householdEarned svc reqs 0
  | .tienda => storeEarned user.id
  | _ => pure 0

def ledgerBalance (svc : Service) (user : User) (totalSpent : ℚ) : Work ℕ := do
  let earned ← roleEarned svc user
  let receivedTransfers ← call (.receivedTransfers user.id)
  let totalEarned := fl (earned + sumNumbers (receivedTransfers.map WalletTransfer.amount))
  let sentP2PTransfers ← call (.sentTransfers user.id)
  let totalTransfersSent := sumNumbers (sentP2PTransfers.map WalletTransfer.amount)
  let payments ← call (.completedPayments user.id)
  let totalPayments := sumNumbers (payments.map BackOffice.PaymentTransaction.tokenAmount)
  pure (toFixed2 (max 0
    (fl (fl (fl (totalEarned + totalPayments) - totalSpent) - totalTransfersSent))))

/-! ### The balance -/

/-- The balance the chain shows, zero where it cannot be asked. -/
def onChainBalance (svc : Service) (walletAddress : String) : Work ℚ :=
  if svc.contractId ≠ "" ∧ svc.contractId ≠ "C..." then
    recover (do
      let text ← call (.chainBalance walletAddress)
      pure (parseCents text)) 0
  else pure 0

def balanceOf (svc : Service) (user : User) (walletAddress : String) : Work ℕ := do
  let redemptions ← call (.completedRedemptions user.id)
  let totalSpent := sumNumbers (redemptions.map RedemptionTransaction.tokenAmount)
  let onChain ← onChainBalance svc walletAddress
  if 0 < onChain then pure (toFixed2 (max 0 (fl (onChain - totalSpent))))
  else ledgerBalance svc user totalSpent

def getBalance (svc : Service) (userId : String) : Work ℕ := do
  match ← call (.findUser userId) with
  | none => throw (.notFound "Usuario no encontrado")
  | some user =>
    match truthy user.walletAddress with
    | none => pure 0
    | some walletAddress => balanceOf svc user walletAddress

end Livora.WalletBalance
