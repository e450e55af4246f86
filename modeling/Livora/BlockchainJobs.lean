import Livora.BackOffice

/-! The worker's handlers of jobs that move tokens, as the source runs them on every
attempt: a number is read, the transaction is sent under it, and only then is the
result written down. An attempt takes its job from the queue and reports to it. -/

namespace Livora.BlockchainJobs

open EffectPrograms EffectPrograms.Action JobQueues SequencedLedgers BackOffice
open PinVerification (Failure truthy)

/-! ### Transactions -/

def mintEcoTokens (m : Movement) : Work (Option String) := do
  let signer ← call .lease
  let number ← call (.readNumber m (.sequence signer))
  call (.submit m ⟨.sequence signer, number⟩)

/-- The contract takes the nonce of the owner, whoever signs the transaction. -/
def executeDelegatedTransfer (m : Movement) (fromWallet : String) (nonce : ℕ) :
    Work (Option String) := do
  let signer ← call .lease
  call (.readSource signer)
  call (.submit m ⟨.nonce fromWallet, nonce⟩)

/-- The inner transaction is the user's own; the leased account only pays for it. -/
def executeSubsidizedTransfer (m : Movement) (account : String) : Work (Option String) := do
  let number ← call (.readNumber m (.sequence account))
  call (.simulate m)
  let _feeSource ← call .lease
  call (.submit m ⟨.sequence account, number⟩)

/-! ### Handlers -/

def readVault (userId : String) : Work (Option String) :=
  if userId = "" then pure none else call (.findVault userId)

def vaultKey (userId missing : String) : Work String := do
  match truthy (← readVault userId) with
  | none => throw (.error missing)
  | some encryptedPrivateKey => pure encryptedPrivateKey

def decrypt (svc : Service) (encryptedPrivateKey : String) : Work String :=
  match svc.unlock encryptedPrivateKey svc.secretKey with
  | none => throw .outside
  | some account => pure account

def hashOf (receipt : Option String) (missing : String) : Work String :=
  match truthy receipt with
  | none => throw (.error missing)
  | some txHash => pure txHash

def maxAttempts (job : Job JobData) : ℕ := if job.attempts = 0 then 5 else job.attempts

def recordMint (purchaseNumber : String) (receipt : Option String) : Work Unit :=
  match truthy receipt, truthy (some purchaseNumber) with
  | some txHash, some order => call (.setBlockchain order .minted (some txHash))
  | _, _ => pure ()

/-- After the last attempt the order is left to the administrators. -/
def mintFailed (job : Job JobData) (purchaseNumber : String) (e : Failure) : Work Unit :=
  if maxAttempts job ≤ job.attemptsMade + 1 ∧ purchaseNumber ≠ "" then do
    call (.setBlockchain purchaseNumber .failedBlockchain none)
    throw e
  else throw e

def processIzipayMintTokens (n : ℕ) (job : Job JobData) (walletAddress : String) (amount : ℚ)
    (purchaseNumber : String) : Work Unit :=
  rescue (do
    let receipt ← mintEcoTokens ⟨some n, some purchaseNumber, .mint walletAddress amount⟩
    recordMint purchaseNumber receipt) (mintFailed job purchaseNumber)

/-- The message to sign names two accounts and the contract. -/
def signable (svc : Service) (fromWallet toWallet : String) : Work Unit :=
  if svc.validAddress fromWallet && svc.validAddress toWallet && svc.validAddress svc.contractId
  then pure () else throw .outside

def processRedemptionTransfer (svc : Service) (n : ℕ) (redemptionId fromUserId fromWallet
    toWallet : String) (tokenAmount : ℚ) : Work Unit := do
  let m : Movement := ⟨some n, none, .delegated fromWallet toWallet tokenAmount⟩
  let key ← vaultKey fromUserId
    ("El usuario " ++ fromUserId ++ " no posee una clave privada registrada")
  let _account ← decrypt svc key
  let nonce ← call (.readNumber m (.nonce fromWallet))
  signable svc fromWallet toWallet
  let receipt ← executeDelegatedTransfer m fromWallet nonce
  let txHash ← hashOf receipt
    ("No se obtuvo un hash de transacción válido para el canje " ++ redemptionId)
  call (.updateRedemption redemptionId txHash)
  call (.emit fromUserId "redemption:completed_onchain")

def processSettlementTransfer (svc : Service) (n : ℕ) (settlementId fromStoreUserId
    toWallet : String) (tokenAmount : ℚ) : Work Unit := do
  let key ← vaultKey fromStoreUserId ("El usuario de tienda " ++ fromStoreUserId ++
    " no posee una clave privada registrada para liquidación")
  let account ← decrypt svc key
  let receipt ← executeSubsidizedTransfer
    ⟨some n, none, .subsidized account toWallet tokenAmount⟩ account
  let _txHash ← hashOf receipt
    ("No se obtuvo hash de transacción para la liquidación " ++ settlementId)
  pure ()

def processRedemptionRefundTransfer (svc : Service) (n : ℕ) (redemptionId fromStoreUserId
    toHouseholdUserId toWallet : String) (tokenAmount : ℚ) : Work Unit := do
  let missing := "No se puede reembolsar: la tienda no posee clave privada registrada o la " ++
    "billetera de destino es inválida"
  let key ← vaultKey fromStoreUserId missing
  if toWallet = "" then throw (.error missing)
  else do
    let account ← decrypt svc key
    let receipt ← executeSubsidizedTransfer
      ⟨some n, none, .subsidized account toWallet tokenAmount⟩ account
    let txHash ← hashOf receipt "No se obtuvo hash de transacción de Soroban para el reembolso"
    call (.updateRedemption redemptionId ("REFUND:" ++ txHash))
    call (.emit toHouseholdUserId "redemption:refunded_onchain")

/-! ### The worker -/

def process (svc : Service) (n : ℕ) (job : Job JobData) : Work Unit :=
  match job.data with
  | .izipayMintTokens _ walletAddress amount purchaseNumber =>
    processIzipayMintTokens n job walletAddress amount purchaseNumber
  | .redemptionTransfer redemptionId fromUserId _ fromWallet toWallet tokenAmount =>
    processRedemptionTransfer svc n redemptionId fromUserId fromWallet toWallet tokenAmount
  | .settlementTransfer settlementId fromStoreUserId _ toWallet tokenAmount =>
    processSettlementTransfer svc n settlementId fromStoreUserId toWallet tokenAmount
  | .redemptionRefundTransfer redemptionId fromStoreUserId toHouseholdUserId _ toWallet
      tokenAmount =>
    processRedemptionRefundTransfer svc n redemptionId fromStoreUserId toHouseholdUserId toWallet
      tokenAmount
  | .unknown name => throw (.error ("Job no reconocido: " ++ name))

/-- One attempt: whatever the handler throws is reported to the queue. -/
def attempt (svc : Service) (n : ℕ) : Work Unit := do
  match ← call (.take n) with
  | none => pure ()
  | some job => do
    let ok ← rescue (do
      process svc n job
      pure true) fun _ => pure false
    call (.finish n job.started ok)

end Livora.BlockchainJobs
