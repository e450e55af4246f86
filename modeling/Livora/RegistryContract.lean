import Livora.RegistryStorage

/-! The entry points of `EcoBatchRegistry`, one definition per Rust function and
in the same order of host calls. The crate is built with overflow checks, so
every `i128` and `u32` operation is checked where the source performs it. -/

namespace Livora.RegistryContract

open CheckedWords StellarXdr TrappingState RegistryStorage

/-- A literal; one out of range would wrap. -/
def i128 (x : ℤ) : I128 :=
  ⟨x.bmod (2 ^ 128), by
    have := Int.le_bmod (x := x) (show 0 < 2 ^ 128 by norm_num)
    have := Int.bmod_lt (x := x) (show 0 < 2 ^ 128 by norm_num)
    constructor <;> omega⟩

theorem val_i128 {x : ℤ} (h : Fits 128 x) : (i128 x).val = x := by
  obtain ⟨hl, hu⟩ := h
  exact Int.bmod_eq_of_le (by norm_num at hl ⊢; omega) (by norm_num at hu ⊢; omega)

def bpsDenominator : I128 := i128 10000

def oneEco : ℤ := 10000000

def u32CheckedAdd (a b : UInt32) : Option UInt32 :=
  if a.toNat + b.toNat < 2 ^ 32 then some (a + b) else none

def unwrapOr (o : Option I128) (default : I128) : I128 := o.getD default

def presets : List (Symbol × I128) :=
  [(⟨"PET", by decide⟩, i128 (10 * oneEco)),
   (⟨"CARTON", by decide⟩, i128 (5 * oneEco)),
   (⟨"VIDRIO", by decide⟩, i128 (3 * oneEco)),
   (⟨"PLASTICO", by decide⟩, i128 (10 * oneEco)),
   (⟨"ALUMINIO", by decide⟩, i128 (15 * oneEco)),
   (⟨"TETRAPAK", by decide⟩, i128 (4 * oneEco)),
   (⟨"PAPEL", by decide⟩, i128 (5 * oneEco))]

def setPresets : List (Symbol × I128) → Contract Unit
  | [] => pure ()
  | (code, rate) :: rest => do
    persistentSet (.materialRate code) rate
    persistentExtendTtl (.materialRate code)
    setPresets rest

def init (owner worker : Address) : Contract Unit := do
  trapIf ((← instanceHas .owner) = true) (.panic "Contrato ya inicializado")
  instanceSet .owner owner
  instanceSet .worker worker
  instanceSet .defaultRate (i128 (5 * oneEco))
  instanceSet .collectorShareBps (i128 2000)
  setPresets presets
  instanceExtendTtl

/-! ### Internal helpers -/

def requireWorkerOrOwner (caller : Address) : Contract Unit := do
  let owner ← unwrap (← instanceGet .owner)
  let worker ← unwrap (← instanceGet .worker)
  trapIf (caller ≠ owner ∧ caller ≠ worker) (.panic "No autorizado")

def getEffectiveRate (code : Symbol) : Contract I128 := do
  if (← persistentHas (.materialRate code)) then
    let val ← unwrap (← persistentGet (.materialRate code))
    persistentExtendTtl (.materialRate code)
    pure val
  else
    instanceExtendTtl
    pure (unwrapOr (← instanceGet .defaultRate) 0)

def internalMint (toAddr : Address) (amount : I128) : Contract Unit := do
  let currentBal := unwrapOr (← persistentGet (.balance toAddr)) 0
  persistentSet (.balance toAddr) (← checked (currentBal.checkedAdd amount))
  persistentExtendTtl (.balance toAddr)
  let supplyVal := unwrapOr (← instanceGet .totalSupply) 0
  instanceSet .totalSupply (← checked (supplyVal.checkedAdd amount))
  instanceExtendTtl

/-- Both balances are read before either is written. -/
def internalTransfer (fromAddr toAddr : Address) (amount : I128) : Contract Unit := do
  trapIf (amount ≤ 0) (.panic "Monto inválido")
  let fromBal := unwrapOr (← persistentGet (.balance fromAddr)) 0
  trapIf (fromBal < amount) (.panic "Saldo insuficiente")
  let toBal := unwrapOr (← persistentGet (.balance toAddr)) 0
  persistentSet (.balance fromAddr) (← checked (fromBal.checkedSub amount))
  persistentExtendTtl (.balance fromAddr)
  persistentSet (.balance toAddr) (← checked (toBal.checkedAdd amount))
  persistentExtendTtl (.balance toAddr)

/-- The last 32 bytes of the serialised address must be the given key. -/
def verifyAddressMatchesPubkey (addr : Address) (pubkey : BytesN 32) : Contract Unit := do
  let addrXdr := addr.toXdr
  let len := addrXdr.length
  trapIf (len < 32) (.panic "Address serialization is too short")
  trapIf (128 < len) (.panic "Address XDR representation too large")
  trapIf (addrXdr.drop (len - 32) ≠ pubkey.bytes)
    (.panic "Mismatched from address and public key")

/-! ### Administration and token operations -/

def setWorker (env : Env) (caller newWorker : Address) : Contract Unit := do
  let owner ← unwrap (← instanceGet .owner)
  let currentWorker ← unwrap (← instanceGet .worker)
  trapIf (caller ≠ owner ∧ caller ≠ currentWorker) (.panic "No autorizado")
  requireAuth env caller
  instanceSet .worker newWorker
  instanceExtendTtl

/-- The expiration ledger is received and not used. -/
def approve (env : Env) (fromAddr spender : Address) (amount : I128)
    (_expirationLedger : UInt32) : Contract Unit := do
  requireAuth env fromAddr
  persistentSet (.allowance fromAddr spender) amount
  persistentExtendTtl (.allowance fromAddr spender)

def transfer (env : Env) (fromAddr toAddr : Address) (amount : I128) : Contract Unit := do
  requireAuth env fromAddr
  internalTransfer fromAddr toAddr amount

def transferFrom (env : Env) (spender fromAddr toAddr : Address) (amount : I128) :
    Contract Unit := do
  requireAuth env spender
  let currentAllowance := unwrapOr (← persistentGet (.allowance fromAddr spender)) 0
  trapIf (currentAllowance < amount) (.panic "Permiso insuficiente")
  persistentSet (.allowance fromAddr spender) (← checked (currentAllowance.checkedSub amount))
  persistentExtendTtl (.allowance fromAddr spender)
  internalTransfer fromAddr toAddr amount

/-! ### Minting and batches -/

def mint (env : Env) (caller toAddr : Address) (amount : I128) : Contract Unit := do
  requireWorkerOrOwner caller
  requireAuth env caller
  internalMint toAddr amount

def mintEach : List (Address × I128) → I128 → Contract I128
  | [], totalBatchReward => pure totalBatchReward
  | (recipient, amount) :: rest, totalBatchReward => do
    internalMint recipient amount
    mintEach rest (← checked (totalBatchReward.checkedAdd amount))

/-- The two entries every registration leaves, written after the mints. -/
def recordBatch (batchId : BytesN 32) (details : BatchRecord) : Contract Unit := do
  persistentSet (.processedBatch batchId) true
  persistentExtendTtl (.processedBatch batchId)
  persistentSet (.batchDetails batchId) details
  persistentExtendTtl (.batchDetails batchId)

def registerBatch (env : Env) (caller : Address) (batchId : BytesN 32) (_ipfsCid : String)
    (recipients : Vec Address) (amounts : Vec I128) : Contract Bool := do
  requireWorkerOrOwner caller
  requireAuth env caller
  trapIf ((← persistentHas (.processedBatch batchId)) = true) (.panic "Lote ya procesado")
  trapIf (recipients.len ≠ amounts.len ∨ recipients.len = 0)
    (.panic "Longitud de entrada inválida")
  let totalBatchReward ← mintEach (recipients.toList.zip amounts.toList) 0
  recordBatch batchId ⟨env.timestamp, totalBatchReward, recipients.len, true⟩
  pure true

def sumRewards : List (Symbol × I128) → I128 → Contract I128
  | [], totalReward => pure totalReward
  | (code, weight) :: rest, totalReward => do
    let rate ← getEffectiveRate code
    let product ← checked (weight.checkedMul rate)
    let reward ← checked (product.checkedDiv (i128 1000))
    sumRewards rest (← checked (totalReward.checkedAdd reward))

/-- Shares of one household and of the collector, who also gets the rounding residue. -/
def splitReward (totalReward bps : I128) (households : Vec Address) : Contract (I128 × I128) := do
  let share ← checked (totalReward.checkedMul bps)
  let collectorReward ← checked (share.checkedDiv bpsDenominator)
  if 0 < households.len then
    let householdsTotal ← checked (totalReward.checkedSub collectorReward)
    let perHousehold ← checked (householdsTotal.checkedDiv households.lenI128)
    let distributed ← checked (perHousehold.checkedMul households.lenI128)
    let residue ← checked (householdsTotal.checkedSub distributed)
    let collectorReward ← checked (collectorReward.checkedAdd residue)
    pure (perHousehold, collectorReward)
  else
    pure (0, totalReward)

def mintHouseholds (perHousehold : I128) : List Address → Contract Unit
  | [] => pure ()
  | hh :: rest => do
    internalMint hh perHousehold
    mintHouseholds perHousehold rest

def whenPositive (n : I128) (m : Contract Unit) : Contract Unit := if 0 < n then m else pure ()

def registerBatchWeighed (env : Env) (caller : Address) (batchId : BytesN 32) (_ipfsCid : String)
    (collector : Address) (households : Vec Address) (materialCodes : Vec Symbol)
    (weightsGrams : Vec I128) : Contract Bool := do
  requireWorkerOrOwner caller
  requireAuth env caller
  trapIf ((← persistentHas (.processedBatch batchId)) = true) (.panic "Lote ya procesado")
  trapIf (materialCodes.len ≠ weightsGrams.len ∨ materialCodes.len = 0)
    (.panic "Longitudes de entrada inválidas")
  let totalReward ← sumRewards (materialCodes.toList.zip weightsGrams.toList) 0
  trapIf (totalReward = 0) (.panic "Monto de recompensa es cero")
  let bps := unwrapOr (← instanceGet .collectorShareBps) (i128 2000)
  let shares ← splitReward totalReward bps households
  whenPositive shares.1 (mintHouseholds shares.1 households.toList)
  whenPositive shares.2 (internalMint collector shares.2)
  let recipientsCount ← checked (u32CheckedAdd households.len 1)
  recordBatch batchId ⟨env.timestamp, totalReward, recipientsCount, true⟩
  pure true

def notarizeBatchReceipt (env : Env) (caller : Address) (batchId : BytesN 32) (center : Address)
    (ipfsCid : String) : Contract Bool := do
  requireWorkerOrOwner caller
  requireAuth env caller
  trapIf ((← persistentHas (.processedBatch batchId)) = true) (.panic "Lote ya procesado")
  recordBatch batchId ⟨env.timestamp, 0, 1, true⟩
  publish (.batchReceived batchId center ipfsCid)
  pure true

def setMaterialRate (env : Env) (caller : Address) (materialCode : Symbol)
    (rateStroopsPerKg : I128) : Contract Unit := do
  requireWorkerOrOwner caller
  requireAuth env caller
  persistentSet (.materialRate materialCode) rateStroopsPerKg
  persistentExtendTtl (.materialRate materialCode)

/-! ### Delegated transfer -/

/-- The signed tuple `(from, to, amount, nonce, contract)` as a vector of values. -/
def delegatedPayload (fromAddr toAddr : Address) (amount nonce : I128) (contract : Address) :
    Bytes :=
  scvVec [.address fromAddr, .address toAddr, .i128 amount, .i128 nonce, .address contract]

/-- The host's signature check traps on an invalid signature. -/
def ed25519Verify (env : Env) (key : BytesN 32) (payload : Bytes) (signature : BytesN 64) :
    Contract Unit :=
  trapIf (env.ed25519Verify key payload signature = false) .invalidSignature

def transferDelegated (env : Env) (caller fromAddr toAddr : Address) (amount nonce : I128)
    (publicKeyRaw : BytesN 32) (signature : BytesN 64) : Contract Bool := do
  requireWorkerOrOwner caller
  requireAuth env caller
  verifyAddressMatchesPubkey fromAddr publicKeyRaw
  let currentNonce := unwrapOr (← persistentGet (.nonce fromAddr)) 0
  trapIf (nonce ≠ currentNonce) (.panic "Nonce inválido")
  persistentSet (.nonce fromAddr) (← checked (currentNonce.checkedAdd (i128 1)))
  persistentExtendTtl (.nonce fromAddr)
  ed25519Verify env publicKeyRaw
    (delegatedPayload fromAddr toAddr amount nonce env.currentContractAddress) signature
  internalTransfer fromAddr toAddr amount
  pure true

/-! ### Views -/

def workerAddress : Contract Address := do
  instanceExtendTtl
  unwrap (← instanceGet .worker)

def owner : Contract Address := do
  instanceExtendTtl
  unwrap (← instanceGet .owner)

def name : Contract String := pure "EcoToken"

def symbol : Contract String := pure "ECO"

def decimals : Contract UInt32 := pure 7

def totalSupply : Contract I128 := do
  instanceExtendTtl
  pure (unwrapOr (← instanceGet .totalSupply) 0)

/-- A stored value with the lifetime of its entry extended after the read. -/
def readExtended (k : DataKey) (val : Option k.Value → I128) : Contract I128 := do
  let stored ← persistentGet k
  persistentExtendTtl k
  pure (val stored)

def balance (id : Address) : Contract I128 := readExtended (.balance id) fun v => unwrapOr v 0

def allowance (fromAddr spender : Address) : Contract I128 :=
  readExtended (.allowance fromAddr spender) fun v => unwrapOr v 0

def nonces (owner : Address) : Contract I128 := readExtended (.nonce owner) fun v => unwrapOr v 0

def materialRate (materialCode : Symbol) : Contract I128 := getEffectiveRate materialCode

def isBatchProcessed (batchId : BytesN 32) : Contract Bool := do
  let val ← persistentHas (.processedBatch batchId)
  if val then persistentExtendTtl (.processedBatch batchId)
  pure val

def getBatch (batchId : BytesN 32) : Contract BatchRecord := do
  let val : BatchRecord := (← persistentGet (.batchDetails batchId)).getD ⟨0, 0, 0, false⟩
  if val.processed then persistentExtendTtl (.batchDetails batchId)
  pure val

end Livora.RegistryContract
