import Livora.RegistryAuthority
import Livora.SequenceManager

/-! The leased key pair against the contract. Four methods of `BlockchainService`
put the leased account first among the arguments of a contract call, where the
contract expects its worker or its owner. Which accounts can stand there is
decided by the configured channels. -/

namespace Livora.ChannelCallers

open CheckedWords StellarXdr TrappingState RegistryStorage RegistryContract RegistryCalls
open RegistryAuthority DoubleRounding DelegatedRedemption SequenceManager TransitionRuns

/-! ### The calls -/

def hexDigit (c : Char) : Option ℕ :=
  if '0' ≤ c ∧ c ≤ '9' then some (c.toNat - 48)
  else if 'a' ≤ c ∧ c ≤ 'f' then some (c.toNat - 87)
  else if 'A' ≤ c ∧ c ≤ 'F' then some (c.toNat - 55)
  else none

/-- `Buffer.from(_, 'hex')`, which stops at the first pair that is none. -/
def fromHex : List Char → Bytes
  | a :: b :: rest =>
    match hexDigit a, hexDigit b with
    | some x, some y => UInt8.ofNat (16 * x + y) :: fromHex rest
    | _, _ => []
  | _ => []

theorem padded_length (bytes : Bytes) :
    ((bytes ++ List.replicate 32 0).take 32).length = 32 := by
  simp

/-- The bytes of the identifier, copied into a buffer of 32 zeros. -/
def uuid32 (batchId : String) : BytesN 32 :=
  ⟨(fromHex (batchId.toList.filter (· ≠ '-')) ++ List.replicate 32 0).take 32, padded_length _⟩

def vec {α : Type} (l : List α) : Option (Vec α) :=
  if h : l.length < 2 ^ 32 then some ⟨l, h⟩ else none

def symbolOf (text : String) : Option Symbol :=
  if h : text.length ≤ 32 then some ⟨text, h⟩ else none

def i128Of (w : Double) : Option I128 := do SWord.ofInt? 128 (← bigInt w)

variable (sdk : Sdk) (signer : sdk.Keypair)

def callerArgument : Option Address := sdk.addressFromString (sdk.publicKey signer)

def mintEcoTokens (toAddress : String) (amount : Double) : Option Call := do
  let amountBig ← stroops amount
  let caller ← callerArgument sdk signer
  some (.mint caller (← sdk.addressFromString toAddress) amountBig)

def registerBatchWeighed (batchId ipfsCid collector : String)
    (households materialCodes : List String) (weightsGrams : List Double) : Option Call := do
  let householdsScVal ← vec (← households.mapM sdk.addressFromString)
  let materialCodesScVal ← vec (← materialCodes.mapM symbolOf)
  let weightsGramsScVal ← vec (← weightsGrams.mapM i128Of)
  let caller ← callerArgument sdk signer
  some (.registerBatchWeighed ⟨caller, uuid32 batchId, ipfsCid, ← sdk.addressFromString collector,
    householdsScVal, materialCodesScVal, weightsGramsScVal⟩)

/-- A centre without a valid address of its own is the signer. -/
def notarizeBatchReceipt (isValidEd25519PublicKey : String → Bool) (batchId ipfsCid : String)
    (centerAddress : Option String) : Option Call := do
  let center := match centerAddress with
    | some a => if a ≠ "" ∧ isValidEd25519PublicKey a then a else sdk.publicKey signer
    | none => sdk.publicKey signer
  let caller ← callerArgument sdk signer
  some (.notarizeBatchReceipt caller (uuid32 batchId) (← sdk.addressFromString center) ipfsCid)

inductive Request where
  | mintEcoTokens (toAddress : String) (amount : Double)
  | registerBatchWeighed (batchId ipfsCid collector : String)
      (households materialCodes : List String) (weightsGrams : List Double)
  | notarizeBatchReceipt (batchId ipfsCid : String) (centerAddress : Option String)
  | executeDelegatedTransfer (source target : String) (amount : Decimal) (nonce : Double)
      (pubKeyRaw : BytesN 32) (signature : BytesN 64)

/-- The call a request submits with the signer; `none` when building it throws. -/
def Request.submit (isValidEd25519PublicKey : String → Bool) : Request → Option Call
  | .mintEcoTokens toAddress amount => ChannelCallers.mintEcoTokens sdk signer toAddress amount
  | .registerBatchWeighed batchId ipfsCid collector households materialCodes weightsGrams =>
    ChannelCallers.registerBatchWeighed sdk signer batchId ipfsCid collector households
      materialCodes weightsGrams
  | .notarizeBatchReceipt batchId ipfsCid centerAddress =>
    ChannelCallers.notarizeBatchReceipt sdk signer isValidEd25519PublicKey batchId ipfsCid
      centerAddress
  | .executeDelegatedTransfer source target amount nonce pubKeyRaw signature =>
    (DelegatedRedemption.executeDelegatedTransfer sdk signer source target amount nonce pubKeyRaw
      signature).map .transferDelegated

def account : Address := .account (sdk.rawPublicKey signer)

variable {sdk signer} {valid : String → Bool} {r : Request} {call : Call}

theorem submit_caller (h : r.submit sdk signer valid = some call) :
    ∃ caller, callerArgument sdk signer = some caller ∧ privilegedCaller call = some caller := by
  cases r with
  | mintEcoTokens toAddress amount =>
    simp only [Request.submit, mintEcoTokens, Option.bind_eq_bind, Option.bind_eq_some_iff,
      Option.some.injEq] at h
    obtain ⟨-, -, caller, hcaller, -, -, rfl⟩ := h
    exact ⟨caller, hcaller, rfl⟩
  | registerBatchWeighed batchId ipfsCid collector households materialCodes weightsGrams =>
    simp only [Request.submit, registerBatchWeighed, Option.bind_eq_bind, Option.bind_eq_some_iff,
      Option.some.injEq] at h
    obtain ⟨-, -, -, -, -, -, -, -, -, -, -, -, caller, hcaller, -, -, rfl⟩ := h
    exact ⟨caller, hcaller, rfl⟩
  | notarizeBatchReceipt batchId ipfsCid centerAddress =>
    simp only [Request.submit, notarizeBatchReceipt, Option.bind_eq_bind, Option.bind_eq_some_iff,
      Option.some.injEq] at h
    obtain ⟨caller, hcaller, -, -, rfl⟩ := h
    exact ⟨caller, hcaller, rfl⟩
  | executeDelegatedTransfer source target amount nonce pubKeyRaw signature =>
    simp only [Request.submit, executeDelegatedTransfer, Option.bind_eq_bind,
      Option.map_eq_some_iff, Option.bind_eq_some_iff, Option.some.injEq] at h
    obtain ⟨-, ⟨-, -, -, -, caller, hcaller, -, -, -, -, -, -, -, -, rfl⟩, rfl⟩ := h
    exact ⟨caller, hcaller, rfl⟩

/-! ### Authorised callers -/

/-- The caller passes the contract's check, and the call is not refused for want of it. -/
def Authorised (s : State) (call : Call) : Prop :=
  ∃ caller, privilegedCaller call = some caller ∧ Returns (requireWorkerOrOwner caller) s () s ∧
    ∀ env, ¬ Traps (exec env call) s unauthorised

theorem authorised_iff {s : State} {caller owner worker : Address}
    (howner : s.instanceData.get .owner = some owner)
    (hworker : s.instanceData.get .worker = some worker)
    (hcall : privilegedCaller call = some caller) :
    Authorised s call ↔ caller = owner ∨ caller = worker := by
  have hchecked :
      Returns (requireWorkerOrOwner caller) s () s ↔ caller = owner ∨ caller = worker := by
    rw [RegistryEffects.requireWorkerOrOwner_returns]
    simp [RegistryEffects.WorkerOrOwner, howner, hworker]
  have hrefused (env : Env) :
      Traps (exec env call) s unauthorised ↔ ¬ (caller = owner ∨ caller = worker) := by
    rw [exec_traps_iff hcall, requireWorkerOrOwner_traps howner hworker, not_or]
  constructor
  · rintro ⟨caller', hcall', hpass, -⟩
    obtain rfl := Option.some.inj (hcall.symm.trans hcall')
    exact hchecked.mp hpass
  · intro h
    exact ⟨caller, hcall, hchecked.mpr h, fun env htrap => (hrefused env).mp htrap h⟩

variable {c : Config sdk} {host : Host} {s : State} {is : List Invocation}

/-- Whatever is leased passes the check exactly when every channel is the worker or the owner. -/
theorem leased_callers_authorised_iff
    (haddress : ∀ k, sdk.addressFromString (sdk.publicKey k) = some (account sdk k))
    (hrun : run (RegistryCalls.step host) State.empty is = some s)
    (hworker : s.instanceData.get .worker = some (account sdk c.primary)) :
    (∀ k, Leased (initKeys c) k → ∀ r call, Request.submit sdk k valid r = some call →
      Authorised s call) ↔
    ∀ k ∈ c.channels, account sdk k = account sdk c.primary ∨
      s.instanceData.get .owner = some (account sdk k) := by
  obtain ⟨owner, howner⟩ := exists_owner hrun hworker
  have hcaller {k : sdk.Keypair} {r : Request} {call : Call}
      (hsubmit : r.submit sdk k valid = some call) : Authorised s call ↔
        account sdk k = account sdk c.primary ∨
          s.instanceData.get .owner = some (account sdk k) := by
    obtain ⟨caller, harg, hcall⟩ := submit_caller hsubmit
    obtain rfl : account sdk k = caller := Option.some.inj ((haddress k).symm.trans harg)
    rw [authorised_iff howner hworker hcall, howner, Option.some.injEq, or_comm,
      eq_comm (b := owner)]
  constructor
  · intro h k hk
    have hpool : k ∈ (initKeys c).channelPool := by
      simp only [initKeys]
      split
      · rename_i hempty
        rw [hempty] at hk
        cases hk
      · exact hk
    obtain ⟨k', hleased, hname⟩ := exists_leased hpool
    have hsame : account sdk k' = account sdk k :=
      Option.some.inj ((haddress k').symm.trans (hname ▸ haddress k))
    have hsubmit : Request.submit sdk k' valid (.notarizeBatchReceipt "" "" none) =
        some (.notarizeBatchReceipt (account sdk k') (uuid32 "") (account sdk k') "") := by
      simp [Request.submit, notarizeBatchReceipt, callerArgument, haddress]
    rw [← hsame]
    exact (hcaller hsubmit).mp (h k' hleased _ _ hsubmit)
  · intro h k hleased r call hsubmit
    refine (hcaller hsubmit).mpr ?_
    rcases leased_mem hleased with hpool | rfl
    · simp only [initKeys] at hpool
      split at hpool
      · exact Or.inl (congrArg _ (List.mem_singleton.mp hpool))
      · exact h k hpool
    · exact Or.inl rfl

/-! ### A worker with one channel -/

def workerSecret : String := "SAAAAAAAAAAAAAAAAAAAAAAAAAAAAAAAAAAAAAAAAAAAAAAAAAAAAAAA"

def channelSecret : String := "SBBBBBBBBBBBBBBBBBBBBBBBBBBBBBBBBBBBBBBBBBBBBBBBBBBBBBBB"

/-- The worker's secret belongs to the administrator, the other one to an account of its own. -/
def configured (channels : String) : Config sampleSdk where
  workerSecretKey := some workerSecret
  channelSecretKeys := some channels
  fromSecret secret :=
    if secret = workerSecret then some false else if secret = channelSecret then some true else none
  random := false

theorem sample_address (k : sampleSdk.Keypair) :
    sampleSdk.addressFromString (sampleSdk.publicKey k) = some (account sampleSdk k) :=
  sampleSdk_lawful.publicKey_address k

theorem leased_callers_authorised_workerOnly : ∃ k call,
    Leased (initKeys (configured workerSecret)) k ∧
      Request.submit sampleSdk k (fun _ => true) (.notarizeBatchReceipt "01" "cid" none) =
        some call ∧
      Authorised (after sampleHost State.empty [deployed]) call := by
  have hleased : Leased (initKeys (configured workerSecret)) false :=
    ⟨[.acquire 0 15000, .check 0 0], _, 0, rfl, rfl⟩
  have hsubmit : Request.submit sampleSdk false (fun _ => true)
    (.notarizeBatchReceipt "01" "cid" none) =
      some (.notarizeBatchReceipt admin (uuid32 "01") admin "cid") := rfl
  have hauthorised := (leased_callers_authorised_iff sample_address
    (run_eq_after sampleHost State.empty [deployed]) (by decide +kernel)).mpr
      (by decide +kernel) false
      hleased _ _ hsubmit
  exact ⟨false, _, hleased, hsubmit, hauthorised⟩

/-- The configured channel is leased first, and its call is refused. -/
theorem channel_call_refused : ∃ k call,
    Leased (initKeys (configured channelSecret)) k ∧
      Request.submit sampleSdk k (fun _ => true) (.notarizeBatchReceipt "01" "cid" none) =
        some call ∧
      ¬ Authorised (after sampleHost State.empty [deployed]) call ∧
      ∀ env, Traps (exec env call) (after sampleHost State.empty [deployed]) unauthorised := by
  have howner : (after sampleHost State.empty [deployed]).instanceData.get .owner = some admin := by
    decide +kernel
  have hworker :
      (after sampleHost State.empty [deployed]).instanceData.get .worker = some admin := by
    decide +kernel
  refine ⟨true, .notarizeBatchReceipt alice (uuid32 "01") alice "cid",
    ⟨[.acquire 0 15000, .check 0 0], _, 0, rfl, rfl⟩, rfl, ?_, fun env => ?_⟩
  · rw [authorised_iff howner hworker rfl]
    decide
  · rw [exec_traps_iff rfl, requireWorkerOrOwner_traps howner hworker]
    decide

end Livora.ChannelCallers
