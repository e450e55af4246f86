import Livora.RegistryCalls

/-! What an accepted call does, entry point by entry point: its postings on the
token ledger, the keys it may write, and for transfers the exact guards under
which it is accepted. Every invariant of the contract is derived from the three
summary theorems at the end. -/

namespace Livora.RegistryEffects

open CheckedWords StellarXdr TrappingState TypedStore RegistryStorage RegistryContract
open RegistryBank RegistryRewards RegistryCalls TokenBank

def WorkerOrOwner (s : State) (caller : Address) : Prop :=
  ∃ owner worker : Address, s.instanceData.get .owner = some owner ∧
    s.instanceData.get .worker = some worker ∧ (caller = owner ∨ caller = worker)

/-- The caller is the stored worker or owner and authorised the invocation. -/
structure Privileged (env : Env) (s : State) (caller : Address) : Prop where
  role : WorkerOrOwner s caller
  authorised : caller ∈ env.auths

theorem requireWorkerOrOwner_returns {s s' : State} {caller : Address} {u : Unit} :
    Returns (requireWorkerOrOwner caller) s u s' ↔ WorkerOrOwner s caller ∧ s = s' := by
  simp [requireWorkerOrOwner, WorkerOrOwner]
  constructor
  · rintro ⟨o, ho, w, ⟨hw, rfl⟩, hc⟩
    exact ⟨⟨o, ho, w, hw, or_iff_not_imp_left.mpr hc⟩, rfl⟩
  · rintro ⟨⟨o, ho, w, hw, hc⟩, rfl⟩
    exact ⟨o, ho, w, ⟨hw, rfl⟩, or_iff_not_imp_left.mp hc⟩

/-! ### Keys written -/

def batchKeys (batchId : BytesN 32) : Set DataKey :=
  {k | k = .processedBatch batchId ∨ k = .batchDetails batchId}

def rateKeys : Set DataKey := {k | ∃ code, k = .materialRate code}

def writes : Call → Set DataKey
  | .init _ _ => {.owner, .worker, .defaultRate, .collectorShareBps} ∪ rateKeys
  | .setWorker _ _ => {.worker}
  | .approve fromAddr spender _ _ => {.allowance fromAddr spender}
  | .transfer _ _ _ => bankKeys
  | .transferFrom spender fromAddr _ _ => {.allowance fromAddr spender} ∪ bankKeys
  | .transferDelegated a => {.nonce a.fromAddr} ∪ bankKeys
  | .mint _ _ _ => bankKeys
  | .registerBatch _ batchId _ _ _ => bankKeys ∪ batchKeys batchId
  | .registerBatchWeighed a => bankKeys ∪ batchKeys a.batchId
  | .notarizeBatchReceipt _ batchId _ _ => batchKeys batchId
  | .setMaterialRate _ code _ => {.materialRate code}
  | .view _ => ∅

/-! ### Postings -/

def positiveMint (target : Address) (n : ℤ) : List (Posting Address) :=
  if 0 < n then [.mint target n] else []

def shareBps (s : State) : ℤ :=
  (unwrapOr (s.instanceData.get .collectorShareBps) (i128 2000)).val

def weighedTotal (s : State) (a : Weighed) : ℤ :=
  weighedReward (effectiveRate s) (a.materialCodes.toList.zip a.weightsGrams.toList)

def weighedShares (s : State) (a : Weighed) : ℤ × ℤ :=
  split (weighedTotal s a) (shareBps s) a.households.toList.length

def postings (s : State) : Call → List (Posting Address)
  | .transfer fromAddr toAddr amount => [.move fromAddr toAddr amount.val]
  | .transferFrom _ fromAddr toAddr amount => [.move fromAddr toAddr amount.val]
  | .transferDelegated a => [.move a.fromAddr a.toAddr a.amount.val]
  | .mint _ toAddr amount => [.mint toAddr amount.val]
  | .registerBatch _ _ _ recipients amounts => mints (recipients.toList.zip amounts.toList)
  | .registerBatchWeighed a =>
    a.households.toList.flatMap (fun hh => positiveMint hh (weighedShares s a).1) ++
      positiveMint a.collector (weighedShares s a).2
  | _ => []

structure Effect (call : Call) (s s' : State) : Prop where
  bank : bank s' = (bank s).postAll (postings s call)
  frame : AgreeOff (writes call) s s'

theorem effect_of_frame {call : Call} {s s' : State} (hp : postings s call = [])
    (hd : ∀ k ∈ bankKeys, k ∉ writes call) (h : AgreeOff (writes call) s s') : Effect call s s' :=
  ⟨by rw [hp, Bank.postAll_nil, h.bank_eq hd], h⟩

/-! ### Administration -/

theorem setPresets_spec {rates : List (Symbol × I128)} {s s' : State} {u : Unit}
    (h : Returns (setPresets rates) s u s') : AgreeOff rateKeys s s' := by
  induction rates generalizing s with
  | nil =>
    obtain ⟨-, rfl⟩ := returns_pure.mp h
    exact .refl _ _
  | cons r rates ih =>
    simp only [setPresets, returns_bind, returns_persistentSet, returns_persistentExtendTtl] at h
    obtain ⟨_, _, rfl, _, _, ⟨-, rfl⟩, hrest⟩ := h
    exact (AgreeOff.setPersistent (K := rateKeys) ⟨r.1, rfl⟩).trans (ih hrest)

theorem init_spec {s s' : State} {owner worker : Address} {u : Unit}
    (h : Returns (RegistryContract.init owner worker) s u s') :
    Effect (.init owner worker) s s' ∧
      s'.instanceData.get .collectorShareBps = some (i128 2000) := by
  simp only [RegistryContract.init, returns_bind, returns_instanceHas, returns_trapIf,
    returns_instanceSet, returns_instanceExtendTtl] at h
  obtain ⟨_, _, ⟨-, rfl⟩, _, _, ⟨-, rfl⟩, _, _, rfl, _, _, rfl, _, _, rfl, _, _, rfl, _, t,
    hpresets, rfl⟩ := h
  have hrates := setPresets_spec hpresets
  refine ⟨effect_of_frame rfl ?_ ?_, ?_⟩
  · rintro k (rfl | ⟨a, rfl⟩) <;> simp [writes, rateKeys]
  · refine AgreeOff.trans ?_ (hrates.mono (Set.subset_union_right))
    exact (AgreeOff.setInstance (by simp [writes])).trans <|
      (AgreeOff.setInstance (by simp [writes])).trans <|
      (AgreeOff.setInstance (by simp [writes])).trans <| AgreeOff.setInstance (by simp [writes])
  · rw [hrates.instanceData _ (by simp [rateKeys])]
    exact Store.get_set_self _ _ _

theorem setWorker_spec {env : Env} {s s' : State} {caller newWorker : Address} {u : Unit}
    (h : Returns (RegistryContract.setWorker env caller newWorker) s u s') :
    Effect (.setWorker caller newWorker) s s' := by
  simp [RegistryContract.setWorker] at h
  obtain ⟨_, _, _, _, _, _, rfl⟩ := h
  refine effect_of_frame rfl ?_ (AgreeOff.setInstance (by simp [writes]))
  rintro k (rfl | ⟨a, rfl⟩) <;> simp [writes]

theorem setMaterialRate_spec {env : Env} {s s' : State} {caller : Address} {code : Symbol}
    {rate : I128} {u : Unit}
    (h : Returns (RegistryContract.setMaterialRate env caller code rate) s u s') :
    Effect (.setMaterialRate caller code rate) s s' := by
  simp only [RegistryContract.setMaterialRate, returns_bind, requireWorkerOrOwner_returns,
    returns_requireAuth, returns_persistentSet, returns_persistentExtendTtl] at h
  obtain ⟨_, _, ⟨-, rfl⟩, _, _, ⟨-, rfl⟩, _, _, rfl, -, rfl⟩ := h
  refine effect_of_frame rfl ?_ (AgreeOff.setPersistent (by simp [writes]))
  simp [writes, bankKeys]

/-! ### Allowances and transfers -/

theorem approve_spec {env : Env} {s s' : State} {fromAddr spender : Address} {amount : I128}
    {expiration : UInt32} {u : Unit}
    (h : Returns (RegistryContract.approve env fromAddr spender amount expiration) s u s') :
    Effect (.approve fromAddr spender amount expiration) s s' ∧ fromAddr ∈ env.auths ∧
      allowanceOf s' fromAddr spender = amount.val := by
  simp only [RegistryContract.approve, returns_bind, returns_requireAuth, returns_persistentSet,
    returns_persistentExtendTtl] at h
  obtain ⟨_, _, ⟨hauth, rfl⟩, _, _, rfl, -, rfl⟩ := h
  refine ⟨effect_of_frame rfl ?_ (AgreeOff.setPersistent (by simp [writes])), hauth,
    allowanceOf_put _ _ _ _⟩
  simp [writes, bankKeys]

theorem transfer_returns {env : Env} {s s' : State} {fromAddr toAddr : Address} {amount : I128}
    {u : Unit} :
    Returns (RegistryContract.transfer env fromAddr toAddr amount) s u s' ↔
      fromAddr ∈ env.auths ∧ Returns (internalTransfer fromAddr toAddr amount) s u s' := by
  simp [RegistryContract.transfer]

theorem transfer_spec {env : Env} {s s' : State} {fromAddr toAddr : Address} {amount : I128}
    {u : Unit} (h : Returns (RegistryContract.transfer env fromAddr toAddr amount) s u s') :
    Effect (.transfer fromAddr toAddr amount) s s' ∧ fromAddr ∈ env.auths ∧
      TransferGuards s fromAddr toAddr amount := by
  obtain ⟨hauth, h⟩ := transfer_returns.mp h
  obtain ⟨hguards, hbank, hframe⟩ := internalTransfer_spec h
  exact ⟨⟨hbank, hframe⟩, hauth, hguards⟩

structure TransferFromGuards (env : Env) (s : State) (spender fromAddr toAddr : Address)
    (amount : I128) : Prop where
  authorised : spender ∈ env.auths
  allowed : amount.val ≤ allowanceOf s fromAddr spender
  movable : TransferGuards s fromAddr toAddr amount

/-- The state in which the transfer of a `transfer_from` runs. -/
def spend (s : State) (fromAddr spender : Address) (rest : I128) : State :=
  s.putPersistent (.allowance fromAddr spender) rest

theorem spend_agree (s : State) (fromAddr spender : Address) (rest : I128) :
    AgreeOff {.allowance fromAddr spender} s (spend s fromAddr spender rest) :=
  AgreeOff.setPersistent (by simp)

theorem bank_spend (s : State) (fromAddr spender : Address) (rest : I128) :
    bank (spend s fromAddr spender rest) = bank s :=
  (spend_agree s fromAddr spender rest).bank_eq (by simp [bankKeys])

theorem transferFrom_returns {env : Env} {s s' : State} {spender fromAddr toAddr : Address}
    {amount : I128} {u : Unit} :
    Returns (RegistryContract.transferFrom env spender fromAddr toAddr amount) s u s' ↔
      spender ∈ env.auths ∧ amount.val ≤ allowanceOf s fromAddr spender ∧
        ∃ rest : I128, rest.val = allowanceOf s fromAddr spender - amount.val ∧
          Returns (internalTransfer fromAddr toAddr amount) (spend s fromAddr spender rest) u
            s' := by
  simp [RegistryContract.transferFrom, SWord.lt_def, spend]

theorem transferFrom_iff {env : Env} {s : State} {spender fromAddr toAddr : Address}
    {amount : I128} :
    (∃ s', Returns (RegistryContract.transferFrom env spender fromAddr toAddr amount) s () s') ↔
      TransferFromGuards env s spender fromAddr toAddr amount := by
  constructor
  · rintro ⟨s', h⟩
    obtain ⟨hauth, hallowed, rest, _, h⟩ := transferFrom_returns.mp h
    exact ⟨hauth, hallowed,
      (transferGuards_congr (bank_spend _ _ _ _)).mp (internalTransfer_iff.mp ⟨s', h⟩)⟩
  · rintro ⟨hauth, hallowed, hmovable⟩
    have hfits : Fits 128 (allowanceOf s fromAddr spender - amount.val) := by
      rw [← val_allowance] at hallowed ⊢
      exact SWord.fits_sub_of_le hmovable.positive.le hallowed
    obtain ⟨s', h⟩ := internalTransfer_iff.mpr
      ((transferGuards_congr (bank_spend s fromAddr spender ⟨_, hfits⟩)).mpr hmovable)
    exact ⟨s', transferFrom_returns.mpr ⟨hauth, hallowed, ⟨_, hfits⟩, rfl, h⟩⟩

theorem transferFrom_spec {env : Env} {s s' : State} {spender fromAddr toAddr : Address}
    {amount : I128} {u : Unit}
    (h : Returns (RegistryContract.transferFrom env spender fromAddr toAddr amount) s u s') :
    Effect (.transferFrom spender fromAddr toAddr amount) s s' ∧
      TransferFromGuards env s spender fromAddr toAddr amount ∧
      allowanceOf s' fromAddr spender = allowanceOf s fromAddr spender - amount.val := by
  have hguards := transferFrom_iff.mp ⟨s', h⟩
  obtain ⟨-, -, rest, hrest, h⟩ := transferFrom_returns.mp h
  obtain ⟨-, hbank, hframe⟩ := internalTransfer_spec h
  have hagree := spend_agree s fromAddr spender rest
  refine ⟨⟨?_, (hagree.mono Set.subset_union_left).trans (hframe.mono Set.subset_union_right)⟩,
    hguards, ?_⟩
  · rw [hbank, bank_spend]
    rfl
  · rw [hframe.allowanceOf_eq (by simp [bankKeys]), spend, allowanceOf_put, hrest]

/-! ### Delegated transfer -/

theorem verifyAddressMatchesPubkey_returns {s s' : State} {addr : Address} {key : BytesN 32}
    {u : Unit} :
    Returns (verifyAddressMatchesPubkey addr key) s u s' ↔ addr.trailing = key ∧ s = s' := by
  have hlen : 32 ≤ addr.toXdr.length ∧ addr.toXdr.length ≤ 128 := by
    rw [Address.toXdr_length]
    cases addr <;> simp
  have hkey : addr.trailing.bytes = key.bytes ↔ addr.trailing = key :=
    ⟨BytesN.ext_bytes, fun h => h ▸ rfl⟩
  simp [verifyAddressMatchesPubkey, Address.toXdr_drop, hkey, hlen]

structure DelegatedGuards (env : Env) (s : State) (a : Delegated) : Prop where
  relayer : Privileged env s a.caller
  keyMatches : a.fromAddr.trailing = a.publicKeyRaw
  current : a.nonce.val = nonceOf s a.fromAddr
  nextFits : Fits 128 (nonceOf s a.fromAddr + 1)
  signed : env.ed25519Verify a.publicKeyRaw
    (delegatedPayload a.fromAddr a.toAddr a.amount a.nonce env.currentContractAddress)
    a.signature = true
  movable : TransferGuards s a.fromAddr a.toAddr a.amount

/-- The state in which the transfer of a `transfer_delegated` runs. -/
def advance (s : State) (fromAddr : Address) (next : I128) : State :=
  s.putPersistent (.nonce fromAddr) next

theorem advance_agree (s : State) (fromAddr : Address) (next : I128) :
    AgreeOff {.nonce fromAddr} s (advance s fromAddr next) :=
  AgreeOff.setPersistent (by simp)

theorem bank_advance (s : State) (fromAddr : Address) (next : I128) :
    bank (advance s fromAddr next) = bank s :=
  (advance_agree s fromAddr next).bank_eq (by simp [bankKeys])

theorem transferDelegated_returns {env : Env} {s s' : State} {a : Delegated} {b : Bool} :
    Returns (Delegated.run env a) s b s' ↔
      WorkerOrOwner s a.caller ∧ a.caller ∈ env.auths ∧ a.fromAddr.trailing = a.publicKeyRaw ∧
        a.nonce.val = nonceOf s a.fromAddr ∧
        ∃ next : I128, next.val = nonceOf s a.fromAddr + 1 ∧
          env.ed25519Verify a.publicKeyRaw (delegatedPayload a.fromAddr a.toAddr a.amount a.nonce
            env.currentContractAddress) a.signature = true ∧
          (∃ u, Returns (internalTransfer a.fromAddr a.toAddr a.amount)
            (advance s a.fromAddr next) u s') ∧ b = true := by
  have hnonce : a.nonce = unwrapOr (s.persistent.get (.nonce a.fromAddr)) 0 ↔
      a.nonce.val = nonceOf s a.fromAddr :=
    ⟨fun h => by rw [h, val_nonce], fun h => SWord.ext (by rw [h, val_nonce])⟩
  have hone : (i128 1).val = 1 := val_i128 (by decide)
  simp [Delegated.run, RegistryContract.transferDelegated, requireWorkerOrOwner_returns,
    verifyAddressMatchesPubkey_returns, RegistryContract.ed25519Verify, advance, hnonce, hone]

theorem transferDelegated_iff {env : Env} {s : State} {a : Delegated} :
    (∃ b s', Returns (a.run env) s b s') ↔ DelegatedGuards env s a := by
  constructor
  · rintro ⟨b, s', h⟩
    obtain ⟨hrole, hauth, hkey, hnonce, next, hnext, hsigned, ⟨_, h⟩, -⟩ :=
      transferDelegated_returns.mp h
    exact ⟨⟨hrole, hauth⟩, hkey, hnonce, hnext ▸ next.fits, hsigned,
      (transferGuards_congr (bank_advance _ _ _)).mp (internalTransfer_iff.mp ⟨s', h⟩)⟩
  · rintro ⟨⟨hrole, hauth⟩, hkey, hnonce, hfits, hsigned, hmovable⟩
    obtain ⟨s', h⟩ := internalTransfer_iff.mpr
      ((transferGuards_congr (bank_advance s a.fromAddr ⟨_, hfits⟩)).mpr hmovable)
    exact ⟨true, s', transferDelegated_returns.mpr
      ⟨hrole, hauth, hkey, hnonce, ⟨_, hfits⟩, rfl, hsigned, ⟨_, h⟩, rfl⟩⟩

theorem transferDelegated_spec {env : Env} {s s' : State} {a : Delegated} {b : Bool}
    (h : Returns (a.run env) s b s') :
    Effect (.transferDelegated a) s s' ∧ DelegatedGuards env s a ∧
      nonceOf s' a.fromAddr = nonceOf s a.fromAddr + 1 := by
  have hguards := transferDelegated_iff.mp ⟨b, s', h⟩
  obtain ⟨-, -, -, -, next, hnext, -, ⟨_, h⟩, -⟩ := transferDelegated_returns.mp h
  obtain ⟨-, hbank, hframe⟩ := internalTransfer_spec h
  have hagree := advance_agree s a.fromAddr next
  refine ⟨⟨?_, (hagree.mono Set.subset_union_left).trans (hframe.mono Set.subset_union_right)⟩,
    hguards, ?_⟩
  · rw [hbank, bank_advance]
    rfl
  · rw [hframe.nonceOf_eq (by simp [bankKeys]), advance, nonceOf_put, hnext]

/-! ### Minting and batches -/

theorem mint_spec {env : Env} {s s' : State} {caller toAddr : Address} {amount : I128} {u : Unit}
    (h : Returns (RegistryContract.mint env caller toAddr amount) s u s') :
    Effect (.mint caller toAddr amount) s s' ∧ Privileged env s caller := by
  simp only [RegistryContract.mint, returns_bind, requireWorkerOrOwner_returns,
    returns_requireAuth] at h
  obtain ⟨_, _, ⟨hrole, rfl⟩, _, _, ⟨hauth, rfl⟩, h⟩ := h
  obtain ⟨hbank, hframe⟩ := internalMint_spec h
  exact ⟨⟨hbank, hframe⟩, hrole, hauth⟩

structure Registers (s s' : State) (batchId : BytesN 32) (reward : ℤ) : Prop where
  fresh : s.persistent.get (.processedBatch batchId) = none
  marked : s'.persistent.get (.processedBatch batchId) = some true
  recorded : ∃ details : BatchRecord, s'.persistent.get (.batchDetails batchId) = some details ∧
    details.processed = true ∧ details.totalReward.val = reward

theorem recordBatch_spec {s s' : State} {batchId : BytesN 32} {details : BatchRecord} {u : Unit}
    (h : Returns (recordBatch batchId details) s u s') :
    AgreeOff (batchKeys batchId) s s' ∧
      s'.persistent.get (.processedBatch batchId) = some true ∧
      s'.persistent.get (.batchDetails batchId) = some details := by
  simp only [recordBatch, returns_bind, returns_persistentSet, returns_persistentExtendTtl] at h
  obtain ⟨_, _, rfl, _, _, ⟨-, rfl⟩, _, _, rfl, -, rfl⟩ := h
  refine ⟨(AgreeOff.setPersistent (Or.inl rfl)).trans (AgreeOff.setPersistent (Or.inr rfl)), ?_, ?_⟩
  · rw [State.putPersistent_persistent, Store.get_set_of_ne (by simp),
      State.putPersistent_persistent, Store.get_set_self]
  · exact Store.get_set_self _ _ _

theorem disjoint_batchKeys (batchId : BytesN 32) : ∀ k ∈ bankKeys, k ∉ batchKeys batchId := by
  rintro k (rfl | ⟨a, rfl⟩) <;> simp [batchKeys]

theorem registers_of_record (call : Call) {s t s' : State} {batchId : BytesN 32}
    {details : BatchRecord} {u : Unit} (hwrites : bankKeys ∪ batchKeys batchId = writes call)
    (hfresh : s.persistent.has (.processedBatch batchId) = false)
    (hbank : bank t = (bank s).postAll (postings s call)) (hframe : AgreeOff bankKeys s t)
    (hprocessed : details.processed = true) (h : Returns (recordBatch batchId details) t u s') :
    Effect call s s' ∧ Registers s s' batchId details.totalReward.val := by
  obtain ⟨hrecord, hmarked, hdetails⟩ := recordBatch_spec h
  refine ⟨⟨by rw [hrecord.bank_eq (disjoint_batchKeys batchId), hbank], ?_⟩, ?_, hmarked,
    ⟨details, hdetails, hprocessed, rfl⟩⟩
  · rw [← hwrites]
    exact (hframe.mono Set.subset_union_left).trans (hrecord.mono Set.subset_union_right)
  · simpa [Store.has] using hfresh

structure RegisterBatchGuards (env : Env) (s : State) (caller : Address) (batchId : BytesN 32)
    (recipients : Vec Address) (amounts : Vec I128) : Prop where
  privileged : Privileged env s caller
  fresh : s.persistent.get (.processedBatch batchId) = none
  aligned : recipients.len = amounts.len
  nonempty : recipients.len ≠ 0

theorem registerBatch_spec {env : Env} {s s' : State} {caller : Address} {batchId : BytesN 32}
    {ipfsCid : String} {recipients : Vec Address} {amounts : Vec I128} {b : Bool}
    (h : Returns (RegistryContract.registerBatch env caller batchId ipfsCid recipients amounts) s b
      s') :
    Effect (.registerBatch caller batchId ipfsCid recipients amounts) s s' ∧
      RegisterBatchGuards env s caller batchId recipients amounts ∧
      Registers s s' batchId (minted (mints (recipients.toList.zip amounts.toList))) := by
  simp only [RegistryContract.registerBatch, returns_bind, requireWorkerOrOwner_returns,
    returns_requireAuth, returns_persistentHas, returns_trapIf, returns_pure] at h
  obtain ⟨_, _, ⟨hrole, rfl⟩, _, _, ⟨hauth, rfl⟩, _, _, ⟨rfl, rfl⟩, _, _, ⟨hfresh, rfl⟩, _, _,
    ⟨hlen, rfl⟩, total, t, hmint, _, _, hrecord, -, rfl⟩ := h
  obtain ⟨hbank, hframe, htotal⟩ := mintEach_spec hmint
  obtain ⟨haligned, hnonempty⟩ := not_or.mp hlen
  obtain ⟨heffect, hregisters⟩ := registers_of_record
    (.registerBatch caller batchId ipfsCid recipients amounts) rfl
    (Bool.eq_false_iff.mpr hfresh) hbank hframe rfl hrecord
  refine ⟨heffect, ⟨⟨hrole, hauth⟩, hregisters.fresh, not_not.mp haligned, hnonempty⟩, ?_⟩
  have hsum : total.val = minted (mints (recipients.toList.zip amounts.toList)) := by
    simpa using htotal
  rwa [← hsum]

theorem positiveMint_of_pos {target : Address} {n : ℤ} (h : 0 < n) :
    positiveMint target n = [.mint target n] := if_pos h

theorem positiveMint_of_not_pos {target : Address} {n : ℤ} (h : ¬ 0 < n) :
    positiveMint target n = [] := if_neg h

theorem guardedMint_spec {s s' : State} {target : Address} {amount : I128} {u : Unit}
    (h : Returns (whenPositive amount (internalMint target amount)) s u s') :
    bank s' = (bank s).postAll (positiveMint target amount.val) ∧ AgreeOff bankKeys s s' := by
  rcases returns_ite.mp h with ⟨hpos, h⟩ | ⟨hpos, h⟩
  · obtain ⟨hbank, hframe⟩ := internalMint_spec h
    exact ⟨by rw [hbank, positiveMint_of_pos hpos]; rfl, hframe⟩
  · obtain ⟨-, rfl⟩ := returns_pure.mp h
    exact ⟨by rw [positiveMint_of_not_pos hpos]; rfl, .refl _ _⟩

theorem guardedHouseholds_spec {s s' : State} {hhs : List Address} {amount : I128} {u : Unit}
    (h : Returns (whenPositive amount (mintHouseholds amount hhs)) s u s') :
    bank s' = (bank s).postAll (hhs.flatMap fun hh => positiveMint hh amount.val) ∧
      AgreeOff bankKeys s s' := by
  rcases returns_ite.mp h with ⟨hpos, h⟩ | ⟨hpos, h⟩
  · obtain ⟨hbank, hframe⟩ := mintHouseholds_spec h
    have hmints : (hhs.flatMap fun hh => positiveMint hh amount.val) =
        mints (hhs.map fun hh => (hh, amount)) := by
      simp only [positiveMint_of_pos hpos, mints, List.map_map, ← List.map_eq_flatMap]
      rfl
    exact ⟨by rw [hbank, hmints], hframe⟩
  · obtain ⟨-, rfl⟩ := returns_pure.mp h
    have hnone : (hhs.flatMap fun hh => positiveMint hh amount.val) = [] :=
      List.flatMap_eq_nil_iff.mpr fun _ _ => positiveMint_of_not_pos hpos
    exact ⟨by rw [hnone]; rfl, .refl _ _⟩

/-- What an accepted `registerBatchWeighed` goes through: the households are paid, then the
collector, and then the batch is recorded. -/
structure WeighedSteps (env : Env) (a : Weighed) (s t t' s' : State) (shares : I128 × I128)
    (details : BatchRecord) : Prop where
  privileged : Privileged env s a.caller
  fresh : s.persistent.has (.processedBatch a.batchId) = false
  total : details.totalReward.val = weighedTotal s a
  nonzero : details.totalReward ≠ 0
  processed : details.processed = true
  weighed : (shares.1.val, shares.2.val) = weighedShares s a
  households : Returns (whenPositive shares.1 (mintHouseholds shares.1 a.households.toList)) s () t
  collector : Returns (whenPositive shares.2 (internalMint a.collector shares.2)) t () t'
  recorded : Returns (recordBatch a.batchId details) t' () s'

theorem registerBatchWeighed_steps {env : Env} {s s' : State} {a : Weighed} {b : Bool}
    (h : Returns (a.run env) s b s') :
    ∃ t t' shares details, WeighedSteps env a s t t' s' shares details := by
  simp only [Weighed.run, RegistryContract.registerBatchWeighed, instanceGet, returns_bind,
    requireWorkerOrOwner_returns, returns_requireAuth, returns_persistentHas, returns_trapIf,
    returns_map, returns_get, returns_pure] at h
  obtain ⟨_, _, ⟨hrole, rfl⟩, _, _, ⟨hauth, rfl⟩, _, _, ⟨rfl, rfl⟩, _, _, ⟨hfresh, rfl⟩, _, _,
    ⟨-, rfl⟩, total, _, hsum, h⟩ := h
  obtain ⟨_, _, ⟨hnonzero, rfl⟩, _, _, ⟨_, ⟨rfl, rfl⟩, rfl⟩, shares, _, hsplit, h⟩ := h
  obtain ⟨_, t, hhouseholds, _, t', hcollector, _, _, hcount, _, _, hrecord, -, rfl⟩ := h
  obtain ⟨rfl, htotal⟩ := sumRewards_spec hsum
  obtain ⟨rfl, hshares⟩ := splitReward_spec hsplit
  obtain ⟨-, rfl⟩ := returns_checked.mp hcount
  have hreward : total.val = weighedTotal s a := by simpa [weighedTotal] using htotal
  refine ⟨t, t', shares, _, ⟨hrole, hauth⟩, Bool.eq_false_iff.mpr hfresh, hreward, hnonzero,
    rfl, ?_, hhouseholds, hcollector, hrecord⟩
  rw [hshares, hreward]
  rfl

theorem registerBatchWeighed_spec {env : Env} {s s' : State} {a : Weighed} {b : Bool}
    (h : Returns (a.run env) s b s') :
    Effect (.registerBatchWeighed a) s s' ∧ Privileged env s a.caller ∧
      Registers s s' a.batchId (weighedTotal s a) ∧ weighedTotal s a ≠ 0 := by
  obtain ⟨t, t', shares, details, hsteps⟩ := registerBatchWeighed_steps h
  obtain ⟨hbank, hframe⟩ := guardedHouseholds_spec hsteps.households
  obtain ⟨hbank', hframe'⟩ := guardedMint_spec hsteps.collector
  obtain ⟨hhousehold, hcoll⟩ := Prod.ext_iff.mp hsteps.weighed
  have hposted : bank t' = (bank s).postAll (postings s (.registerBatchWeighed a)) := by
    rw [postings, Bank.postAll_append, ← hhousehold, ← hcoll, ← hbank]
    exact hbank'
  obtain ⟨heffect, hregisters⟩ := registers_of_record (.registerBatchWeighed a) rfl
    hsteps.fresh hposted (hframe.trans hframe') hsteps.processed hsteps.recorded
  refine ⟨heffect, hsteps.privileged, ?_, fun hzero => hsteps.nonzero (SWord.ext ?_)⟩
  · rwa [← hsteps.total]
  · rw [hsteps.total, hzero]
    rfl

theorem notarizeBatchReceipt_spec {env : Env} {s s' : State} {caller : Address}
    {batchId : BytesN 32} {center : Address} {ipfsCid : String} {b : Bool}
    (h : Returns (RegistryContract.notarizeBatchReceipt env caller batchId center ipfsCid) s b s') :
    Effect (.notarizeBatchReceipt caller batchId center ipfsCid) s s' ∧ Privileged env s caller ∧
      Registers s s' batchId 0 := by
  simp only [RegistryContract.notarizeBatchReceipt, returns_bind, requireWorkerOrOwner_returns,
    returns_requireAuth, returns_persistentHas, returns_trapIf, returns_publish,
    returns_pure] at h
  obtain ⟨_, _, ⟨hrole, rfl⟩, _, _, ⟨hauth, rfl⟩, _, _, ⟨rfl, rfl⟩, _, _, ⟨hfresh, rfl⟩, _, t,
    hrecord, _, _, rfl, -, rfl⟩ := h
  obtain ⟨hframe, hmarked, hdetails⟩ := recordBatch_spec hrecord
  refine ⟨effect_of_frame rfl (disjoint_batchKeys batchId)
    ⟨hframe.persistent, hframe.instanceData⟩, ⟨hrole, hauth⟩, ?_, hmarked,
    ⟨_, hdetails, rfl, rfl⟩⟩
  simpa [Store.has] using hfresh

/-! ### Views -/

theorem readExtended_spec {s s' : State} {k : DataKey} {f : Option k.Value → I128} {x : I128}
    (h : Returns (readExtended k f) s x s') : s = s' := by
  simp [readExtended] at h
  tauto

theorem view_spec {v : View} {s s' : State} {u : Unit} (h : Returns v.exec s u s') : s = s' := by
  cases v with
  | workerAddress | owner | totalSupply => simp [View.exec, RegistryContract.workerAddress,
      RegistryContract.owner, RegistryContract.totalSupply] at h; tauto
  | name | symbol | decimals => simp [View.exec, RegistryContract.name, RegistryContract.symbol,
      RegistryContract.decimals] at h; tauto
  | balance id =>
    obtain ⟨x, h⟩ := returns_effect.mp h
    exact readExtended_spec h
  | allowance a b =>
    obtain ⟨x, h⟩ := returns_effect.mp h
    exact readExtended_spec h
  | nonces id =>
    obtain ⟨x, h⟩ := returns_effect.mp h
    exact readExtended_spec h
  | materialRate code =>
    obtain ⟨x, h⟩ := returns_effect.mp h
    exact (getEffectiveRate_spec h).1
  | isBatchProcessed batchId =>
    simp [View.exec, RegistryContract.isBatchProcessed, returns_ite] at h
    tauto
  | getBatch batchId =>
    simp [View.exec, RegistryContract.getBatch, returns_ite] at h
    tauto

/-! ### Summary for an accepted invocation -/

variable {host : Host} {s s' : State} {i : Invocation}

theorem accepted_effect (h : Accepted host s i s') : Effect i.call s s' := by
  unfold Accepted at h
  cases hc : i.call <;> simp only [hc, exec, returns_effect] at h
  case init => exact (init_spec h).1
  case setWorker => exact setWorker_spec h
  case approve => exact (approve_spec h).1
  case transfer => exact (transfer_spec h).1
  case transferFrom => exact (transferFrom_spec h).1
  case transferDelegated =>
    obtain ⟨_, h⟩ := h
    exact (transferDelegated_spec h).1
  case mint => exact (mint_spec h).1
  case registerBatch =>
    obtain ⟨_, h⟩ := h
    exact (registerBatch_spec h).1
  case registerBatchWeighed =>
    obtain ⟨_, h⟩ := h
    exact (registerBatchWeighed_spec h).1
  case notarizeBatchReceipt =>
    obtain ⟨_, h⟩ := h
    exact (notarizeBatchReceipt_spec h).1
  case setMaterialRate => exact setMaterialRate_spec h
  case view =>
    obtain rfl := view_spec h
    exact ⟨rfl, .refl _ _⟩

def batch? : Call → Option (BytesN 32)
  | .registerBatch _ batchId _ _ _ => some batchId
  | .registerBatchWeighed a => some a.batchId
  | .notarizeBatchReceipt _ batchId _ _ => some batchId
  | _ => none

def batchReward (s : State) : Call → ℤ
  | .registerBatch _ _ _ recipients amounts =>
    minted (mints (recipients.toList.zip amounts.toList))
  | .registerBatchWeighed a => weighedTotal s a
  | _ => 0

theorem accepted_registers {batchId : BytesN 32} (h : Accepted host s i s')
    (hb : batch? i.call = some batchId) : Registers s s' batchId (batchReward s i.call) := by
  unfold Accepted at h
  cases hc : i.call <;> simp only [hc, batch?, reduceCtorEq, Option.some.injEq] at hb <;>
    simp only [hc, exec, returns_effect] at h <;> obtain ⟨_, h⟩ := h <;> subst hb
  case registerBatch => exact (registerBatch_spec h).2.2
  case registerBatchWeighed => exact (registerBatchWeighed_spec h).2.2.1
  case notarizeBatchReceipt => exact (notarizeBatchReceipt_spec h).2.2

theorem accepted_delegated {a : Delegated} (h : Accepted host s i s')
    (hc : i.call = .transferDelegated a) :
    DelegatedGuards (Host.env host i) s a ∧ nonceOf s' a.fromAddr = nonceOf s a.fromAddr + 1 := by
  simp only [Accepted, hc, exec, returns_effect] at h
  obtain ⟨_, h⟩ := h
  exact (transferDelegated_spec h).2

theorem delegated_accepted_iff {a : Delegated} (hc : i.call = .transferDelegated a) :
    (∃ s', Accepted host s i s') ↔ DelegatedGuards (Host.env host i) s a := by
  simp only [Accepted, hc, exec, returns_effect, ← transferDelegated_iff]
  exact exists_comm

theorem transfer_accepted_iff {fromAddr toAddr : Address} {amount : I128}
    (hc : i.call = .transfer fromAddr toAddr amount) :
    (∃ s', Accepted host s i s') ↔
      fromAddr ∈ i.auths ∧ TransferGuards s fromAddr toAddr amount := by
  simp only [Accepted, hc, exec, transfer_returns, exists_and_left, internalTransfer_iff]
  rfl

theorem transferFrom_accepted_iff {spender fromAddr toAddr : Address} {amount : I128}
    (hc : i.call = .transferFrom spender fromAddr toAddr amount) :
    (∃ s', Accepted host s i s') ↔
      TransferFromGuards (Host.env host i) s spender fromAddr toAddr amount := by
  simp only [Accepted, hc, exec, transferFrom_iff]

theorem accepted_transferFrom {spender fromAddr toAddr : Address} {amount : I128}
    (h : Accepted host s i s') (hc : i.call = .transferFrom spender fromAddr toAddr amount) :
    TransferFromGuards (Host.env host i) s spender fromAddr toAddr amount ∧
      allowanceOf s' fromAddr spender = allowanceOf s fromAddr spender - amount.val := by
  simp only [Accepted, hc, exec] at h
  exact (transferFrom_spec h).2

theorem accepted_approve {fromAddr spender : Address} {amount : I128} {expiration : UInt32}
    (h : Accepted host s i s') (hc : i.call = .approve fromAddr spender amount expiration) :
    allowanceOf s' fromAddr spender = amount.val := by
  simp only [Accepted, hc, exec] at h
  exact (approve_spec h).2.2

theorem accepted_mint {caller toAddr : Address} {amount : I128} (h : Accepted host s i s')
    (hc : i.call = .mint caller toAddr amount) : Privileged (Host.env host i) s caller := by
  simp only [Accepted, hc, exec] at h
  exact (mint_spec h).2

theorem accepted_registerBatch {caller : Address} {batchId : BytesN 32} {ipfsCid : String}
    {recipients : Vec Address} {amounts : Vec I128} (h : Accepted host s i s')
    (hc : i.call = .registerBatch caller batchId ipfsCid recipients amounts) :
    RegisterBatchGuards (Host.env host i) s caller batchId recipients amounts := by
  simp only [Accepted, hc, exec, returns_effect] at h
  obtain ⟨_, h⟩ := h
  exact (registerBatch_spec h).2.1

theorem accepted_shareBps (h : Accepted host s i s') :
    s'.instanceData.get .collectorShareBps = s.instanceData.get .collectorShareBps ∨
      s'.instanceData.get .collectorShareBps = some (i128 2000) := by
  by_cases hc : ∃ o w, i.call = .init o w
  · obtain ⟨o, w, hc⟩ := hc
    simp only [Accepted, hc, exec] at h
    exact Or.inr (init_spec h).2
  · refine Or.inl ((accepted_effect h).frame.instanceData _ ?_)
    cases hcall : i.call <;> simp_all [writes, bankKeys, batchKeys]

end Livora.RegistryEffects
