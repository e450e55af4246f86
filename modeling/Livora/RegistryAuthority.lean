import Livora.RegistryEffects

/-! Who may make a privileged call. A call of an entry point that starts with
`require_worker_or_owner` is refused as unauthorised exactly when its caller is
neither the stored worker nor the stored owner: nothing after the check traps
with that message. A contract that has a worker has an owner. -/

namespace Livora.RegistryAuthority

open CheckedWords StellarXdr TrappingState TypedStore RegistryStorage RegistryContract
open RegistryBank RegistryCalls RegistryEffects TransitionRuns

def unauthorised : Trap := .panic "No autorizado"

def privilegedCaller : Call → Option Address
  | .mint caller _ _ => some caller
  | .registerBatch caller _ _ _ _ => some caller
  | .registerBatchWeighed a => some a.caller
  | .notarizeBatchReceipt caller _ _ _ => some caller
  | .setMaterialRate caller _ _ => some caller
  | .transferDelegated a => some a.caller
  | _ => none

variable {s s' : State}

/-! ### After the check -/

@[simp] theorem panic_eq_unauthorised {message : String} :
    Trap.panic message = unauthorised ↔ message = "No autorizado" := by
  simp [unauthorised]

@[simp] theorem auth_ne_unauthorised : Trap.auth ≠ unauthorised := by
  simp [unauthorised]

@[simp] theorem overflow_ne_unauthorised : Trap.overflow ≠ unauthorised := by
  simp [unauthorised]

@[simp] theorem unwrapNone_ne_unauthorised : Trap.unwrapNone ≠ unauthorised := by
  simp [unauthorised]

@[simp] theorem missingEntry_ne_unauthorised {k : DataKey} :
    Trap.missingEntry k ≠ unauthorised := by
  simp [unauthorised]

@[simp] theorem invalidSignature_ne_unauthorised : Trap.invalidSignature ≠ unauthorised := by
  simp [unauthorised]

@[simp] theorem traps_requireAuth {env : Env} {a : Address} :
    ¬ Traps (requireAuth env a) s unauthorised := by
  simp [requireAuth]

@[simp] theorem traps_instanceHas {k : DataKey} : ¬ Traps (instanceHas k) s unauthorised := by
  simp [instanceHas]

@[simp] theorem traps_instanceSet {k : DataKey} {v : k.Value} :
    ¬ Traps (instanceSet k v) s unauthorised := by
  simp [instanceSet]

@[simp] theorem traps_persistentHas {k : DataKey} : ¬ Traps (persistentHas k) s unauthorised := by
  simp [persistentHas]

@[simp] theorem traps_persistentSet {k : DataKey} {v : k.Value} :
    ¬ Traps (persistentSet k v) s unauthorised := by
  simp [persistentSet]

@[simp] theorem traps_persistentExtendTtl {k : DataKey} :
    ¬ Traps (persistentExtendTtl k) s unauthorised := by
  simp [persistentExtendTtl]

@[simp] theorem traps_instanceExtendTtl : ¬ Traps instanceExtendTtl s unauthorised := by
  simp [instanceExtendTtl]

@[simp] theorem traps_publish {e : Event} : ¬ Traps (publish e) s unauthorised := by
  simp [publish]

@[simp] theorem traps_checked {α : Type} {o : Option α} :
    ¬ Traps (checked o) s unauthorised := by
  simp [checked]

@[simp] theorem traps_unwrap {α : Type} {o : Option α} : ¬ Traps (unwrap o) s unauthorised := by
  simp [unwrap]

@[simp] theorem traps_getEffectiveRate {code : Symbol} :
    ¬ Traps (getEffectiveRate code) s unauthorised := by
  simp [getEffectiveRate, traps_ite]

@[simp] theorem traps_internalMint {a : Address} {n : I128} :
    ¬ Traps (internalMint a n) s unauthorised := by
  simp [internalMint]

@[simp] theorem traps_internalTransfer {a b : Address} {n : I128} :
    ¬ Traps (internalTransfer a b n) s unauthorised := by
  simp [internalTransfer]

@[simp] theorem traps_recordBatch {batchId : BytesN 32} {details : BatchRecord} :
    ¬ Traps (recordBatch batchId details) s unauthorised := by
  simp [recordBatch]

@[simp] theorem traps_mintEach {rs : List (Address × I128)} {total : I128} :
    ¬ Traps (mintEach rs total) s unauthorised := by
  induction rs generalizing total s with
  | nil => simp [mintEach]
  | cons r rs ih => simp [mintEach, ih]

@[simp] theorem traps_mintHouseholds {n : I128} {hs : List Address} :
    ¬ Traps (mintHouseholds n hs) s unauthorised := by
  induction hs generalizing s with
  | nil => simp [mintHouseholds]
  | cons h hs ih => simp [mintHouseholds, ih]

@[simp] theorem traps_sumRewards {rs : List (Symbol × I128)} {total : I128} :
    ¬ Traps (sumRewards rs total) s unauthorised := by
  induction rs generalizing total s with
  | nil => simp [sumRewards]
  | cons r rs ih => simp [sumRewards, ih]

@[simp] theorem traps_splitReward {total bps : I128} {households : Vec Address} :
    ¬ Traps (splitReward total bps households) s unauthorised := by
  simp [splitReward, traps_ite]

@[simp] theorem traps_whenPositive {n : I128} {m : Contract Unit} :
    Traps (whenPositive n m) s unauthorised ↔ 0 < n ∧ Traps m s unauthorised := by
  simp [whenPositive, traps_ite]

@[simp] theorem traps_verifyAddressMatchesPubkey {a : Address} {key : BytesN 32} :
    ¬ Traps (verifyAddressMatchesPubkey a key) s unauthorised := by
  simp [verifyAddressMatchesPubkey]

@[simp] theorem traps_ed25519Verify {env : Env} {key : BytesN 32} {payload : Bytes}
    {signature : BytesN 64} :
    ¬ Traps (RegistryContract.ed25519Verify env key payload signature) s unauthorised := by
  simp [RegistryContract.ed25519Verify]

/-! ### The check decides -/

theorem requireWorkerOrOwner_traps {caller owner worker : Address}
    (howner : s.instanceData.get .owner = some owner)
    (hworker : s.instanceData.get .worker = some worker) :
    Traps (requireWorkerOrOwner caller) s unauthorised ↔ caller ≠ owner ∧ caller ≠ worker := by
  simp [requireWorkerOrOwner, howner, hworker]

theorem exec_traps_iff {env : Env} {call : Call} {caller : Address}
    (hcall : privilegedCaller call = some caller) :
    Traps (exec env call) s unauthorised ↔ Traps (requireWorkerOrOwner caller) s unauthorised := by
  cases call with
  | mint c a n =>
    obtain rfl := Option.some.inj hcall
    simp [exec, RegistryContract.mint]
  | registerBatch c batchId cid recipients amounts =>
    obtain rfl := Option.some.inj hcall
    simp [exec, effect, RegistryContract.registerBatch]
  | registerBatchWeighed a =>
    obtain rfl := Option.some.inj hcall
    simp [exec, effect, Weighed.run, RegistryContract.registerBatchWeighed]
  | notarizeBatchReceipt c batchId center cid =>
    obtain rfl := Option.some.inj hcall
    simp [exec, effect, RegistryContract.notarizeBatchReceipt]
  | setMaterialRate c code rate =>
    obtain rfl := Option.some.inj hcall
    simp [exec, RegistryContract.setMaterialRate]
  | transferDelegated a =>
    obtain rfl := Option.some.inj hcall
    simp [exec, effect, Delegated.run, RegistryContract.transferDelegated]
  | _ => cases hcall

/-! ### A worker comes with an owner -/

def WorkerHasOwner (s : State) : Prop :=
  ∀ worker, s.instanceData.get .worker = some worker →
    ∃ owner, s.instanceData.get .owner = some owner

theorem init_owner {owner worker : Address} {u : Unit}
    (h : Returns (RegistryContract.init owner worker) s u s') :
    s'.instanceData.get .owner = some owner := by
  simp only [RegistryContract.init, returns_bind, returns_instanceHas, returns_trapIf,
    returns_instanceSet, returns_instanceExtendTtl] at h
  obtain ⟨_, _, ⟨-, rfl⟩, _, _, ⟨-, rfl⟩, _, _, rfl, _, _, rfl, _, _, rfl, _, _, rfl, _, t,
    hpresets, rfl⟩ := h
  rw [(setPresets_spec hpresets).instanceData _ (by simp [rateKeys])]
  simp only [State.putInstance_instanceData]
  rw [Store.get_set_of_ne (by simp), Store.get_set_of_ne (by simp), Store.get_set_of_ne (by simp)]
  exact Store.get_set_self _ _ _

theorem setWorker_owner {env : Env} {caller newWorker : Address} {u : Unit}
    (h : Returns (RegistryContract.setWorker env caller newWorker) s u s') :
    ∃ owner, s'.instanceData.get .owner = some owner := by
  simp [RegistryContract.setWorker] at h
  obtain ⟨owner, howner, -, -, -, -, rfl⟩ := h
  exact ⟨owner, by rw [State.putInstance_instanceData, Store.get_set_of_ne (by simp), howner]⟩

theorem workerHasOwner_accepted {host : Host} {i : Invocation} (hs : WorkerHasOwner s)
    (h : Accepted host s i s') : WorkerHasOwner s' := by
  have hframe := (accepted_effect h).frame
  have hkept (howner : .owner ∉ writes i.call) (hworker : .worker ∉ writes i.call) :
      WorkerHasOwner s' := by
    intro worker hw
    rw [hframe.instanceData _ hworker] at hw
    rw [hframe.instanceData _ howner]
    exact hs worker hw
  unfold Accepted at h
  cases hc : i.call with
  | init owner worker =>
    rw [hc] at h
    exact fun _ _ => ⟨owner, init_owner h⟩
  | setWorker caller newWorker =>
    rw [hc] at h
    exact fun _ _ => setWorker_owner h
  | _ => refine hkept ?_ ?_ <;> simp [hc, writes, bankKeys, batchKeys]

theorem exists_owner {host : Host} {is : List Invocation} {worker : Address}
    (hrun : run (RegistryCalls.step host) State.empty is = some s)
    (hworker : s.instanceData.get .worker = some worker) :
    ∃ owner, s.instanceData.get .owner = some owner :=
  run_accepted (I := WorkerHasOwner) (fun _ _ _ => workerHasOwner_accepted)
    (fun _ h => by cases h) hrun worker hworker

end Livora.RegistryAuthority
