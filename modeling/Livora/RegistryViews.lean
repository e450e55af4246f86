import Livora.RegistryEffects

/-! When the views answer. A view extends the lifetime of the entry it reads, and the host
traps on an entry that is not there; so `balance`, `allowance` and `nonces` answer for the keys that
an accepted call of the run has stored, and for no others. -/

namespace Livora.RegistryViews

open CheckedWords StellarXdr TrappingState TypedStore RegistryStorage RegistryContract
open RegistryBank RegistryRewards RegistryCalls RegistryEffects TransitionRuns

/-- Exactly the keys of `K` are new in the persistent storage. -/
def Stores (K : Set DataKey) (s s' : State) : Prop :=
  ∀ k, s'.persistent.has k = true ↔ s.persistent.has k = true ∨ k ∈ K

namespace Stores

variable {K L : Set DataKey} {s t u : State}

theorem refl (s : State) : Stores ∅ s s := fun _ => by simp

theorem putInstance (k : DataKey) (v : k.Value) : Stores ∅ s (s.putInstance k v) := fun _ => by simp

theorem putPersistent (k : DataKey) (v : k.Value) : Stores {k} s (s.putPersistent k v) := by
  intro k'
  rw [State.putPersistent_persistent, Set.mem_singleton_iff]
  by_cases h : k' = k
  · subst h
    simp
  · rw [Store.has_set_of_ne h]
    exact (or_iff_left h).symm

theorem trans (h : Stores K s t) (h' : Stores L t u) : Stores (K ∪ L) s u := fun k => by
  rw [h' k, h k, Set.mem_union, or_assoc]

theorem congr (h : Stores K s t) (hKL : ∀ k, k ∈ K ↔ k ∈ L) : Stores L s t := fun k => by
  rw [h k, hKL k]

end Stores

/-! ### What each entry point stores -/

def presetKeys : List (Symbol × I128) → Set DataKey
  | [] => ∅
  | (code, _) :: rest => {.materialRate code} ∪ presetKeys rest

def balanceKeys : List Address → Set DataKey
  | [] => ∅
  | target :: rest => {.balance target} ∪ balanceKeys rest

def paid (n : ℤ) (targets : List Address) : List Address := if 0 < n then targets else []

/-- The keys a call stores when it is accepted. -/
def stored (s : State) : Call → Set DataKey
  | .init _ _ => presetKeys presets
  | .setWorker _ _ => ∅
  | .approve fromAddr spender _ _ => {.allowance fromAddr spender}
  | .transfer fromAddr toAddr _ => balanceKeys [fromAddr, toAddr]
  | .transferFrom spender fromAddr toAddr _ =>
    {.allowance fromAddr spender} ∪ balanceKeys [fromAddr, toAddr]
  | .transferDelegated a => {.nonce a.fromAddr} ∪ balanceKeys [a.fromAddr, a.toAddr]
  | .mint _ toAddr _ => balanceKeys [toAddr]
  | .registerBatch _ batchId _ recipients amounts =>
    balanceKeys ((recipients.toList.zip amounts.toList).map Prod.fst) ∪ batchKeys batchId
  | .registerBatchWeighed a =>
    balanceKeys (paid (weighedShares s a).1 a.households.toList) ∪
      balanceKeys (paid (weighedShares s a).2 [a.collector]) ∪ batchKeys a.batchId
  | .notarizeBatchReceipt _ batchId _ _ => batchKeys batchId
  | .setMaterialRate _ code _ => {.materialRate code}
  | .view _ => ∅

section EntryPoints

variable {s s' : State} {u : Unit}

theorem setPresets_stores {rates : List (Symbol × I128)}
    (h : Returns (setPresets rates) s u s') : Stores (presetKeys rates) s s' := by
  induction rates generalizing s with
  | nil =>
    obtain ⟨-, rfl⟩ := returns_pure.mp h
    exact .refl _
  | cons r rates ih =>
    simp only [setPresets, returns_bind, returns_persistentSet, returns_persistentExtendTtl] at h
    obtain ⟨_, _, rfl, _, _, ⟨-, rfl⟩, hrest⟩ := h
    exact (Stores.putPersistent _ _).trans (ih hrest)

theorem init_stores {owner worker : Address}
    (h : Returns (RegistryContract.init owner worker) s u s') :
    Stores (presetKeys presets) s s' := by
  simp only [RegistryContract.init, returns_bind, returns_instanceHas, returns_trapIf,
    returns_instanceSet, returns_instanceExtendTtl] at h
  obtain ⟨_, _, ⟨-, rfl⟩, _, _, ⟨-, rfl⟩, _, _, rfl, _, _, rfl, _, _, rfl, _, _, rfl, _, t,
    hpresets, rfl⟩ := h
  exact fun k => setPresets_stores hpresets k

theorem internalMint_stores {toAddr : Address} {amount : I128}
    (h : Returns (internalMint toAddr amount) s u s') : Stores {.balance toAddr} s s' := by
  simp [internalMint] at h
  obtain ⟨credited, -, issued, -, rfl⟩ := h
  exact Stores.putPersistent _ _

theorem internalTransfer_stores {fromAddr toAddr : Address} {amount : I128}
    (h : Returns (internalTransfer fromAddr toAddr amount) s u s') :
    Stores (balanceKeys [fromAddr, toAddr]) s s' := by
  obtain ⟨-, -, debited, credited, -, -, rfl⟩ := internalTransfer_returns.mp h
  refine ((Stores.putPersistent _ _).trans (Stores.putPersistent _ _)).congr fun k => ?_
  simp [balanceKeys]

theorem mintEach_stores {pairs : List (Address × I128)} {total total' : I128}
    (h : Returns (mintEach pairs total) s total' s') :
    Stores (balanceKeys (pairs.map Prod.fst)) s s' := by
  induction pairs generalizing s total with
  | nil =>
    obtain ⟨-, rfl⟩ := returns_pure.mp h
    exact .refl _
  | cons p pairs ih =>
    simp only [mintEach, returns_bind, returns_checked] at h
    obtain ⟨_, _, hmint, _, _, ⟨-, rfl⟩, hrest⟩ := h
    exact (internalMint_stores hmint).trans (ih hrest)

theorem mintHouseholds_stores {hhs : List Address} {amount : I128}
    (h : Returns (mintHouseholds amount hhs) s u s') : Stores (balanceKeys hhs) s s' := by
  induction hhs generalizing s with
  | nil =>
    obtain ⟨-, rfl⟩ := returns_pure.mp h
    exact .refl _
  | cons hh hhs ih =>
    simp only [mintHouseholds, returns_bind] at h
    obtain ⟨_, _, hmint, hrest⟩ := h
    exact (internalMint_stores hmint).trans (ih hrest)

theorem whenPositive_stores {m : Contract Unit} {amount : I128} {targets : List Address}
    (hm : ∀ {s s' : State}, Returns m s () s' → Stores (balanceKeys targets) s s')
    (h : Returns (whenPositive amount m) s u s') :
    Stores (balanceKeys (paid amount.val targets)) s s' := by
  rcases returns_ite.mp h with ⟨hpos, h⟩ | ⟨hpos, h⟩
  · have hpaid : 0 < amount.val := hpos
    rw [paid, if_pos hpaid]
    exact hm h
  · have hpaid : ¬ 0 < amount.val := hpos
    obtain ⟨-, rfl⟩ := returns_pure.mp h
    rw [paid, if_neg hpaid]
    exact .refl _

theorem recordBatch_stores {batchId : BytesN 32} {details : BatchRecord}
    (h : Returns (recordBatch batchId details) s u s') : Stores (batchKeys batchId) s s' := by
  simp only [recordBatch, returns_bind, returns_persistentSet, returns_persistentExtendTtl] at h
  obtain ⟨_, _, rfl, _, _, ⟨-, rfl⟩, _, _, rfl, -, rfl⟩ := h
  exact (Stores.putPersistent _ _).trans (Stores.putPersistent _ _)

theorem registerBatchWeighed_stores {env : Env} {a : Weighed} {b : Bool}
    (h : Returns (a.run env) s b s') : Stores (stored s (.registerBatchWeighed a)) s s' := by
  obtain ⟨t, t', shares, details, hsteps⟩ := registerBatchWeighed_steps h
  have hhousehold : shares.1.val = (weighedShares s a).1 := congrArg Prod.fst hsteps.weighed
  have hcoll : shares.2.val = (weighedShares s a).2 := congrArg Prod.snd hsteps.weighed
  have hpaid := whenPositive_stores mintHouseholds_stores hsteps.households
  have hcollected : ∀ {s s' : State}, Returns (internalMint a.collector shares.2) s () s' →
      Stores (balanceKeys [a.collector]) s s' := fun hm =>
    (internalMint_stores hm).congr fun k => by simp [balanceKeys]
  have hpaid' := whenPositive_stores hcollected hsteps.collector
  rw [hhousehold] at hpaid
  rw [hcoll] at hpaid'
  exact (hpaid.trans hpaid').trans (recordBatch_stores hsteps.recorded)

end EntryPoints

/-! ### Over a run -/

section Runs

variable {host : Host} {s s' : State} {i : Invocation}

theorem accepted_stores (h : Accepted host s i s') : Stores (stored s i.call) s s' := by
  unfold Accepted at h
  cases hc : i.call <;> simp only [hc, exec, returns_effect] at h
  case init => exact init_stores h
  case setWorker =>
    simp [RegistryContract.setWorker] at h
    obtain ⟨_, _, _, _, _, _, rfl⟩ := h
    exact Stores.putInstance _ _
  case approve =>
    simp [RegistryContract.approve] at h
    obtain ⟨_, rfl⟩ := h
    exact Stores.putPersistent _ _
  case transfer => exact internalTransfer_stores (transfer_returns.mp h).2
  case transferFrom =>
    obtain ⟨-, -, _, -, h⟩ := transferFrom_returns.mp h
    exact (Stores.putPersistent _ _).trans (internalTransfer_stores h)
  case transferDelegated =>
    obtain ⟨_, h⟩ := h
    obtain ⟨-, -, -, -, _, -, -, ⟨_, h⟩, -⟩ := transferDelegated_returns.mp h
    exact (Stores.putPersistent _ _).trans (internalTransfer_stores h)
  case mint =>
    simp only [RegistryContract.mint, returns_bind, requireWorkerOrOwner_returns,
      returns_requireAuth] at h
    obtain ⟨_, _, ⟨-, rfl⟩, _, _, ⟨-, rfl⟩, h⟩ := h
    exact (internalMint_stores h).congr fun k => by simp [stored, balanceKeys]
  case registerBatch =>
    simp only [RegistryContract.registerBatch, returns_bind, requireWorkerOrOwner_returns,
      returns_requireAuth, returns_persistentHas, returns_trapIf, returns_pure] at h
    obtain ⟨_, _, _, ⟨-, rfl⟩, _, _, ⟨-, rfl⟩, _, _, ⟨rfl, rfl⟩, _, _, ⟨-, rfl⟩, _, _,
      ⟨-, rfl⟩, total, t, hmint, _, _, hrecord, -, rfl⟩ := h
    exact (mintEach_stores hmint).trans (recordBatch_stores hrecord)
  case registerBatchWeighed =>
    obtain ⟨_, h⟩ := h
    exact registerBatchWeighed_stores h
  case notarizeBatchReceipt =>
    simp only [RegistryContract.notarizeBatchReceipt, returns_bind, requireWorkerOrOwner_returns,
      returns_requireAuth, returns_persistentHas, returns_trapIf, returns_publish,
      returns_pure] at h
    obtain ⟨_, _, _, ⟨-, rfl⟩, _, _, ⟨-, rfl⟩, _, _, ⟨rfl, rfl⟩, _, _, ⟨-, rfl⟩, _, t,
      hrecord, _, _, rfl, -, rfl⟩ := h
    exact fun k => recordBatch_stores hrecord k
  case setMaterialRate =>
    simp only [RegistryContract.setMaterialRate, returns_bind, requireWorkerOrOwner_returns,
      returns_requireAuth, returns_persistentSet, returns_persistentExtendTtl] at h
    obtain ⟨_, _, ⟨-, rfl⟩, _, _, ⟨-, rfl⟩, _, _, rfl, -, rfl⟩ := h
    exact Stores.putPersistent _ _
  case view =>
    obtain rfl := view_spec h
    exact Stores.refl _

def Written (host : Host) (is : List Invocation) (k : DataKey) : Prop :=
  ∃ p i q s s', is = p ++ i :: q ∧ run (step host) State.empty p = some s ∧
    Accepted host s i s' ∧ k ∈ stored s i.call

theorem has_run {is : List Invocation} (hrun : run (step host) State.empty is = some s)
    (k : DataKey) : s.persistent.has k = true ↔ Written host is k := by
  induction is using List.reverseRecOn generalizing s with
  | nil =>
    cases hrun
    refine iff_of_false (by simp [State.empty, Store.has]) ?_
    rintro ⟨p, i, q, _, _, hsplit, -⟩
    simp at hsplit
  | append_singleton is i ih =>
    obtain ⟨t, ht, hi⟩ := run_append.mp hrun
    obtain ⟨s'', hstep, hs⟩ := run_cons.mp hi
    cases hs
    have hearlier : Written host is k → Written host (is ++ [i]) k := by
      rintro ⟨p, j, q, u, u', rfl, hp⟩
      exact ⟨p, j, q ++ [i], u, u', by simp, hp⟩
    have hlater : Written host (is ++ [i]) k →
        Written host is k ∨ ∃ t', Accepted host t i t' ∧ k ∈ stored t i.call := by
      rintro ⟨p, j, q, u, u', hsplit, hp, ha, hk⟩
      rcases List.eq_nil_or_concat q with rfl | ⟨q, j', rfl⟩
      · obtain ⟨rfl, hj⟩ := List.append_inj' hsplit rfl
        obtain rfl : i = j := List.singleton_inj.mp hj
        obtain rfl : t = u := Option.some.inj (ht.symm.trans hp)
        exact Or.inr ⟨u', ha, hk⟩
      · rw [List.concat_eq_append, ← List.cons_append, ← List.append_assoc] at hsplit
        obtain ⟨rfl, -⟩ := List.append_inj' hsplit rfl
        exact Or.inl ⟨p, j, q, u, u', rfl, hp, ha, hk⟩
    rcases step_cases hstep with ha | ⟨rfl, hreject⟩
    · rw [accepted_stores ha k, ih ht]
      constructor
      · rintro (h | h)
        · exact hearlier h
        · exact ⟨is, i, [], t, s, by simp, ht, ha, h⟩
      · intro h
        refine (hlater h).imp_right ?_
        rintro ⟨-, -, hk⟩
        exact hk
    · rw [ih ht]
      refine ⟨hearlier, fun h => (hlater h).resolve_right ?_⟩
      rintro ⟨t', ha, -⟩
      exact hreject t' ha

def Answers (m : Contract I128) (s : State) (value : ℤ) : Prop :=
  ∃ x : I128, Returns m s x s ∧ x.val = value

theorem readExtended_answers {k : DataKey} {f : Option k.Value → I128} :
    Answers (readExtended k f) s (f (s.persistent.get k)).val ↔ s.persistent.has k = true := by
  simp [Answers, readExtended]

theorem readExtended_traps {k : DataKey} {f : Option k.Value → I128}
    (h : s.persistent.has k = false) : Traps (readExtended k f) s (.missingEntry k) := by
  simp [readExtended, persistentExtendTtl, persistentHas, h]

/-- In every reachable state the views answer with the stored value, or zero, exactly for the keys
that an accepted call of the run has stored. -/
theorem views_answer_iff (host : Host) (is : List Invocation) {s : State}
    (hrun : run (step host) State.empty is = some s) :
    (∀ id, Answers (RegistryContract.balance id) s (balanceOf s id) ↔
      Written host is (.balance id)) ∧
    (∀ fromAddr spender,
      Answers (RegistryContract.allowance fromAddr spender) s (allowanceOf s fromAddr spender) ↔
        Written host is (.allowance fromAddr spender)) ∧
    ∀ id, Answers (RegistryContract.nonces id) s (nonceOf s id) ↔
      Written host is (.nonce id) := by
  refine ⟨fun id => ?_, fun fromAddr spender => ?_, fun id => ?_⟩
  · rw [← has_run hrun, ← val_balance]
    exact readExtended_answers
  · rw [← has_run hrun, ← val_allowance]
    exact readExtended_answers
  · rw [← has_run hrun, ← val_nonce]
    exact readExtended_answers

theorem views_answer_deployed :
    Answers (RegistryContract.balance alice) (after sampleHost State.empty [deployed])
      (balanceOf (after sampleHost State.empty [deployed]) alice) ↔
        Written sampleHost [deployed] (.balance alice) :=
  (views_answer_iff sampleHost [deployed] (run_eq_after _ _ _)).1 alice

/-- Nobody has a balance after the deployment, and the view traps instead of answering zero. -/
theorem balance_traps_deployed :
    let s := after sampleHost State.empty [deployed]
    balanceOf s alice = 0 ∧ ¬ Answers (RegistryContract.balance alice) s (balanceOf s alice) := by
  intro s
  refine ⟨by decide +kernel, ?_⟩
  rintro ⟨x, h, -⟩
  have hnone : s.persistent.has (.balance alice) = false := by decide +kernel
  have htraps : Traps (RegistryContract.balance alice) s (.missingEntry (.balance alice)) :=
    readExtended_traps hnone
  rw [Returns, htraps] at h
  cases h

end Runs

end Livora.RegistryViews
