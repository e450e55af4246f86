import Livora.RegistryAuthority

/-! Who rules the contract over a whole run. The first `init` sets the owner, for good, and a
worker; every further worker is appointed by the owner or by the worker before. Nothing but the one
`init` and what these two authorise changes the supply, the rates, the batches or the rule
itself. -/

namespace Livora.RegistryRegimes

open CheckedWords StellarXdr TrappingState TypedStore RegistryStorage RegistryContract
open RegistryBank RegistryCalls RegistryEffects RegistryAuthority TokenBank TransitionRuns

/-! ### Appointments -/

structure Regime where
  owner : Address
  worker : Address
deriving DecidableEq

inductive Appointment where
  | founded (owner worker : Address)
  | appointed (auths : List Address) (caller newWorker : Address)

def appointment (i : Invocation) : Option Appointment :=
  match i.call with
  | .init owner worker => some (.founded owner worker)
  | .setWorker caller newWorker => some (.appointed i.auths caller newWorker)
  | _ => none

def Rules (r : Regime) (a : Address) : Prop := a = r.owner ∨ a = r.worker

/-- The contract is founded once, and each worker is appointed by a call that the owner or the
worker before has authorised. -/
inductive Succession : List Appointment → Option Regime → Prop
  | none : Succession [] none
  | founded (owner worker : Address) : Succession [.founded owner worker] (some ⟨owner, worker⟩)
  | appointed {es : List Appointment} {r : Regime} {auths : List Address} {caller : Address}
  (newWorker : Address)
      (h : Succession es (some r)) (hcaller : Rules r caller) (hauth : caller ∈ auths) :
      Succession (es ++ [.appointed auths caller newWorker]) (some { r with worker := newWorker })

theorem Succession.eq_nil {es : List Appointment} {r : Option Regime} (h : Succession es r)
    (hr : r = .none) :
    es = [] := by
  cases h with
  | none => rfl
  | founded owner worker => cases hr
  | appointed newWorker h hcaller hauth => cases hr

def founder : Appointment → Option Address
  | .founded owner _ => some owner
  | .appointed _ _ _ => none

theorem Succession.founders {es : List Appointment} {r : Option Regime} (h : Succession es r) :
    es.filterMap founder = (r.map Regime.owner).toList := by
  induction h with
  | none => rfl
  | founded owner worker => rfl
  | appointed newWorker h hcaller hauth ih =>
    rw [List.filterMap_append, ih]
    rfl

/-! ### Calls -/

def Governed (r : Option Regime) (s : State) : Prop :=
  s.instanceData.get .owner = r.map Regime.owner ∧ s.instanceData.get .worker = r.map Regime.worker

/-- What is not for the holders of the tokens alone. -/
def ruled : Set DataKey :=
  {k | k ≠ .totalSupply ∧ (∀ a, k ≠ .balance a) ∧ (∀ a b, k ≠ .allowance a b) ∧ ∀ a, k ≠ .nonce a}

/-- The call leaves the supply and all that is ruled as it was. -/
def Entrenched (s s' : State) : Prop := supply s' = supply s ∧ AgreeOff (ruledᶜ) s s'

/-- The caller of a privileged call, or of an appointment. -/
def rulingCaller : Call → Option Address
  | .setWorker caller _ => some caller
  | call => privilegedCaller call

variable {host : Host} {s s' : State} {i : Invocation} {caller : Address} {r : Option Regime}

theorem accepted_privileged (h : Accepted host s i s')
    (hcall : privilegedCaller i.call = some caller) :
    Privileged (Host.env host i) s caller := by
  unfold Accepted at h
  cases hc : i.call with
  | mint c a n =>
    rw [hc] at h hcall
    obtain rfl := Option.some.inj hcall
    exact (mint_spec h).2
  | registerBatch c batchId cid recipients amounts =>
    rw [hc] at h hcall
    obtain rfl := Option.some.inj hcall
    obtain ⟨_, h⟩ := returns_effect.mp h
    exact (registerBatch_spec h).2.1.privileged
  | registerBatchWeighed a =>
    rw [hc] at h hcall
    obtain rfl := Option.some.inj hcall
    obtain ⟨_, h⟩ := returns_effect.mp h
    exact (registerBatchWeighed_spec h).2.1
  | notarizeBatchReceipt c batchId center cid =>
    rw [hc] at h hcall
    obtain rfl := Option.some.inj hcall
    obtain ⟨_, h⟩ := returns_effect.mp h
    exact (notarizeBatchReceipt_spec h).2.1
  | setMaterialRate c code rate =>
    rw [hc] at h hcall
    obtain rfl := Option.some.inj hcall
    simp only [exec, RegistryContract.setMaterialRate, returns_bind, requireWorkerOrOwner_returns,
      returns_requireAuth] at h
    obtain ⟨_, _, ⟨hrole, -⟩, _, _, ⟨hauth, -⟩, -⟩ := h
    exact ⟨hrole, hauth⟩
  | transferDelegated a =>
    rw [hc] at hcall
    obtain rfl := Option.some.inj hcall
    exact (accepted_delegated h hc).1.relayer
  | _ =>
    rw [hc] at hcall
    cases hcall

theorem accepted_setWorker {newWorker : Address} (h : Accepted host s i s')
    (hc : i.call = .setWorker caller newWorker) :
    Privileged (Host.env host i) s caller ∧ s' = s.putInstance .worker newWorker := by
  simp only [Accepted, hc, exec] at h
  simp [RegistryContract.setWorker] at h
  obtain ⟨owner, howner, worker, hworker, hcaller, hauth, rfl⟩ := h
  exact ⟨⟨⟨owner, worker, howner, hworker, or_iff_not_imp_left.mpr hcaller⟩, hauth⟩, rfl⟩

theorem accepted_init {owner worker : Address} (h : Accepted host s i s')
    (hc : i.call = .init owner worker) :
    s.instanceData.get .owner = none ∧ Governed (some ⟨owner, worker⟩) s' := by
  simp only [Accepted, hc, exec] at h
  refine ⟨?_, init_owner h, ?_⟩
  · simp only [RegistryContract.init, returns_bind, returns_instanceHas, returns_trapIf] at h
    obtain ⟨_, _, ⟨rfl, rfl⟩, _, _, ⟨hfresh, -⟩, -⟩ := h
    simpa [Store.has] using hfresh
  · simp only [RegistryContract.init, returns_bind, returns_instanceHas, returns_trapIf,
      returns_instanceSet, returns_instanceExtendTtl] at h
    obtain ⟨_, _, ⟨-, rfl⟩, _, _, ⟨-, rfl⟩, _, _, rfl, _, _, rfl, _, _, rfl, _, _, rfl, _, t,
      hpresets, rfl⟩ := h
    rw [(setPresets_spec hpresets).instanceData _ (by simp [rateKeys])]
    simp only [State.putInstance_instanceData]
    rw [Store.get_set_of_ne (by simp), Store.get_set_of_ne (by simp)]
    exact Store.get_set_self _ _ _

theorem rules_of_privileged {env : Env} (hgoverned : Governed r s) (h : Privileged env s caller) :
    ∃ r₀, r = some r₀ ∧ caller ∈ env.auths ∧ Rules r₀ caller := by
  obtain ⟨⟨owner, worker, howner, hworker, hcaller⟩, hauth⟩ := h
  cases r with
  | none =>
    rw [hgoverned.1] at howner
    cases howner
  | some r₀ =>
    rw [hgoverned.1] at howner
    rw [hgoverned.2] at hworker
    obtain rfl := Option.some.inj howner
    obtain rfl := Option.some.inj hworker
    exact ⟨r₀, rfl, hauth, hcaller⟩

theorem entrenched_of_accepted (h : Accepted host s i s') (hcaller : rulingCaller i.call = none)
    (hinit : ∀ owner worker, i.call ≠ .init owner worker) : Entrenched s s' := by
  have heffect := accepted_effect h
  have hsupply : minted (postings s i.call) = 0 → supply s' = supply s := by
    intro hzero
    rw [← bank_supply s', heffect.bank, Bank.supply_postAll, hzero, add_zero, bank_supply]
  cases hc : i.call with
  | init owner worker => exact absurd hc (hinit owner worker)
  | approve fromAddr spender amount expiration =>
    rw [hc] at heffect hsupply
    exact ⟨hsupply rfl, heffect.frame.mono (by simp [writes, ruled])⟩
  | transfer fromAddr toAddr amount =>
    rw [hc] at heffect hsupply
    refine ⟨hsupply rfl, heffect.frame.mono ?_⟩
    rintro k (rfl | ⟨a, rfl⟩) <;> simp [ruled]
  | transferFrom spender fromAddr toAddr amount =>
    rw [hc] at heffect hsupply
    refine ⟨hsupply rfl, heffect.frame.mono ?_⟩
    rintro k (rfl | rfl | ⟨a, rfl⟩) <;> simp [ruled]
  | view v =>
    rw [hc] at heffect hsupply
    exact ⟨hsupply rfl, heffect.frame.mono (by simp [writes])⟩
  | _ =>
    rw [hc] at hcaller
    cases hcaller

theorem governed_of_accepted (hgoverned : Governed r s) (h : Accepted host s i s')
    (hnone : appointment i = none) :
    Governed r s' := by
  have hkeys : DataKey.owner ∉ writes i.call ∧ DataKey.worker ∉ writes i.call := by
    unfold appointment at hnone
    cases hc : i.call with
    | init owner worker =>
      rw [hc] at hnone
      cases hnone
    | setWorker caller newWorker =>
      rw [hc] at hnone
      cases hnone
    | _ => simp [writes, bankKeys, batchKeys]
  have hframe := (accepted_effect h).frame.instanceData
  exact ⟨(hframe _ hkeys.1).trans hgoverned.1, (hframe _ hkeys.2).trans hgoverned.2⟩

/-! ### Runs -/

theorem succession_step {es : List Appointment} (hsuccession : Succession es r)
    (hgoverned : Governed r s) (h : Accepted host s i s') :
    ∃ r', Succession (es ++ (appointment i).toList) r' ∧ Governed r' s' := by
  cases hc : i.call with
  | init owner worker =>
    have happointment : appointment i = some (.founded owner worker) := by rw [appointment, hc]
    obtain ⟨hnone, hfounded⟩ := accepted_init h hc
    have hr : r = none := by
      rw [hgoverned.1] at hnone
      exact Option.map_eq_none_iff.mp hnone
    rw [happointment, hsuccession.eq_nil hr]
    exact ⟨_, .founded owner worker, hfounded⟩
  | setWorker caller newWorker =>
    have happointment : appointment i = some (.appointed i.auths caller newWorker) := by
      rw [appointment, hc]
    obtain ⟨hprivileged, rfl⟩ := accepted_setWorker h hc
    obtain ⟨r₀, rfl, hauth, hrules⟩ := rules_of_privileged hgoverned hprivileged
    rw [happointment]
    refine ⟨_, .appointed newWorker hsuccession hrules hauth, ?_, ?_⟩
    · rw [State.putInstance_instanceData, Store.get_set_of_ne (by simp)]
      exact hgoverned.1
    · exact Store.get_set_self _ _ _
  | _ =>
    have happointment : appointment i = none := by rw [appointment, hc]
    rw [happointment, Option.toList_none, List.append_nil]
    exact ⟨r, hsuccession, governed_of_accepted hgoverned h happointment⟩

/-- After every run the owner and the worker are those of the succession, and the next call that is
accepted changes neither the supply nor anything that is ruled, or is the foundation, or is made and
authorised by the owner or the worker. -/
theorem registry_ruled (host : Host) (is : List Invocation) :
    ∃ r, Succession (history host appointment State.empty is) r ∧
      Governed r (after host State.empty is) ∧
      ∀ i s', Accepted host (after host State.empty is) i s' →
        Entrenched (after host State.empty is) s' ∨
        (r = none ∧ ∃ owner worker, i.call = .init owner worker) ∨
        ∃ r₀ caller, r = some r₀ ∧ rulingCaller i.call = some caller ∧ caller ∈ i.auths ∧
          Rules r₀ caller := by
  have hrun := run_eq_after host State.empty is
  obtain ⟨r, hsuccession, hgoverned⟩ := history_invariant (f := appointment)
    (I := fun es s => ∃ r, Succession es r ∧ Governed r s)
    (fun es s i s' ⟨r, hsuccession, hgoverned⟩ h => succession_step hsuccession hgoverned h)
    ⟨none, .none, rfl, rfl⟩ hrun
  refine ⟨r, hsuccession, hgoverned, fun i s' h => ?_⟩
  by_cases hinit : ∃ owner worker, i.call = .init owner worker
  · obtain ⟨owner, worker, hc⟩ := hinit
    have hnone := (accepted_init h hc).1
    rw [hgoverned.1] at hnone
    exact Or.inr (Or.inl ⟨Option.map_eq_none_iff.mp hnone, owner, worker, hc⟩)
  · cases hcaller : rulingCaller i.call with
    | none =>
      exact Or.inl (entrenched_of_accepted h hcaller fun owner worker hc =>
        hinit ⟨owner, worker, hc⟩)
    | some caller =>
      have hprivileged : Privileged (Host.env host i) (after host State.empty is) caller := by
        cases hc : i.call with
        | setWorker c newWorker =>
          rw [hc] at hcaller
          obtain rfl := Option.some.inj hcaller
          exact (accepted_setWorker h hc).1
        | _ =>
          refine accepted_privileged h ?_
          rw [hc] at hcaller ⊢
          exact hcaller
      obtain ⟨r₀, hr, hauth, hrules⟩ := rules_of_privileged hgoverned hprivileged
      exact Or.inr (Or.inr ⟨r₀, caller, hr, rfl, hauth, hrules⟩)

end Livora.RegistryRegimes
