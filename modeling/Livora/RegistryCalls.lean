import Livora.RegistryRewards
import Livora.TransitionRuns

/-! Calls on the deployed contract and what each successful one does: the checks
it passed, its postings on the token ledger, and the keys it may write. Every
invariant of the contract is derived from these, never from the entry points.
A call that traps is a step that keeps the whole state. -/

namespace Livora.RegistryCalls

open CheckedWords StellarXdr TrappingState TypedStore RegistryStorage RegistryContract
open RegistryBank RegistryRewards TokenBank TransitionRuns

/-- The arguments of `transfer_delegated`. -/
structure Delegated where
  caller : Address
  fromAddr : Address
  toAddr : Address
  amount : I128
  nonce : I128
  publicKeyRaw : BytesN 32
  signature : BytesN 64
deriving DecidableEq

def Delegated.run (env : Env) (a : Delegated) : Contract Bool :=
  RegistryContract.transferDelegated env a.caller a.fromAddr a.toAddr a.amount a.nonce
    a.publicKeyRaw a.signature

/-- The arguments of `register_batch_weighed`. -/
structure Weighed where
  caller : Address
  batchId : BytesN 32
  ipfsCid : String
  collector : Address
  households : Vec Address
  materialCodes : Vec Symbol
  weightsGrams : Vec I128
deriving DecidableEq

def Weighed.run (env : Env) (a : Weighed) : Contract Bool :=
  RegistryContract.registerBatchWeighed env a.caller a.batchId a.ipfsCid a.collector a.households
    a.materialCodes a.weightsGrams

inductive View where
  | workerAddress
  | owner
  | name
  | symbol
  | decimals
  | totalSupply
  | balance (id : Address)
  | allowance (fromAddr spender : Address)
  | materialRate (materialCode : Symbol)
  | isBatchProcessed (batchId : BytesN 32)
  | getBatch (batchId : BytesN 32)
  | nonces (id : Address)

inductive Call where
  | init (owner worker : Address)
  | setWorker (caller newWorker : Address)
  | approve (fromAddr spender : Address) (amount : I128) (expirationLedger : UInt32)
  | transfer (fromAddr toAddr : Address) (amount : I128)
  | transferFrom (spender fromAddr toAddr : Address) (amount : I128)
  | transferDelegated (args : Delegated)
  | mint (caller toAddr : Address) (amount : I128)
  | registerBatch (caller : Address) (batchId : BytesN 32) (ipfsCid : String)
      (recipients : Vec Address) (amounts : Vec I128)
  | registerBatchWeighed (args : Weighed)
  | notarizeBatchReceipt (caller : Address) (batchId : BytesN 32) (center : Address)
      (ipfsCid : String)
  | setMaterialRate (caller : Address) (materialCode : Symbol) (rateStroopsPerKg : I128)
  | view (v : View)

def effect {α : Type} (m : Contract α) : Contract Unit := (fun _ => ()) <$> m

@[simp] theorem returns_effect {α : Type} {m : Contract α} {s s' : State} {u : Unit} :
    Returns (effect m) s u s' ↔ ∃ a, Returns m s a s' := by
  simp [effect]

def View.exec : View → Contract Unit
  | .workerAddress => effect RegistryContract.workerAddress
  | .owner => effect RegistryContract.owner
  | .name => effect RegistryContract.name
  | .symbol => effect RegistryContract.symbol
  | .decimals => effect RegistryContract.decimals
  | .totalSupply => effect RegistryContract.totalSupply
  | .balance id => effect (RegistryContract.balance id)
  | .allowance fromAddr spender => effect (RegistryContract.allowance fromAddr spender)
  | .materialRate code => effect (RegistryContract.materialRate code)
  | .isBatchProcessed batchId => effect (RegistryContract.isBatchProcessed batchId)
  | .getBatch batchId => effect (RegistryContract.getBatch batchId)
  | .nonces id => effect (RegistryContract.nonces id)

def exec (env : Env) : Call → Contract Unit
  | .init owner worker => RegistryContract.init owner worker
  | .setWorker caller newWorker => RegistryContract.setWorker env caller newWorker
  | .approve fromAddr spender amount expiration =>
    RegistryContract.approve env fromAddr spender amount expiration
  | .transfer fromAddr toAddr amount => RegistryContract.transfer env fromAddr toAddr amount
  | .transferFrom spender fromAddr toAddr amount =>
    RegistryContract.transferFrom env spender fromAddr toAddr amount
  | .transferDelegated a => effect (a.run env)
  | .mint caller toAddr amount => RegistryContract.mint env caller toAddr amount
  | .registerBatch caller batchId ipfsCid recipients amounts =>
    effect (RegistryContract.registerBatch env caller batchId ipfsCid recipients amounts)
  | .registerBatchWeighed a => effect (a.run env)
  | .notarizeBatchReceipt caller batchId center ipfsCid =>
    effect (RegistryContract.notarizeBatchReceipt env caller batchId center ipfsCid)
  | .setMaterialRate caller materialCode rate =>
    RegistryContract.setMaterialRate env caller materialCode rate
  | .view v => v.exec

structure Invocation where
  auths : List Address
  timestamp : UInt64
  sequence : UInt32
  call : Call

def Host.env (host : Host) (i : Invocation) : Env :=
  { host with auths := i.auths, timestamp := i.timestamp, sequence := i.sequence }

/-- The invocation is accepted in `s` and leaves `s'`. -/
def Accepted (host : Host) (s : State) (i : Invocation) (s' : State) : Prop :=
  Returns (exec (Host.env host i) i.call) s () s'

def step (host : Host) (s : State) (i : Invocation) : Option State :=
  some (commit (exec (Host.env host i) i.call) s)

theorem step_cases {host : Host} {s s' : State} {i : Invocation} (h : step host s i = some s') :
    Accepted host s i s' ∨ (s' = s ∧ ∀ t, ¬ Accepted host s i t) := by
  simp only [step, Option.some.injEq] at h
  subst h
  rcases commit_cases (exec (Host.env host i) i.call) s with ⟨_, ha⟩ | ⟨hs, hn⟩
  · exact Or.inl ha
  · exact Or.inr ⟨hs, hn ()⟩

theorem step_of_accepted {host : Host} {s s' : State} {i : Invocation}
    (h : Accepted host s i s') : step host s i = some s' := by
  simp only [step, commit_of_returns h]

def accepts (host : Host) (s : State) (i : Invocation) : Bool :=
  ((exec (Host.env host i) i.call).run s).isOk

theorem accepts_iff {host : Host} {s : State} {i : Invocation} :
    accepts host s i = true ↔ ∃ s', Accepted host s i s' := by
  unfold accepts Accepted Returns
  cases (exec (Host.env host i) i.call).run s with
  | error e => simp [Except.isOk, Except.toBool]
  | ok r => exact iff_of_true rfl ⟨r.2, rfl⟩

def observe {β : Type} (host : Host) (f : Invocation → Option β) (s : State) (i : Invocation) :
    Option β :=
  if accepts host s i then f i else none

theorem observe_accepted {β : Type} {f : Invocation → Option β} {host : Host} {s s' : State}
    {i : Invocation} (h : Accepted host s i s') : observe host f s i = f i :=
  if_pos (accepts_iff.mpr ⟨s', h⟩)

theorem observe_eq_some {β : Type} {f : Invocation → Option β} {host : Host} {s : State}
    {i : Invocation} {b : β} :
    observe host f s i = some b ↔ (∃ s', Accepted host s i s') ∧ f i = some b := by
  unfold observe
  rw [← accepts_iff]
  split <;> simp_all

/-- What the accepted invocations of a run show through `f`, in order. -/
def history {β : Type} (host : Host) (f : Invocation → Option β) (s : State)
    (is : List Invocation) : List β :=
  trace (step host) (observe host f) s is

/-- The state a run ends in; a trapped invocation keeps the state, so there is always one. -/
def after (host : Host) (s : State) (is : List Invocation) : State :=
  is.foldl (fun s i => commit (exec (Host.env host i) i.call) s) s

theorem run_eq_after (host : Host) (s : State) (is : List Invocation) :
    run (step host) s is = some (after host s is) := by
  induction is generalizing s with
  | nil => rfl
  | cons i is ih => exact run_cons.mpr ⟨_, rfl, ih _⟩

theorem history_invariant {β : Type} {f : Invocation → Option β} {host : Host}
    {I : List β → State → Prop}
    (hstep : ∀ h s i s', I h s → Accepted host s i s' → I (h ++ (f i).toList) s')
    {s s' : State} {is : List Invocation} (hs : I [] s) (h : run (step host) s is = some s') :
    I (history host f s is) s' := by
  refine run_history (p := []) (fun h s i s' hI hs' => ?_) hs h
  rcases step_cases hs' with ha | ⟨rfl, hn⟩
  · rw [observe_accepted ha]
    exact hstep h s i s' hI ha
  · have hreject : observe host f s' i = none :=
      if_neg fun e => (accepts_iff.mp e).elim hn
    simpa [hreject] using hI

theorem run_accepted {host : Host} {I : State → Prop}
    (hstep : ∀ s i s', I s → Accepted host s i s' → I s')
    {s s' : State} {is : List Invocation} (hs : I s) (h : run (step host) s is = some s') :
    I s' :=
  history_invariant (f := fun _ => (none : Option Unit)) (I := fun _ s => I s)
    (fun _ s i s' => hstep s i s') hs h

/-! ### A deployment for concrete runs -/

def sampleHost : Host := ⟨.contract (BytesN.fill 32 255), fun _ _ _ => true⟩

def admin : Address := .account (BytesN.fill 32 0)
def alice : Address := .account (BytesN.fill 32 1)
def bob : Address := .account (BytesN.fill 32 2)

def signedBy (a : Address) (call : Call) : Invocation := ⟨[a], 0, 0, call⟩

def deployed : Invocation := signedBy admin (.init admin admin)

def minting (a : Address) (n : I128) : Invocation := signedBy admin (.mint admin a n)

end Livora.RegistryCalls
