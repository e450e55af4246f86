import Livora.DelegatedRedemption
import Mathlib.Data.List.DropRight

/-! `StellarSequenceManager`: which key pairs the relayer signs with, and how a
call leases one of them. A lease polls the pool in its order, takes the first key
pair that no call holds, and falls back to the primary one when its time is up.
The distributed lock of a pool of one key pair delays a call and refuses none, so
it is left out. -/

namespace Livora.SequenceManager

open DelegatedRedemption TransitionRuns

/-! ### Keys -/

/-- The characters `trim` removes. -/
def isSpace (c : Char) : Bool :=
  [9, 10, 11, 12, 13, 32, 160, 5760, 8232, 8233, 8239, 8287, 12288, 65279].contains c.toNat ||
    (8192 ≤ c.toNat && c.toNat ≤ 8202)

def trim (k : List Char) : List Char := (k.dropWhile isSpace).rdropWhile isSpace

/-- The `length` of a text, in UTF-16 units. -/
def utf16Length (k : List Char) : ℕ := (k.map fun c => if c.toNat < 0x10000 then 1 else 2).sum

/-- The configuration, `Keypair.fromSecret`, and the pair `Keypair.random` draws. -/
structure Config (sdk : Sdk) where
  workerSecretKey : Option String
  channelSecretKeys : Option String
  fromSecret : String → Option sdk.Keypair
  random : sdk.Keypair

structure Manager (sdk : Sdk) where
  primaryWorkerKeypair : sdk.Keypair
  channelPool : List sdk.Keypair

variable {sdk : Sdk}

def Config.primary (c : Config sdk) : sdk.Keypair :=
  match c.workerSecretKey with
  | some secret =>
    if secret ≠ "" ∧ secret ≠ "S..." then (c.fromSecret secret).getD c.random else c.random
  | none => c.random

def channelKeys (config : String) : List String :=
  (((config.toList.splitOn ',').map trim).filter fun k =>
    k.head? = some 'S' ∧ utf16Length k = 56).map String.ofList

def Config.channels (c : Config sdk) : List sdk.Keypair :=
  ((c.channelSecretKeys.map channelKeys).getD []).filterMap c.fromSecret

def initKeys (c : Config sdk) : Manager sdk where
  primaryWorkerKeypair := c.primary
  channelPool := if c.channels = [] then [c.primary] else c.channels

/-! ### Leases -/

inductive Client (sdk : Sdk) where
  | waiting (timeoutMs : ℕ)
  | leased (keypair : sdk.Keypair)

structure Leases (sdk : Sdk) where
  inUseChannels : List String
  clients : ℕ → Option (Client sdk)

def Leases.idle : Leases sdk := ⟨[], fun _ => none⟩

/-- A call enters, tests the clock and makes a pass over the pool, or gives its key back. -/
inductive Event where
  | acquire (j timeoutMs : ℕ)
  | check (j elapsedMs : ℕ)
  | release (j : ℕ)

def firstFree (m : Manager sdk) (inUse : List String) : Option sdk.Keypair :=
  m.channelPool.find? fun k => sdk.publicKey k ∉ inUse

def Leases.put (l : Leases sdk) (j : ℕ) (client : Option (Client sdk)) : Leases sdk :=
  { l with clients := Function.update l.clients j client }

/-- One round of the loop of `acquireChannelAccount`. -/
def acquireChannelAccount (m : Manager sdk) (l : Leases sdk) (j timeoutMs elapsedMs : ℕ) :
    Leases sdk :=
  if elapsedMs < timeoutMs then
    match firstFree m l.inUseChannels with
    | some k =>
      ({ l with inUseChannels := sdk.publicKey k :: l.inUseChannels }).put j (some (.leased k))
    | none => l
  else l.put j (some (.leased m.primaryWorkerKeypair))

/-- The name leaves the set, whoever else holds a key pair of that name. -/
def releaseChannelAccount (l : Leases sdk) (j : ℕ) (k : sdk.Keypair) : Leases sdk :=
  ({ l with inUseChannels := l.inUseChannels.filter (· ≠ sdk.publicKey k) }).put j none

def step (m : Manager sdk) (l : Leases sdk) : Event → Option (Leases sdk)
  | .acquire j timeoutMs =>
    match l.clients j with
    | none => some (l.put j (some (.waiting timeoutMs)))
    | some _ => none
  | .check j elapsedMs =>
    match l.clients j with
    | some (.waiting timeoutMs) => some (acquireChannelAccount m l j timeoutMs elapsedMs)
    | _ => none
  | .release j =>
    match l.clients j with
    | some (.leased k) => some (releaseChannelAccount l j k)
    | _ => none

/-- Some run of leases ends with a call holding the key pair. -/
def Leased (m : Manager sdk) (k : sdk.Keypair) : Prop :=
  ∃ es l j, run (step m) Leases.idle es = some l ∧ l.clients j = some (.leased k)

/-! ### What is leased -/

variable {m : Manager sdk} {l l' : Leases sdk} {k : sdk.Keypair} {j : ℕ}

@[simp] theorem Leases.put_clients_self (client : Option (Client sdk)) :
    (l.put j client).clients j = client :=
  Function.update_self _ _ _

theorem Leases.put_clients_of_ne {i : ℕ} (h : i ≠ j) (client : Option (Client sdk)) :
    (l.put j client).clients i = l.clients i :=
  Function.update_of_ne h _ _

/-- Held key pairs are the primary one or members of the pool. -/
def Owned (m : Manager sdk) (l : Leases sdk) : Prop :=
  ∀ j k, l.clients j = some (.leased k) → k ∈ m.channelPool ∨ k = m.primaryWorkerKeypair

theorem owned_put {client : Option (Client sdk)} (h : Owned m l)
    (hclient : ∀ k, client = some (.leased k) → k ∈ m.channelPool ∨ k = m.primaryWorkerKeypair) :
    Owned m (l.put j client) := by
  intro i k hi
  by_cases hij : i = j
  · subst hij
    rw [Leases.put_clients_self] at hi
    exact hclient k hi
  · rw [Leases.put_clients_of_ne hij] at hi
    exact h i k hi

theorem owned_acquire {timeoutMs elapsedMs : ℕ} (h : Owned m l) :
    Owned m (acquireChannelAccount m l j timeoutMs elapsedMs) := by
  unfold acquireChannelAccount
  split
  · split
    · rename_i k hfree
      refine owned_put (l := { l with inUseChannels := sdk.publicKey k :: l.inUseChannels }) h ?_
      intro k' hk
      cases hk
      exact Or.inl (List.mem_of_find?_eq_some hfree)
    · exact h
  · refine owned_put h ?_
    intro k hk
    cases hk
    exact Or.inr rfl

theorem owned_step {e : Event} (h : Owned m l) (hs : step m l e = some l') : Owned m l' := by
  cases e with
  | acquire j timeoutMs =>
    simp only [step] at hs
    split at hs
    · cases hs
      exact owned_put h fun k hk => by cases hk
    · cases hs
  | check j elapsedMs =>
    simp only [step] at hs
    split at hs
    · cases hs
      exact owned_acquire h
    · cases hs
  | release j =>
    simp only [step] at hs
    split at hs
    · cases hs
      exact owned_put (l := { l with inUseChannels := _ }) h fun k hk => by cases hk
    · cases hs

theorem leased_mem (h : Leased m k) : k ∈ m.channelPool ∨ k = m.primaryWorkerKeypair := by
  obtain ⟨es, l, j, hrun, hj⟩ := h
  have hidle : Owned m Leases.idle := fun j k h => by cases h
  exact run_preserves (fun _ _ _ => owned_step) hidle hrun j k hj

/-! ### Every name of the pool is leased in some run -/

def freeKeys (m : Manager sdk) (l : Leases sdk) : List sdk.Keypair :=
  m.channelPool.filter fun k => sdk.publicKey k ∉ l.inUseChannels

theorem step_acquire {timeoutMs : ℕ} (hj : l.clients j = none) :
    step m l (.acquire j timeoutMs) = some (l.put j (some (.waiting timeoutMs))) := by
  simp only [step, hj]

theorem step_check {timeoutMs elapsedMs : ℕ} (hj : l.clients j = some (.waiting timeoutMs))
    (htime : elapsedMs < timeoutMs) (hfree : firstFree m l.inUseChannels = some k) :
    step m l (.check j elapsedMs) =
      some (({ l with inUseChannels := sdk.publicKey k :: l.inUseChannels }).put j
        (some (.leased k))) := by
  simp only [step, hj, acquireChannelAccount, if_pos htime, hfree]

theorem lease_first (hj : l.clients j = none) (hfree : firstFree m l.inUseChannels = some k) :
    ∃ l', run (step m) l [.acquire j 1, .check j 0] = some l' ∧
      l'.clients j = some (.leased k) ∧
      l'.inUseChannels = sdk.publicKey k :: l.inUseChannels ∧
      ∀ i, i ≠ j → l'.clients i = l.clients i := by
  have hwait : (l.put j (some (.waiting 1))).clients j = some (.waiting 1) :=
    Leases.put_clients_self _
  refine ⟨_, run_cons.mpr ⟨_, step_acquire hj, run_cons.mpr
    ⟨_, step_check hwait zero_lt_one hfree, rfl⟩⟩, Leases.put_clients_self _, rfl, fun i hi => ?_⟩
  rw [Leases.put_clients_of_ne hi]
  exact Leases.put_clients_of_ne hi _

/-- While the key pair's name is free, leasing again and again arrives at it. -/
theorem lease_arrives (n : ℕ) (hn : (freeKeys m l).length = n) (hk : k ∈ m.channelPool)
    (hfree : sdk.publicKey k ∉ l.inUseChannels) (hnew : ∀ i, j ≤ i → l.clients i = none) :
    ∃ es l' i k', run (step m) l es = some l' ∧ l'.clients i = some (.leased k') ∧
      sdk.publicKey k' = sdk.publicKey k := by
  induction n using Nat.strong_induction_on generalizing l j with
  | _ n ih =>
    cases hfirst : firstFree m l.inUseChannels with
    | none =>
      have := List.find?_eq_none.mp hfirst k hk
      simp [hfree] at this
    | some k' =>
      obtain ⟨l', hrun, hj, hinUse, hothers⟩ := lease_first (hnew j le_rfl) hfirst
      by_cases hname : sdk.publicKey k' = sdk.publicKey k
      · exact ⟨_, l', j, k', hrun, hj, hname⟩
      · have hfree' : sdk.publicKey k ∉ l'.inUseChannels := by
          rw [hinUse]
          exact List.not_mem_cons_of_ne_of_not_mem (Ne.symm hname) hfree
        have hless : (freeKeys m l').length < n := by
          have hk' : k' ∈ freeKeys m l :=
            List.mem_filter.mpr ⟨List.mem_of_find?_eq_some hfirst,
              List.find?_some (p := fun q => decide (sdk.publicKey q ∉ l.inUseChannels)) hfirst⟩
          have hshrunk : freeKeys m l' =
              (freeKeys m l).filter fun q => sdk.publicKey q ≠ sdk.publicKey k' := by
            simp only [freeKeys, List.filter_filter, hinUse]
            refine List.filter_congr fun q _ => ?_
            simp [not_or]
          rw [hshrunk, ← hn]
          exact List.length_filter_lt_length_iff_exists.mpr ⟨k', hk', by simp⟩
        obtain ⟨es, l'', i, k'', hes, hi, hname'⟩ := ih _ hless rfl hfree'
          (j := j + 1) fun i hi => by rw [hothers i (by omega)]; exact hnew i (by omega)
        exact ⟨_, l'', i, k'', run_append.mpr ⟨l', hrun, hes⟩, hi, hname'⟩

theorem exists_leased (hk : k ∈ m.channelPool) :
    ∃ k', Leased m k' ∧ sdk.publicKey k' = sdk.publicKey k := by
  obtain ⟨es, l, i, k', hrun, hi, hname⟩ :=
    lease_arrives (l := Leases.idle) (j := 0) _ rfl hk (List.not_mem_nil) fun _ _ => rfl
  exact ⟨k', ⟨es, l, i, hrun, hi⟩, hname⟩

end Livora.SequenceManager
