import Livora.StellarXdr
import Livora.TrappingState
import Livora.TypedStore

/-! Data model of the `EcoBatchRegistry` contract: its storage keys, the record
kept for a batch, and the two storage areas of the host, instance and
persistent, with the host operations the entry points call. Entries are taken
not to be archived, so a lifetime extension only checks that its key exists. -/

namespace Livora.RegistryStorage

open CheckedWords StellarXdr TrappingState TypedStore

/-- A host symbol has at most 32 characters. -/
structure Symbol where
  text : String
  short : text.length ≤ 32
deriving DecidableEq

/-- A host vector; its length is a `u32`. -/
structure Vec (α : Type) where
  toList : List α
  length_lt : toList.length < 2 ^ 32
deriving DecidableEq

def Vec.len {α : Type} (v : Vec α) : UInt32 := UInt32.ofNat v.toList.length

@[simp] theorem Vec.toNat_len {α : Type} (v : Vec α) : v.len.toNat = v.toList.length :=
  UInt32.toNat_ofNat_of_lt' v.length_lt

def Vec.single {α : Type} (a : α) : Vec α := ⟨[a], by simp⟩

/-- A vector length as an `i128`. -/
def Vec.lenI128 {α : Type} (v : Vec α) : I128 :=
  ⟨v.toList.length, by
    have := v.length_lt
    constructor
    · norm_num
    · norm_num
      omega⟩

structure BatchRecord where
  timestamp : UInt64
  totalReward : I128
  recipientsCount : UInt32
  processed : Bool
deriving DecidableEq

inductive DataKey where
  | owner
  | worker
  | totalSupply
  | balance (id : Address)
  | allowance (fromAddr spender : Address)
  | nonce (owner : Address)
  | processedBatch (batchId : BytesN 32)
  | batchDetails (batchId : BytesN 32)
  | materialRate (code : Symbol)
  | defaultRate
  | collectorShareBps
deriving DecidableEq

@[reducible] def DataKey.Value : DataKey → Type
  | .owner | .worker => Address
  | .processedBatch _ => Bool
  | .batchDetails _ => BatchRecord
  | .totalSupply | .balance _ | .allowance _ _ | .nonce _ | .materialRate _ | .defaultRate
  | .collectorShareBps => I128

inductive Event where
  | batchReceived (batchId : BytesN 32) (center : Address) (ipfsCid : String)
deriving DecidableEq

structure State where
  instanceData : Store DataKey.Value
  persistent : Store DataKey.Value
  events : List Event

def State.empty : State := ⟨Store.empty, Store.empty, []⟩

def State.putInstance (s : State) (k : DataKey) (v : k.Value) : State :=
  { s with instanceData := s.instanceData.set k v }

def State.putPersistent (s : State) (k : DataKey) (v : k.Value) : State :=
  { s with persistent := s.persistent.set k v }

section Put

variable (s : State) (k : DataKey) (v : k.Value)

@[simp] theorem State.putInstance_persistent : (s.putInstance k v).persistent = s.persistent := rfl

@[simp] theorem State.putInstance_instanceData :
    (s.putInstance k v).instanceData = s.instanceData.set k v := rfl

@[simp] theorem State.putPersistent_persistent :
    (s.putPersistent k v).persistent = s.persistent.set k v := rfl

@[simp] theorem State.putPersistent_instanceData :
    (s.putPersistent k v).instanceData = s.instanceData := rfl

end Put

inductive Trap where
  | panic (message : String)
  | overflow
  | unwrapNone
  | auth
  | missingEntry (key : DataKey)
  | invalidSignature
deriving DecidableEq

abbrev Contract (α : Type) := Trapping Trap State α

/-- What the host fixes for one deployed contract. The verifier answers whether
a signature over a message is valid; the host call traps when it is not. -/
structure Host where
  currentContractAddress : Address
  ed25519Verify : BytesN 32 → Bytes → BytesN 64 → Bool

/-- The environment of one invocation: who authorised it, and the ledger it is in. -/
structure Env extends Host where
  auths : List Address
  timestamp : UInt64
  sequence : UInt32

def requireAuth (env : Env) (a : Address) : Contract Unit :=
  trapIf (a ∉ env.auths) .auth

@[simp] def instanceGet (k : DataKey) : Contract (Option k.Value) :=
  (fun s => s.instanceData.get k) <$> get

def instanceHas (k : DataKey) : Contract Bool := (fun s => s.instanceData.has k) <$> get

def instanceSet (k : DataKey) (v : k.Value) : Contract Unit :=
  modify fun s => s.putInstance k v

@[simp] def persistentGet (k : DataKey) : Contract (Option k.Value) :=
  (fun s => s.persistent.get k) <$> get

def persistentHas (k : DataKey) : Contract Bool := (fun s => s.persistent.has k) <$> get

def persistentSet (k : DataKey) (v : k.Value) : Contract Unit :=
  modify fun s => s.putPersistent k v

/-- The host traps when the entry to extend does not exist. -/
def persistentExtendTtl (k : DataKey) : Contract Unit := do
  trapIf ((← persistentHas k) = false) (.missingEntry k)

/-- The instance entry exists as long as the contract does. -/
def instanceExtendTtl : Contract Unit := pure ()

def publish (e : Event) : Contract Unit := modify fun s => { s with events := s.events ++ [e] }

/-- Checked arithmetic: a result outside the range traps. -/
def checked {α : Type} (o : Option α) : Contract α := orTrap .overflow o

def unwrap {α : Type} (o : Option α) : Contract α := orTrap .unwrapNone o

variable {s s' : State} {u : Unit}

@[simp] theorem returns_requireAuth {env : Env} {a : Address} :
    Returns (requireAuth env a) s u s' ↔ a ∈ env.auths ∧ s = s' := by
  simp [requireAuth]

@[simp] theorem returns_instanceHas {k : DataKey} {b : Bool} :
    Returns (instanceHas k) s b s' ↔ b = s.instanceData.has k ∧ s = s' := by
  simp [instanceHas, and_comm, eq_comm]

@[simp] theorem returns_instanceSet {k : DataKey} {v : k.Value} :
    Returns (instanceSet k v) s u s' ↔ s' = s.putInstance k v := by
  simp [instanceSet]

@[simp] theorem returns_persistentHas {k : DataKey} {b : Bool} :
    Returns (persistentHas k) s b s' ↔ b = s.persistent.has k ∧ s = s' := by
  simp [persistentHas, and_comm, eq_comm]

@[simp] theorem returns_persistentSet {k : DataKey} {v : k.Value} :
    Returns (persistentSet k v) s u s' ↔ s' = s.putPersistent k v := by
  simp [persistentSet]

@[simp] theorem returns_persistentExtendTtl {k : DataKey} :
    Returns (persistentExtendTtl k) s u s' ↔ s.persistent.has k = true ∧ s = s' := by
  simp [persistentExtendTtl]

@[simp] theorem returns_instanceExtendTtl : Returns instanceExtendTtl s u s' ↔ s = s' := by
  simp [instanceExtendTtl]

@[simp] theorem returns_publish {e : Event} :
    Returns (publish e) s u s' ↔ s' = { s with events := s.events ++ [e] } := by
  simp [publish]

@[simp] theorem returns_checked {α : Type} {o : Option α} {a : α} :
    Returns (checked o) s a s' ↔ o = some a ∧ s = s' := by
  simp [checked]

@[simp] theorem returns_unwrap {α : Type} {o : Option α} {a : α} :
    Returns (unwrap o) s a s' ↔ o = some a ∧ s = s' := by
  simp [unwrap]

end Livora.RegistryStorage
