import Livora.RegistryConservation

/-! Replay protection of delegated transfers over whole runs. The nonce is written
before the signature and the balance are checked; since a trap discards every
write, only accepted calls advance it, and they use the nonces of an address in
order. A signed message therefore moves tokens at most once. -/

namespace Livora.RegistryNonces

open CheckedWords StellarXdr TrappingState RegistryStorage RegistryContract RegistryBank
open RegistryCalls RegistryEffects TokenBank TransitionRuns

/-- The delegated transfer of an invocation, if it is one out of `x`. -/
def delegatedFrom (x : Address) (i : Invocation) : Option Delegated :=
  match i.call with
  | .transferDelegated a => if a.fromAddr = x then some a else none
  | _ => none

def signedMessage (host : Host) (a : Delegated) : Bytes :=
  delegatedPayload a.fromAddr a.toAddr a.amount a.nonce host.currentContractAddress

def messageOf (host : Host) (i : Invocation) : Option Bytes :=
  match i.call with
  | .transferDelegated a => some (signedMessage host a)
  | _ => none

variable {host : Host} {s s' : State} {i : Invocation}

theorem signedMessage_inj {a a' : Delegated} (h : signedMessage host a = signedMessage host a') :
    a.fromAddr = a'.fromAddr ∧ a.nonce = a'.nonce := by
  have hfields := scvVec_injective h
  simp only [List.cons.injEq, ScVal.address.injEq, ScVal.i128.injEq] at hfields
  exact ⟨hfields.1, hfields.2.2.2.1⟩

theorem delegatedFrom_eq_some {x : Address} {a : Delegated} :
    delegatedFrom x i = some a ↔ i.call = .transferDelegated a ∧ a.fromAddr = x := by
  unfold delegatedFrom
  cases hc : i.call <;> simp
  constructor
  · rintro ⟨rfl, rfl⟩
    exact ⟨rfl, rfl⟩
  · rintro ⟨rfl, rfl⟩
    exact ⟨rfl, rfl⟩

theorem nonce_frame (h : Accepted host s i s') {x : Address} (hx : delegatedFrom x i = none) :
    nonceOf s' x = nonceOf s x := by
  refine (accepted_effect h).frame.nonceOf_eq ?_
  cases hc : i.call with
  | transferDelegated a =>
    simp only [delegatedFrom, hc, ite_eq_right_iff, reduceCtorEq, imp_false] at hx
    simp [writes, bankKeys, Ne.symm hx]
  | init | setWorker | approve | transfer | transferFrom | mint | registerBatch
  | registerBatchWeighed | notarizeBatchReceipt | setMaterialRate | view =>
    simp [writes, bankKeys, batchKeys, rateKeys]

theorem nonce_step (h : Accepted host s i s') {x : Address} {a : Delegated}
    (hx : delegatedFrom x i = some a) :
    a.nonce.val = nonceOf s x ∧ nonceOf s' x = nonceOf s x + 1 := by
  obtain ⟨hc, rfl⟩ := delegatedFrom_eq_some.mp hx
  obtain ⟨hguards, hnext⟩ := accepted_delegated h hc
  exact ⟨hguards.current, hnext⟩

theorem nonce_mono (h : Accepted host s i s') (x : Address) : nonceOf s x ≤ nonceOf s' x := by
  cases hx : delegatedFrom x i with
  | none => exact (nonce_frame h hx).ge
  | some a =>
    have := (nonce_step h hx).2
    omega

theorem nonces_in_order {is : List Invocation} (hrun : run (step host) State.empty is = some s)
    (x : Address) :
    (history host (delegatedFrom x) State.empty is).map (fun a => a.nonce.val) =
        (List.range (history host (delegatedFrom x) State.empty is).length).map Int.ofNat ∧
      nonceOf s x = (history host (delegatedFrom x) State.empty is).length := by
  refine history_invariant (I := fun (h : List Delegated) s => h.map (fun a => a.nonce.val) =
    (List.range h.length).map Int.ofNat ∧ nonceOf s x = h.length) (fun h s i s' hI ha => ?_)
    ⟨rfl, rfl⟩ hrun
  obtain ⟨hused, hnonce⟩ := hI
  cases hx : delegatedFrom x i with
  | none =>
    rw [Option.toList_none, List.append_nil, nonce_frame ha hx]
    exact ⟨hused, hnonce⟩
  | some a =>
    obtain ⟨hcurrent, hnext⟩ := nonce_step ha hx
    simp only [Option.toList_some, List.map_append, List.map_cons, List.map_nil,
      List.length_append, List.length_singleton, List.range_succ, hused, hcurrent, hnext, hnonce]
    exact ⟨rfl, by push_cast; rfl⟩

/-- Messages already used, each with a nonce below the stored one. -/
structure MessagesSpent (host : Host) (messages : List Bytes) (s : State) : Prop where
  once : messages.Nodup
  spent : ∀ m ∈ messages, ∃ a, m = signedMessage host a ∧ a.nonce.val < nonceOf s a.fromAddr

theorem messagesSpent_step {messages : List Bytes} (hI : MessagesSpent host messages s)
    (h : Accepted host s i s') :
    MessagesSpent host (messages ++ (messageOf host i).toList) s' := by
  have hkeep : ∀ m ∈ messages, ∃ a, m = signedMessage host a ∧
      a.nonce.val < nonceOf s' a.fromAddr := by
    intro m hm
    obtain ⟨a, rfl, hlt⟩ := hI.spent m hm
    exact ⟨a, rfl, hlt.trans_le (nonce_mono h _)⟩
  cases hm : messageOf host i with
  | none => exact ⟨by simpa using hI.once, by simpa using hkeep⟩
  | some m =>
    obtain ⟨a, hc, rfl⟩ : ∃ a, i.call = .transferDelegated a ∧ signedMessage host a = m := by
      unfold messageOf at hm
      cases hc : i.call <;> simp [hc] at hm
      exact ⟨_, rfl, hm⟩
    obtain ⟨hcurrent, hnext⟩ := nonce_step h (delegatedFrom_eq_some.mpr ⟨hc, rfl⟩)
    refine ⟨List.nodup_append.mpr ⟨hI.once, List.nodup_singleton _, ?_⟩, ?_⟩
    · rintro m hm _ hlast rfl
      obtain ⟨a', ha', hlt⟩ := hI.spent m hm
      rw [List.mem_singleton.mp hlast] at ha'
      obtain ⟨hfrom, hnonce⟩ := signedMessage_inj ha'
      rw [← hfrom, ← hnonce, hcurrent] at hlt
      exact absurd hlt (lt_irrefl _)
    · intro m hm
      rcases List.mem_append.mp hm with hm | hm
      · exact hkeep m hm
      · exact ⟨a, List.mem_singleton.mp hm, by omega⟩

theorem messages_once {is : List Invocation} (hrun : run (step host) State.empty is = some s) :
    (history host (messageOf host) State.empty is).Nodup :=
  (history_invariant (I := MessagesSpent host) (fun _ _ _ _ hI ha => messagesSpent_step hI ha)
    ⟨List.nodup_nil, fun _ hm => absurd hm List.not_mem_nil⟩ hrun).once

structure SignedTransfer (host : Host) (s s' : State) (a : Delegated) : Prop where
  keyMatches : a.fromAddr.trailing = a.publicKeyRaw
  signed : host.ed25519Verify a.publicKeyRaw (signedMessage host a) a.signature = true
  moved : bank s' = (bank s).post (.move a.fromAddr a.toAddr a.amount.val)

/-- In every run the accepted delegated transfers of each address use the nonces 0, 1, 2, …
in order, each is signed over the very arguments it executes, a rejected one leaves the state
as it was, nothing else changes a nonce, and no message is used twice. -/
theorem delegated_transfers_once (host : Host) (is : List Invocation) {s : State}
    (hrun : run (step host) State.empty is = some s) :
    (∀ x, (history host (delegatedFrom x) State.empty is).map (fun a => a.nonce.val) =
      (List.range (history host (delegatedFrom x) State.empty is).length).map Int.ofNat) ∧
    (∀ i a s', i.call = .transferDelegated a → Accepted host s i s' →
      SignedTransfer host s s' a) ∧
    (∀ i a s', i.call = .transferDelegated a → ¬ DelegatedGuards (Host.env host i) s a →
      step host s i = some s' → s' = s) ∧
    (∀ i s' x, Accepted host s i s' → nonceOf s' x ≠ nonceOf s x →
      ∃ a, i.call = .transferDelegated a ∧ a.fromAddr = x) ∧
    (history host (messageOf host) State.empty is).Nodup := by
  refine ⟨fun x => (nonces_in_order hrun x).1, fun i a s' hc h => ?_, fun i a s' hc hno hstep => ?_,
    fun i s' x h hne => ?_, messages_once hrun⟩
  · have hguards := (accepted_delegated h hc).1
    refine ⟨hguards.keyMatches, hguards.signed, ?_⟩
    rw [(accepted_effect h).bank, hc]
    rfl
  · rcases step_cases hstep with ha | ⟨rfl, -⟩
    · exact absurd (accepted_delegated ha hc).1 hno
    · rfl
  · cases hx : delegatedFrom x i with
    | none => exact absurd (nonce_frame h hx) hne
    | some a => exact ⟨a, delegatedFrom_eq_some.mp hx⟩

def relayed : Delegated :=
  { caller := admin, fromAddr := alice, toAddr := bob, amount := i128 4, nonce := 0,
    publicKeyRaw := BytesN.fill 32 1, signature := BytesN.fill 64 0 }

theorem delegated_transfers_once_relayed :
    let is := [deployed, minting alice (i128 10), signedBy admin (.transferDelegated relayed)]
    let s := after sampleHost State.empty is
    (∀ x, (history sampleHost (delegatedFrom x) State.empty is).map (fun a => a.nonce.val) =
      (List.range (history sampleHost (delegatedFrom x) State.empty is).length).map Int.ofNat) ∧
    (∀ i a s', i.call = .transferDelegated a → Accepted sampleHost s i s' →
      SignedTransfer sampleHost s s' a) ∧
    (∀ i a s', i.call = .transferDelegated a →
      ¬ DelegatedGuards (Host.env sampleHost i) s a → step sampleHost s i = some s' → s' = s) ∧
    (∀ i s' x, Accepted sampleHost s i s' → nonceOf s' x ≠ nonceOf s x →
      ∃ a, i.call = .transferDelegated a ∧ a.fromAddr = x) ∧
    (history sampleHost (messageOf sampleHost) State.empty is).Nodup :=
  delegated_transfers_once sampleHost _ (run_eq_after _ _ _)

end Livora.RegistryNonces
