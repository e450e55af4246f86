import Livora.RegistryConservation

/-! Who may take tokens from whom. A fall of a balance is justified by the holder's
own authorisation, by an allowance that pays for it, or by the holder's signature;
the exact calls that take without any of these are the negative mints and the
delegated transfers out of a contract address. The allowance is then followed over
whole runs as a grant: its budget is respected, its expiration is not looked at. -/

namespace Livora.RegistryConsent

open CheckedWords StellarXdr TrappingState RegistryStorage RegistryContract RegistryBank
open RegistryCalls RegistryEffects RegistryConservation TokenBank TransitionRuns

/-- What justifies a fall of the balance of `x` by `d` in an accepted call. -/
inductive Consent (host : Host) (s : State) (i : Invocation) (s' : State) (x : Address) (d : ℤ) :
    Prop where
  | own (toAddr : Address) (amount : I128) (hcall : i.call = .transfer x toAddr amount)
      (authorised : x ∈ i.auths)
  | allowance (spender toAddr : Address) (amount : I128)
      (hcall : i.call = .transferFrom spender x toAddr amount) (authorised : spender ∈ i.auths)
      (allowed : d ≤ allowanceOf s x spender)
      (spent : allowanceOf s' x spender = allowanceOf s x spender - d)
  | signature (a : Delegated) (key : BytesN 32) (hcall : i.call = .transferDelegated a)
      (hkey : x = .account key) (hamount : a.amount.val = d) (hnonce : a.nonce.val = nonceOf s x)
      (valid : host.ed25519Verify key
        (delegatedPayload x a.toAddr a.amount a.nonce host.currentContractAddress)
        a.signature = true)

/-- Nobody receives a negative net amount, and delegated transfers between two addresses
leave an account. -/
def NoForcedDebit (i : Invocation) : Prop :=
  match i.call with
  | .mint _ _ amount => 0 ≤ amount.val
  | .registerBatch _ _ _ recipients amounts =>
    ∀ a, 0 ≤ mintedTo a (mints (recipients.toList.zip amounts.toList))
  | .transferDelegated a => a.fromAddr = a.toAddr ∨ ∃ key, a.fromAddr = .account key
  | _ => True

def DebitsConsented (host : Host) (s : State) (i : Invocation) (s' : State) : Prop :=
  ∀ x d, 0 < d → balanceOf s' x = balanceOf s x - d → Consent host s i s' x d

variable {host : Host} {s s' : State} {i : Invocation}

theorem accepted_balance (h : Accepted host s i s') (x : Address) :
    balanceOf s' x = ((bank s).postAll (postings s i.call)).balance x := by
  rw [← (accepted_effect h).bank, bank_balance]

theorem accepted_balance_of_mints (h : Accepted host s i s') (hm : OnlyMints (postings s i.call))
    (x : Address) : balanceOf s' x = balanceOf s x + mintedTo x (postings s i.call) := by
  rw [accepted_balance h, Bank.balance_postAll_of_mints hm, bank_balance]

theorem loss_of_move (h : Accepted host s i s') {x y z : Address} {n d : ℤ}
    (hps : postings s i.call = [.move x y n]) (hn : 0 < n) (hd : 0 < d)
    (hfall : balanceOf s' z = balanceOf s z - d) : z = x ∧ d = n := by
  rw [accepted_balance h, hps] at hfall
  simp only [Bank.postAll_cons, Bank.postAll_nil, Bank.balance_post_move, bank_balance] at hfall
  by_cases hx : x = z ∧ x ≠ y
  · obtain ⟨rfl, hxy⟩ := hx
    rw [if_pos ⟨rfl, hxy⟩, if_neg (Ne.symm hxy)] at hfall
    exact ⟨rfl, by omega⟩
  · rw [if_neg hx] at hfall
    split at hfall <;> omega

theorem sender_loses (h : Accepted host s i s') {x y : Address} {n : ℤ}
    (hps : postings s i.call = [.move x y n]) (hxy : x ≠ y) :
    balanceOf s' x = balanceOf s x - n := by
  rw [accepted_balance h, hps]
  simp [Bank.balance_post_move, hxy, Ne.symm hxy]

theorem noLoss_of_nets (h : Accepted host s i s') (hm : OnlyMints (postings s i.call))
    (hnet : ∀ a, 0 ≤ mintedTo a (postings s i.call)) : DebitsConsented host s i s' := by
  intro x d hd hfall
  have := accepted_balance_of_mints h hm x
  have := hnet x
  omega

theorem nets_of_consented (h : Accepted host s i s') (hm : OnlyMints (postings s i.call))
    (hc : DebitsConsented host s i s') (a : Address) : 0 ≤ mintedTo a (postings s i.call) := by
  by_contra hneg
  have hbal := accepted_balance_of_mints h hm a
  cases hc a (-mintedTo a (postings s i.call)) (by omega) (by omega) with
  | own toAddr amount hcall =>
    rw [hcall] at hm
    obtain ⟨_, _, hmove⟩ := hm _ (List.mem_singleton_self _)
    cases hmove
  | allowance spender toAddr amount hcall =>
    rw [hcall] at hm
    obtain ⟨_, _, hmove⟩ := hm _ (List.mem_singleton_self _)
    cases hmove
  | signature args key hcall =>
    rw [hcall] at hm
    obtain ⟨_, _, hmove⟩ := hm _ (List.mem_singleton_self _)
    cases hmove

theorem delegated_consented_iff {a : Delegated} (hc : i.call = .transferDelegated a)
    (h : Accepted host s i s') :
    DebitsConsented host s i s' ↔ a.fromAddr = a.toAddr ∨ ∃ key, a.fromAddr = .account key := by
  have hguards := (accepted_delegated h hc).1
  have hps : postings s i.call = [.move a.fromAddr a.toAddr a.amount.val] := by rw [hc]; rfl
  constructor
  · intro hcons
    by_cases hself : a.fromAddr = a.toAddr
    · exact Or.inl hself
    · have hloss := sender_loses h hps hself
      cases hcons _ _ hguards.movable.positive hloss with
      | own _ _ hcall => rw [hc] at hcall; cases hcall
      | allowance _ _ _ hcall => rw [hc] at hcall; cases hcall
      | signature _ key _ hkey => exact Or.inr ⟨key, hkey⟩
  · rintro hcond x d hd hfall
    obtain ⟨rfl, rfl⟩ := loss_of_move h hps hguards.movable.positive hd hfall
    obtain hself | ⟨key, hkey⟩ := hcond
    · rw [accepted_balance h, hps] at hfall
      simp [Bank.balance_post_move, hself] at hfall
      omega
    · refine .signature a key hc hkey rfl hguards.current ?_
      have hmatch := hguards.keyMatches
      rw [hkey] at hmatch
      have hvalid := hguards.signed
      rw [← hmatch] at hvalid
      exact hvalid

/-- In an accepted call every fall of a balance is consented to by its holder exactly when
the call is no negative mint and no delegated transfer out of a contract address. -/
theorem debits_consented_iff (h : Accepted host s i s') :
    DebitsConsented host s i s' ↔ NoForcedDebit i := by
  unfold NoForcedDebit
  cases hc : i.call with
  | transfer fromAddr toAddr amount =>
    obtain ⟨hauth, hguards⟩ := (transfer_accepted_iff hc).mp ⟨s', h⟩
    refine iff_of_true (fun x d hd hfall => ?_) trivial
    obtain ⟨rfl, rfl⟩ := loss_of_move h (by rw [hc]; rfl) hguards.positive hd hfall
    exact .own toAddr amount hc hauth
  | transferFrom spender fromAddr toAddr amount =>
    obtain ⟨hguards, hspent⟩ := accepted_transferFrom h hc
    refine iff_of_true (fun x d hd hfall => ?_) trivial
    obtain ⟨rfl, rfl⟩ := loss_of_move h (by rw [hc]; rfl) hguards.movable.positive hd hfall
    exact .allowance spender toAddr amount hc hguards.authorised hguards.allowed hspent
  | transferDelegated a => exact delegated_consented_iff hc h
  | mint caller toAddr amount =>
    have hm : OnlyMints (postings s i.call) := by rw [hc]; exact onlyMints_mints [(toAddr, amount)]
    constructor
    · intro hcons
      have := nets_of_consented h hm hcons toAddr
      simpa [hc, postings, mintedTo] using this
    · refine fun hpos => noLoss_of_nets h hm fun a => ?_
      rw [hc]
      simp only [postings, mintedTo]
      split <;> omega
  | registerBatch caller batchId ipfsCid recipients amounts =>
    have hps : postings s i.call = mints (recipients.toList.zip amounts.toList) := by rw [hc]; rfl
    have hm : OnlyMints (postings s i.call) := hps ▸ onlyMints_mints _
    change DebitsConsented host s i s' ↔
      ∀ a, 0 ≤ mintedTo a (mints (recipients.toList.zip amounts.toList))
    rw [← hps]
    exact ⟨nets_of_consented h hm, noLoss_of_nets h hm⟩
  | registerBatchWeighed w =>
    have hm : OnlyMints (postings s i.call) := by rw [hc]; exact onlyMints_weighed s w
    exact iff_of_true (noLoss_of_nets h hm fun a => by rw [hc]; exact weighed_nonneg s w a) trivial
  | init | setWorker | approve | notarizeBatchReceipt | setMaterialRate | view =>
    have hps : postings s i.call = [] := by rw [hc]; rfl
    have hm : OnlyMints (postings s i.call) := by rw [hps]; exact fun p hp => absurd hp (by simp)
    exact iff_of_true (noLoss_of_nets h hm fun a => by rw [hps]; exact le_rfl) trivial

def funded : State := after sampleHost State.empty [deployed, minting alice (i128 10)]

theorem debits_consented_transfer :
    ∃ s', Accepted sampleHost funded (signedBy alice (.transfer alice bob (i128 4))) s' ∧
      (DebitsConsented sampleHost funded (signedBy alice (.transfer alice bob (i128 4))) s' ↔
        NoForcedDebit (signedBy alice (.transfer alice bob (i128 4)))) := by
  obtain ⟨s', h⟩ := accepts_iff.mp (show accepts sampleHost funded
    (signedBy alice (.transfer alice bob (i128 4))) = true by decide +kernel)
  exact ⟨s', h, debits_consented_iff h⟩

/-- The worker takes five tokens from a holder who authorised nothing. -/
theorem negativeMint_not_consented :
    ∃ s', Accepted sampleHost funded (minting alice (i128 (-5))) s' ∧
      ¬ DebitsConsented sampleHost funded (minting alice (i128 (-5))) s' := by
  obtain ⟨s', h⟩ := accepts_iff.mp (show accepts sampleHost funded
    (minting alice (i128 (-5))) = true by decide +kernel)
  refine ⟨s', h, fun hcons => ?_⟩
  have hm : OnlyMints (postings funded (minting alice (i128 (-5))).call) :=
    onlyMints_mints [(alice, i128 (-5))]
  exact absurd (nets_of_consented h hm hcons alice) (by decide)

/-! ### The key of an address -/

theorem verify_iff (addr : Address) (key : BytesN 32) (s : State) :
    (∃ s', Returns (verifyAddressMatchesPubkey addr key) s () s') ↔
      addr = .account key ∨ addr = .contract key := by
  simp only [verifyAddressMatchesPubkey_returns]
  cases addr <;> simp [Address.trailing]

/-- A delegated transfer takes tokens from accounts only. -/
def OnlyAccountsDebited (s s' : State) : Prop :=
  ∀ x, balanceOf s' x < balanceOf s x → ∃ key, x = .account key

theorem delegated_debits_iff {a : Delegated} (hc : i.call = .transferDelegated a)
    (h : Accepted host s i s') :
    OnlyAccountsDebited s s' ↔
      a.fromAddr = a.toAddr ∨ a.fromAddr ≠ .contract a.publicKeyRaw := by
  have hguards := (accepted_delegated h hc).1
  have hps : postings s i.call = [.move a.fromAddr a.toAddr a.amount.val] := by rw [hc]; rfl
  constructor
  · intro honly
    by_cases hself : a.fromAddr = a.toAddr
    · exact Or.inl hself
    · have hloss := sender_loses h hps hself
      have hpos := hguards.movable.positive
      obtain ⟨key, hkey⟩ := honly a.fromAddr (by omega)
      exact Or.inr (by rw [hkey]; simp)
  · rintro hcond x hfall
    have hloss : balanceOf s' x = balanceOf s x - (balanceOf s x - balanceOf s' x) := by omega
    obtain ⟨rfl, -⟩ := loss_of_move h hps hguards.movable.positive (by omega) hloss
    obtain hself | hcontract := hcond
    · rw [accepted_balance h, hps] at hfall
      simp [Bank.balance_post_move, hself] at hfall
      have hpos := hguards.movable.positive
      omega
    · have hmatch := hguards.keyMatches
      cases hfrom : a.fromAddr with
      | account key => exact ⟨key, rfl⟩
      | contract id =>
        rw [hfrom] at hmatch hcontract
        exact absurd (congrArg Address.contract hmatch) hcontract

/-- The check accepts a pair just when it is an account and its key unless the address is the
contract of these 32 bytes; and a delegated transfer debits only accounts unless it leaves such a
contract. -/
theorem key_check_iff (host : Host) :
    (∀ addr key s, ((∃ s', Returns (verifyAddressMatchesPubkey addr key) s () s') ↔
      addr = .account key) ↔ addr ≠ .contract key) ∧
    ∀ s s' i a, i.call = .transferDelegated a → Accepted host s i s' →
      (OnlyAccountsDebited s s' ↔
        a.fromAddr = a.toAddr ∨ a.fromAddr ≠ .contract a.publicKeyRaw) := by
  refine ⟨fun addr key s => ?_, fun s s' i a hc h => delegated_debits_iff hc h⟩
  rw [verify_iff]
  cases addr <;> simp

/-- A contract whose id is somebody's key, with tokens of its own. -/
def pool : Address := .contract (BytesN.fill 32 1)

def draining : Invocation :=
  signedBy admin (.transferDelegated
    { caller := admin, fromAddr := pool, toAddr := bob, amount := i128 4, nonce := 0,
      publicKeyRaw := BytesN.fill 32 1, signature := BytesN.fill 64 0 })

theorem key_check_sample :
    let s := after sampleHost State.empty [deployed, minting pool (i128 10)]
    (((∃ s', Returns (verifyAddressMatchesPubkey alice (BytesN.fill 32 1)) s () s') ↔
      alice = .account (BytesN.fill 32 1)) ↔ alice ≠ .contract (BytesN.fill 32 1)) ∧
    ∃ s', Accepted sampleHost s draining s' ∧ (OnlyAccountsDebited s s' ↔
      pool = bob ∨ pool ≠ .contract (BytesN.fill 32 1)) := by
  intro s
  obtain ⟨s', h⟩ := accepts_iff.mp (show accepts sampleHost s draining = true by decide +kernel)
  exact ⟨(key_check_iff sampleHost).1 alice (BytesN.fill 32 1) s, s', h,
    (key_check_iff sampleHost).2 s s' draining _ rfl h⟩

/-- The contract address passes the check, and a delegated transfer takes its tokens. -/
theorem pool_drained :
    let s := after sampleHost State.empty [deployed, minting pool (i128 10)]
    (∃ s', Returns (verifyAddressMatchesPubkey pool (BytesN.fill 32 1)) s () s') ∧
      pool ≠ .account (BytesN.fill 32 1) ∧
      ∃ s', Accepted sampleHost s draining s' ∧ ¬ OnlyAccountsDebited s s' := by
  intro s
  refine ⟨(verify_iff _ _ _).mpr (Or.inr rfl), by decide, ?_⟩
  obtain ⟨s', h⟩ := accepts_iff.mp (show accepts sampleHost s draining = true by decide +kernel)
  refine ⟨s', h, fun honly => ?_⟩
  have hcond := (delegated_debits_iff rfl h).mp honly
  exact absurd hcond (by decide)

/-! ### Allowances over a run -/

inductive AllowanceEvent where
  | approved (amount : ℤ) (expiration : UInt32)
  | moved (amount : ℤ) (sequence : UInt32)
deriving DecidableEq

/-- What an accepted invocation does to the allowance of one pair. -/
def allowanceEvent (owner spender : Address) (i : Invocation) : Option AllowanceEvent :=
  match i.call with
  | .approve fromAddr sp amount expiration =>
    if fromAddr = owner ∧ sp = spender then some (.approved amount.val expiration) else none
  | .transferFrom sp fromAddr _ amount =>
    if fromAddr = owner ∧ sp = spender then some (.moved amount.val i.sequence) else none
  | _ => none

structure Grant where
  approved : ℤ
  expiration : UInt32
  moved : ℤ
deriving DecidableEq

def Grant.next : Option Grant → AllowanceEvent → Option Grant
  | _, .approved amount expiration => some ⟨amount, expiration, 0⟩
  | g, .moved amount _ => g.map fun g => { g with moved := g.moved + amount }

def grantAfter (es : List AllowanceEvent) : Option Grant := es.foldl Grant.next none

def remaining : Option Grant → ℤ
  | none => 0
  | some g => g.approved - g.moved

/-- Every movement stays within the budget and the lifetime of the latest approval. -/
def WithinGrant (es : List AllowanceEvent) : Prop :=
  ∀ pre amount sequence post, es = pre ++ .moved amount sequence :: post →
    ∃ g, grantAfter pre = some g ∧ g.moved + amount ≤ g.approved ∧ sequence ≤ g.expiration

theorem grantAfter_append (es : List AllowanceEvent) (o : Option AllowanceEvent) :
    grantAfter (es ++ o.toList) = match o with
      | none => grantAfter es
      | some e => Grant.next (grantAfter es) e := by
  cases o <;> simp [grantAfter]

theorem allowanceEvent_approved {owner spender : Address} {n : ℤ} {expiration : UInt32}
    (h : allowanceEvent owner spender i = some (.approved n expiration)) :
    ∃ amount, i.call = .approve owner spender amount expiration ∧ amount.val = n := by
  unfold allowanceEvent at h
  split at h <;> simp at h
  obtain ⟨⟨rfl, rfl⟩, rfl, rfl⟩ := h
  exact ⟨_, by assumption, rfl⟩

theorem allowanceEvent_moved {owner spender : Address} {n : ℤ} {sequence : UInt32}
    (h : allowanceEvent owner spender i = some (.moved n sequence)) :
    ∃ toAddr amount, i.call = .transferFrom spender owner toAddr amount ∧ amount.val = n ∧
      sequence = i.sequence := by
  unfold allowanceEvent at h
  split at h <;> simp at h
  obtain ⟨⟨rfl, rfl⟩, rfl, rfl⟩ := h
  exact ⟨_, _, by assumption, rfl, rfl⟩

theorem allowance_frame (h : Accepted host s i s') {owner spender : Address}
    (hnone : allowanceEvent owner spender i = none) :
    allowanceOf s' owner spender = allowanceOf s owner spender := by
  refine (accepted_effect h).frame.allowanceOf_eq ?_
  unfold allowanceEvent at hnone
  cases hc : i.call with
  | approve | transferFrom =>
    simp only [hc, ite_eq_right_iff, reduceCtorEq, imp_false] at hnone
    simp only [writes, bankKeys, Set.mem_union, Set.mem_singleton_iff, Set.mem_ofPred_eq,
      DataKey.allowance.injEq, reduceCtorEq, exists_false, or_false]
    exact fun hk => hnone ⟨hk.1.symm, hk.2.symm⟩
  | init | setWorker | transfer | transferDelegated | mint | registerBatch
  | registerBatchWeighed | notarizeBatchReceipt | setMaterialRate | view =>
    simp [writes, bankKeys, batchKeys, rateKeys]

theorem allowance_eq_remaining {is : List Invocation} {owner spender : Address}
    (h : run (step host) State.empty is = some s) :
    allowanceOf s owner spender =
      remaining (grantAfter (history host (allowanceEvent owner spender) State.empty is)) := by
  refine history_invariant (I := fun es s =>
    allowanceOf s owner spender = remaining (grantAfter es))
    (fun es s i s' hI ha => ?_) rfl h
  rw [grantAfter_append]
  cases hev : allowanceEvent owner spender i with
  | none => rw [allowance_frame ha hev, hI]
  | some e =>
    cases e with
    | approved n expiration =>
      obtain ⟨amount, hc, rfl⟩ := allowanceEvent_approved hev
      simp [accepted_approve ha hc, Grant.next, remaining]
    | moved n sequence =>
      obtain ⟨toAddr, amount, hc, rfl, -⟩ := allowanceEvent_moved hev
      obtain ⟨hguards, hspent⟩ := accepted_transferFrom ha hc
      rw [hspent, hI]
      cases hg : grantAfter es with
      | none =>
        have hallowed := hguards.allowed
        rw [hI, hg] at hallowed
        exact absurd (hguards.movable.positive.trans_le hallowed) (lt_irrefl _)
      | some g => simp [Grant.next, remaining, sub_sub]

theorem move_within_budget {is : List Invocation} {owner spender toAddr : Address}
    {amount : I128} (hrun : run (step host) State.empty is = some s)
    (hguards : TransferFromGuards (Host.env host i) s spender owner toAddr amount) :
    ∃ g, grantAfter (history host (allowanceEvent owner spender) State.empty is) = some g ∧
      g.moved + amount.val ≤ g.approved := by
  have hallowed := hguards.allowed
  rw [allowance_eq_remaining hrun] at hallowed
  cases hg : grantAfter (history host (allowanceEvent owner spender) State.empty is) with
  | none =>
    rw [hg] at hallowed
    exact absurd (hguards.movable.positive.trans_le hallowed) (lt_irrefl _)
  | some g =>
    rw [hg] at hallowed
    simp only [remaining] at hallowed
    exact ⟨g, rfl, by omega⟩

/-- A `transfer_from` of the pair submitted after the expiration of the latest approval
fails one of the guards that do not look at the expiration. -/
def LateMovesRefused (host : Host) (owner spender : Address) (is : List Invocation) : Prop :=
  ∀ p i q s toAddr amount g, is = p ++ i :: q → run (step host) State.empty p = some s →
    i.call = .transferFrom spender owner toAddr amount →
    grantAfter (history host (allowanceEvent owner spender) State.empty p) = some g →
    g.expiration < i.sequence →
    ¬ TransferFromGuards (Host.env host i) s spender owner toAddr amount

/-- Along a run the movements of a pair stay within its grants exactly when every late
`transfer_from` is refused for another reason. -/
theorem withinGrant_iff (host : Host) (owner spender : Address) (is : List Invocation) :
    WithinGrant (history host (allowanceEvent owner spender) State.empty is) ↔
      LateMovesRefused host owner spender is := by
  constructor
  · rintro hwithin p i q s toAddr amount g rfl hrun hc hg hlate hguards
    obtain ⟨s', ha⟩ := (transferFrom_accepted_iff hc).mpr hguards
    have hevent : observe host (allowanceEvent owner spender) s i =
        some (.moved amount.val i.sequence) := by
      rw [observe_accepted ha]
      simp [allowanceEvent, hc]
    have hsplit : history host (allowanceEvent owner spender) State.empty (p ++ i :: q) =
        history host (allowanceEvent owner spender) State.empty p ++
          .moved amount.val i.sequence ::
            history host (allowanceEvent owner spender) s' q := by
      rw [history, trace_append hrun, trace_cons (step_of_accepted ha), hevent]
      rfl
    obtain ⟨g', hg', -, hseq⟩ := hwithin _ _ _ _ hsplit
    obtain rfl : g = g' := Option.some.inj (hg.symm.trans hg')
    exact absurd hseq (UInt32.not_le.mpr hlate)
  · intro hrefused pre n sequence post hsplit
    obtain ⟨p, i, q, s, rfl, hrun, hpre, hobs⟩ := trace_split hsplit
    obtain ⟨⟨s', ha⟩, hev⟩ := observe_eq_some.mp hobs
    obtain ⟨toAddr, amount, hc, rfl, rfl⟩ := allowanceEvent_moved hev
    have hguards := (transferFrom_accepted_iff hc).mp ⟨s', ha⟩
    obtain ⟨g, hg, hbudget⟩ := move_within_budget hrun hguards
    refine ⟨g, hpre ▸ hg, hbudget, ?_⟩
    by_contra hlate
    exact hrefused p i q s toAddr amount g rfl hrun hc hg (UInt32.not_le.mp hlate) hguards

def lateRun : List Invocation :=
  [deployed, minting alice (i128 10),
   { signedBy alice (.approve alice bob (i128 5) 10) with sequence := 5 },
   { signedBy bob (.transferFrom bob alice bob (i128 3)) with sequence := 20 }]

theorem lateRun_beyond_grant :
    ¬ WithinGrant (history sampleHost (allowanceEvent alice bob) State.empty lateRun) := by
  have hevents : history sampleHost (allowanceEvent alice bob) State.empty lateRun =
      [.approved 5 10, .moved 3 20] := by decide +kernel
  intro hwithin
  obtain ⟨g, hg, -, hseq⟩ := hwithin [.approved 5 10] 3 20 [] hevents
  obtain rfl : (⟨5, 10, 0⟩ : Grant) = g := Option.some.inj hg
  exact absurd hseq (by decide)

end Livora.RegistryConsent
