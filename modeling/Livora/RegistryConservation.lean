import Livora.RegistryEffects

/-! Conservation on the contract's ledger. Mints keep the sum of balances equal
to the supply; so does a transfer between two addresses, but one from an address
to itself adds its amount to the balances alone. Hence the exact runs on which
the two totals agree, and the runs on which balances stay between zero and the
supply. -/

namespace Livora.RegistryConservation

open CheckedWords StellarXdr TrappingState RegistryStorage RegistryContract RegistryBank
open RegistryCalls RegistryEffects TokenBank TransitionRuns

/-- The amount a transfer call moves from an address to itself. -/
def selfMoved : Call → ℤ
  | .transfer fromAddr toAddr amount => if fromAddr = toAddr then amount.val else 0
  | .transferFrom _ fromAddr toAddr amount => if fromAddr = toAddr then amount.val else 0
  | .transferDelegated a => if a.fromAddr = a.toAddr then a.amount.val else 0
  | _ => 0

/-- A transfer from an address to itself that passes the guards of its entry point. -/
def SelfTransfer (host : Host) (s : State) (i : Invocation) : Prop :=
  match i.call with
  | .transfer fromAddr toAddr amount =>
    fromAddr = toAddr ∧ fromAddr ∈ i.auths ∧ TransferGuards s fromAddr toAddr amount
  | .transferFrom spender fromAddr toAddr amount =>
    fromAddr = toAddr ∧ TransferFromGuards (Host.env host i) s spender fromAddr toAddr amount
  | .transferDelegated a => a.fromAddr = a.toAddr ∧ DelegatedGuards (Host.env host i) s a
  | _ => False

variable {host : Host} {s s' : State} {i : Invocation}

theorem onlyMints_positiveMint (target : Address) (n : ℤ) : OnlyMints (positiveMint target n) := by
  by_cases h : 0 < n
  · rw [positiveMint_of_pos h]
    rintro p hp
    exact ⟨target, n, List.mem_singleton.mp hp⟩
  · rw [positiveMint_of_not_pos h]
    rintro p hp
    exact absurd hp List.not_mem_nil

theorem onlyMints_weighed (s : State) (a : Weighed) :
    OnlyMints (postings s (.registerBatchWeighed a)) := by
  intro p hp
  rcases List.mem_append.mp hp with h | h
  · obtain ⟨hh, -, h⟩ := List.mem_flatMap.mp h
    exact onlyMints_positiveMint _ _ p h
  · exact onlyMints_positiveMint _ _ p h

private theorem drift_move_eq (b : Bank Address) (x y : Address) (n : ℤ) :
    (b.post (.move x y n)).drift = b.drift + if x = y then n else 0 := by
  by_cases h : x = y
  · subst h
    rw [b.drift_move_self, if_pos rfl]
  · rw [b.drift_move h, if_neg h, add_zero]

theorem drift_postings (s : State) (call : Call) (b : Bank Address) :
    (b.postAll (postings s call)).drift = b.drift + selfMoved call := by
  cases call with
  | transfer | transferFrom | transferDelegated => exact drift_move_eq b _ _ _
  | mint => exact (b.drift_mint _ _).trans (add_zero _).symm
  | registerBatch =>
    exact (Bank.drift_postAll_of_mints (onlyMints_mints _) b).trans (add_zero _).symm
  | registerBatchWeighed a =>
    exact (Bank.drift_postAll_of_mints (onlyMints_weighed s a) b).trans (add_zero _).symm
  | init | setWorker | approve | notarizeBatchReceipt | setMaterialRate | view =>
    exact (add_zero _).symm

theorem accepted_drift (h : Accepted host s i s') :
    (bank s').drift = (bank s).drift + selfMoved i.call := by
  rw [(accepted_effect h).bank, drift_postings]

theorem accepted_selfMoved (h : Accepted host s i s') :
    (SelfTransfer host s i ∧ 0 < selfMoved i.call) ∨
      (¬ SelfTransfer host s i ∧ selfMoved i.call = 0) := by
  unfold SelfTransfer
  cases hc : i.call with
  | transfer fromAddr toAddr amount =>
    obtain ⟨hauth, hguards⟩ := (transfer_accepted_iff hc).mp ⟨s', h⟩
    by_cases hself : fromAddr = toAddr
    · exact Or.inl ⟨⟨hself, hauth, hguards⟩, by simpa [selfMoved, hself] using hguards.positive⟩
    · exact Or.inr ⟨fun hs => hself hs.1, by simp [selfMoved, hself]⟩
  | transferFrom spender fromAddr toAddr amount =>
    have hguards := (transferFrom_accepted_iff hc).mp ⟨s', h⟩
    by_cases hself : fromAddr = toAddr
    · exact Or.inl ⟨⟨hself, hguards⟩,
        by simpa [selfMoved, hself] using hguards.movable.positive⟩
    · exact Or.inr ⟨fun hs => hself hs.1, by simp [selfMoved, hself]⟩
  | transferDelegated a =>
    have hguards := (delegated_accepted_iff hc).mp ⟨s', h⟩
    by_cases hself : a.fromAddr = a.toAddr
    · exact Or.inl ⟨⟨hself, hguards⟩,
        by simpa [selfMoved, hself] using hguards.movable.positive⟩
    · exact Or.inr ⟨fun hs => hself hs.1, by simp [selfMoved, hself]⟩
  | init | setWorker | approve | mint | registerBatch | registerBatchWeighed
  | notarizeBatchReceipt | setMaterialRate | view =>
    exact Or.inr ⟨id, rfl⟩

theorem selfTransfer_accepted (h : SelfTransfer host s i) : ∃ s', Accepted host s i s' := by
  unfold SelfTransfer at h
  split at h
  · rename_i hc
    exact (transfer_accepted_iff hc).mpr h.2
  · rename_i hc
    exact (transferFrom_accepted_iff hc).mpr h.2
  · rename_i hc
    exact (delegated_accepted_iff hc).mpr h.2
  · exact h.elim

theorem drift_empty : (bank State.empty).drift = 0 := by
  have hzero : (bank State.empty).balance = 0 := by
    ext a
    rfl
  simp only [Bank.drift, Bank.total, hzero, map_zero, bank_supply]
  rfl

theorem drift_run {is : List Invocation} (h : run (step host) State.empty is = some s) :
    (bank s).drift =
      (history host (fun i => some (selfMoved i.call)) State.empty is).sum := by
  refine history_invariant (I := fun h s => (bank s).drift = h.sum) (fun h s i s' hI ha => ?_)
    drift_empty h
  rw [accepted_drift ha, hI]
  simp

theorem drift_eq_zero_of_along {is : List Invocation} (hs : (bank s).drift = 0)
    (hC : Along (step host) (fun s i => ¬ SelfTransfer host s i) s is)
    (h : run (step host) s is = some s') : (bank s').drift = 0 := by
  refine run_invariant (I := fun s => (bank s).drift = 0) (fun s i s' hI hno hstep => ?_) hs hC h
  rcases step_cases hstep with ha | ⟨rfl, -⟩
  · rcases accepted_selfMoved ha with ⟨hself, -⟩ | ⟨-, hzero⟩
    · exact absurd hself hno
    · rw [accepted_drift ha, hI, hzero, add_zero]
  · exact hI

/-- The balances add up to the supply in every state of a run exactly when no step of it
is a self transfer that passes its guards. -/
theorem total_eq_supply_iff (host : Host) (is : List Invocation) :
    (∀ p s, p <+: is → run (step host) State.empty p = some s → (bank s).total = supply s) ↔
      Along (step host) (fun s i => ¬ SelfTransfer host s i) State.empty is := by
  constructor
  · intro hall
    refine along_iff.mpr fun p i q s hsplit hrun hself => ?_
    obtain ⟨s', ha⟩ := selfTransfer_accepted hself
    have hrun' : run (step host) State.empty (p ++ [i]) = some s' :=
      run_append.mpr ⟨s, hrun, run_cons.mpr ⟨s', step_of_accepted ha, rfl⟩⟩
    have hbefore := hall p s ⟨i :: q, hsplit.symm⟩ hrun
    have hafter := hall (p ++ [i]) s' ⟨q, by rw [hsplit]; simp⟩ hrun'
    have hdrift := accepted_drift ha
    rcases accepted_selfMoved ha with ⟨-, hpos⟩ | ⟨hno, -⟩
    · simp only [Bank.drift, bank_supply, hbefore, hafter, sub_self] at hdrift
      omega
    · exact hno hself
  · rintro hC p s ⟨q, rfl⟩ hrun
    have hdrift := drift_eq_zero_of_along drift_empty (along_append hC).1 hrun
    exact sub_eq_zero.mp hdrift

def inflatingRun : List Invocation :=
  [deployed, minting alice (i128 10), signedBy alice (.transfer alice alice (i128 10))]

theorem inflatingRun_total : ∃ s, run (step sampleHost) State.empty inflatingRun = some s ∧
    (bank s).total ≠ supply s := by
  have h := run_eq_after sampleHost State.empty inflatingRun
  have hmoved : (history sampleHost (fun i => some (selfMoved i.call)) State.empty
      inflatingRun).sum = 10 := by decide +kernel
  refine ⟨_, h, fun heq => ?_⟩
  have hdrift := drift_run h
  simp only [Bank.drift, heq, bank_supply, sub_self, hmoved] at hdrift
  exact absurd hdrift (by decide)

/-! ### Balances between zero and the supply -/

/-- A `mint` or `register_batch` that passes its guards takes nothing away from anyone. -/
def NoDebt (host : Host) (s : State) (i : Invocation) : Prop :=
  match i.call with
  | .mint caller _ amount => Privileged (Host.env host i) s caller → 0 ≤ amount.val
  | .registerBatch caller batchId _ recipients amounts =>
    RegisterBatchGuards (Host.env host i) s caller batchId recipients amounts →
      ∀ a, 0 ≤ mintedTo a (mints (recipients.toList.zip amounts.toList))
  | _ => True

theorem positiveMint_nonneg (a target : Address) (n : ℤ) :
    0 ≤ mintedTo a (positiveMint target n) := by
  by_cases h : 0 < n
  · rw [positiveMint_of_pos h]
    simp only [mintedTo]
    split <;> omega
  · rw [positiveMint_of_not_pos h]
    exact le_rfl

theorem weighed_nonneg (s : State) (w : Weighed) (a : Address) :
    0 ≤ mintedTo a (postings s (.registerBatchWeighed w)) := by
  rw [postings, mintedTo_append]
  refine add_nonneg ?_ (positiveMint_nonneg _ _ _)
  induction w.households.toList with
  | nil => exact le_rfl
  | cons hh hhs ih =>
    rw [List.flatMap_cons, mintedTo_append]
    exact add_nonneg (positiveMint_nonneg _ _ _) ih

theorem accepted_postings (h : Accepted host s i s') :
    (∃ x y n, postings s i.call = [.move x y n] ∧ 0 < n ∧ n ≤ balanceOf s x) ∨
      OnlyMints (postings s i.call) := by
  cases hc : i.call with
  | transfer =>
    obtain ⟨-, hguards⟩ := (transfer_accepted_iff hc).mp ⟨s', h⟩
    exact Or.inl ⟨_, _, _, rfl, hguards.positive, hguards.funded⟩
  | transferFrom =>
    have hguards := ((transferFrom_accepted_iff hc).mp ⟨s', h⟩).movable
    exact Or.inl ⟨_, _, _, rfl, hguards.positive, hguards.funded⟩
  | transferDelegated =>
    have hguards := ((delegated_accepted_iff hc).mp ⟨s', h⟩).movable
    exact Or.inl ⟨_, _, _, rfl, hguards.positive, hguards.funded⟩
  | mint _ toAddr amount => exact Or.inr (onlyMints_mints [(toAddr, amount)])
  | registerBatch => exact Or.inr (onlyMints_mints _)
  | registerBatchWeighed a => exact Or.inr (onlyMints_weighed s a)
  | init | setWorker | approve | notarizeBatchReceipt | setMaterialRate | view =>
    exact Or.inr fun p hp => absurd hp List.not_mem_nil

theorem accepted_nets (h : Accepted host s i s') (hno : NoDebt host s i)
    (hm : OnlyMints (postings s i.call)) (a : Address) : 0 ≤ mintedTo a (postings s i.call) := by
  unfold NoDebt at hno
  cases hc : i.call with
  | mint caller toAddr amount =>
    simp only [hc] at hno
    have := hno (accepted_mint h hc)
    simp only [postings, mintedTo]
    split <;> omega
  | registerBatch caller batchId ipfsCid recipients amounts =>
    simp only [hc] at hno
    exact hno (accepted_registerBatch h hc) a
  | registerBatchWeighed w => exact weighed_nonneg s w a
  | transfer | transferFrom | transferDelegated =>
    rw [hc] at hm
    obtain ⟨_, _, hmove⟩ := hm _ (List.mem_singleton_self _)
    cases hmove
  | init | setWorker | approve | notarizeBatchReceipt | setMaterialRate | view => exact le_rfl

theorem accepted_solvent (h : Accepted host s i s') (hno : NoDebt host s i)
    (hs : (bank s).Solvent) : (bank s').Solvent ∧ supply s ≤ supply s' := by
  have hsupply : supply s' = supply s + minted (postings s i.call) := by
    rw [← bank_supply, (accepted_effect h).bank, Bank.supply_postAll, bank_supply]
  rw [(accepted_effect h).bank, hsupply]
  rcases accepted_postings h with ⟨x, y, n, hps, hpos, hfunded⟩ | hmints
  · rw [hps]
    exact ⟨hs.move hpos.le hfunded, by simp [minted]⟩
  · have hnets := accepted_nets h hno hmints
    exact ⟨hs.mints hmints hnets, by linarith [minted_nonneg hmints hnets]⟩

theorem solvent_of_along {is : List Invocation} (hs : (bank s).Solvent)
    (hC : Along (step host) (fun s i => NoDebt host s i) s is)
    (h : run (step host) s is = some s') : (bank s').Solvent := by
  refine run_invariant (I := fun s => (bank s).Solvent) (fun s i s' hI hno hstep => ?_) hs hC h
  rcases step_cases hstep with ha | ⟨rfl, -⟩
  · exact (accepted_solvent ha hno hI).1
  · exact hI

/-- Every balance lies between zero and the supply, and the supply never falls, in every run
without a self transfer that passes its guards and without negative minting. -/
theorem balances_bounded (host : Host) (is : List Invocation)
    (hC : Along (step host) (fun s i => ¬ SelfTransfer host s i ∧ NoDebt host s i)
      State.empty is) :
    (∀ p s, p <+: is → run (step host) State.empty p = some s →
      ∀ a, 0 ≤ balanceOf s a ∧ balanceOf s a ≤ supply s) ∧
    ∀ p i s s', p ++ [i] <+: is → run (step host) State.empty p = some s →
      step host s i = some s' → supply s ≤ supply s' := by
  have hsolvent : ∀ p s, p <+: is → run (step host) State.empty p = some s →
      (bank s).Solvent := by
    rintro p s ⟨q, rfl⟩ hrun
    exact solvent_of_along (fun _ => le_rfl) (along_mono (fun _ _ h => h.2) (along_append hC).1)
      hrun
  constructor
  · intro p s hp hrun a
    have hs := hsolvent p s hp hrun
    obtain ⟨q, rfl⟩ := hp
    have hdrift := drift_eq_zero_of_along drift_empty
      (along_mono (fun _ _ h => h.1) (along_append hC).1) hrun
    exact ⟨hs a, hs.balance_le_supply hdrift a⟩
  · rintro p i s s' ⟨q, rfl⟩ hrun hstep
    have hs := hsolvent p s ⟨i :: q, by simp⟩ hrun
    rw [List.append_assoc] at hC
    have hno := ((along_append hC).2 s hrun).1.2
    rcases step_cases hstep with ha | ⟨rfl, -⟩
    · exact (accepted_solvent ha hno hs).2
    · exact le_rfl

theorem balances_bounded_transfer :
    let is := [deployed, minting alice (i128 10), signedBy alice (.transfer alice bob (i128 4))]
    (∀ p s, p <+: is → run (step sampleHost) State.empty p = some s →
      ∀ a, 0 ≤ balanceOf s a ∧ balanceOf s a ≤ supply s) ∧
    ∀ p i s s', p ++ [i] <+: is → run (step sampleHost) State.empty p = some s →
      step sampleHost s i = some s' → supply s ≤ supply s' :=
  balances_bounded sampleHost _
    ⟨⟨id, trivial⟩, fun _ _ => ⟨⟨id, fun _ => by decide⟩, fun _ _ =>
      ⟨⟨fun h => absurd h.1 (by decide), trivial⟩, fun _ _ => trivial⟩⟩⟩

theorem negativeMint_unbounded : ∃ s s',
    run (step sampleHost) State.empty [deployed] = some s ∧
      step sampleHost s (minting alice (i128 (-5))) = some s' ∧
        balanceOf s' alice < 0 ∧ supply s' < supply s :=
  ⟨_, _, run_eq_after sampleHost State.empty [deployed], rfl, by decide +kernel,
    by decide +kernel⟩

end Livora.RegistryConservation
