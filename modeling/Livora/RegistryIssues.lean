import Livora.RegistryBatches

/-! Where the supply comes from. Every token was issued by a mint, or as the reward of a batch that
is on record: the supply is the sum of the two over the whole run, and the balances hold it and what
was moved to itself. -/

namespace Livora.RegistryIssues

open CheckedWords StellarXdr TrappingState TypedStore RegistryStorage RegistryContract
open RegistryBank RegistryCalls RegistryEffects RegistryConservation RegistryBatches TokenBank TransitionRuns

inductive Issue where
  | minted (amount : ℤ)
  | listed (batchId : BytesN 32)
  | weighed (batchId : BytesN 32)

def issue (i : Invocation) : Option Issue :=
  match i.call with
  | .mint _ _ amount => some (.minted amount.val)
  | .registerBatch _ batchId _ _ _ => some (.listed batchId)
  | .registerBatchWeighed a => some (.weighed a.batchId)
  | _ => none

def reward (s : State) (b : BytesN 32) : ℤ := ((record s b).map fun d => d.totalReward.val).getD 0

/-- What was issued, read off the records; a weighed batch of a negative reward issues nothing. -/
def Issue.amount (s : State) : Issue → ℤ
  | .minted amount => amount
  | .listed b => reward s b
  | .weighed b => max (reward s b) 0

def Issue.batch : Issue → Option (BytesN 32)
  | .minted _ => none
  | .listed b => some b
  | .weighed b => some b

def issued (s : State) (issues : List Issue) : ℤ := (issues.map (Issue.amount s)).sum

/-- The supply so far, with the batches that were issued for all on record. -/
structure Accounted (issues : List Issue) (s : State) : Prop where
  supply : supply s = issued s issues
  recorded : ∀ e ∈ issues, ∀ b, e.batch = some b → record s b ≠ none
  ledger : ∃ registered, BatchLedger registered s ∧
    (issues.filterMap Issue.batch).Sublist registered
  share : s.instanceData.get .collectorShareBps = none ∨
    s.instanceData.get .collectorShareBps = some (i128 2000)

variable {host : Host} {s s' : State} {i : Invocation} {issues : List Issue}

theorem accounted_empty : Accounted [] State.empty where
  supply := rfl
  recorded _ h := absurd h List.not_mem_nil
  ledger := ⟨[], batchLedger_empty, List.Sublist.refl []⟩
  share := Or.inl rfl

theorem share_eq (h : Accounted issues s) : shareBps s = 2000 := by
  rcases h.share with h | h <;> rw [shareBps, h] <;> rfl

theorem accepted_supply (h : Accepted host s i s') :
    supply s' = supply s + minted (postings s i.call) := by
  rw [← bank_supply s', (accepted_effect h).bank, Bank.supply_postAll, bank_supply]

theorem record_kept (hI : Accounted issues s) (h : Accepted host s i s') {b : BytesN 32}
    (hb : record s b ≠ none) :
    record s' b = record s b := by
  obtain ⟨registered, hledger, -⟩ := hI.ledger
  refine (batch_frame h fun hbatch => ?_).2
  exact hledger.settled b hb (accepted_registers h hbatch).fresh

theorem issued_kept (hI : Accounted issues s) (h : Accepted host s i s') :
    issued s' issues = issued s issues := by
  refine congrArg List.sum (List.map_congr_left fun e he => ?_)
  have hkept (b : BytesN 32) (hb : e.batch = some b) : reward s' b = reward s b := by
    rw [reward, record_kept hI h (hI.recorded e he b hb), reward]
  cases e with
  | minted amount => rfl
  | listed b => exact hkept b rfl
  | weighed b => exact congrArg (max · 0) (hkept b rfl)

theorem reward_of_registers {b : BytesN 32} {n : ℤ} (h : Registers s s' b n) :
    record s' b ≠ none ∧ reward s' b = n := by
  obtain ⟨-, -, d, hrecord, -, hreward⟩ := h
  have hd : record s' b = some d := hrecord
  refine ⟨by rw [hd]; exact Option.some_ne_none d, ?_⟩
  rw [reward, hd, Option.map_some, Option.getD_some, hreward]

theorem issued_of_accepted (hI : Accounted issues s) (h : Accepted host s i s') :
    minted (postings s i.call) = issued s' (issue i).toList ∧
      ∀ e ∈ (issue i).toList, ∀ b, e.batch = some b → record s' b ≠ none := by
  have hshare := share_eq hI
  unfold issue
  cases hc : i.call with
  | mint caller toAddr amount =>
    refine ⟨rfl, fun e he b hb => ?_⟩
    obtain rfl := List.mem_singleton.mp he
    cases hb
  | registerBatch caller batchId ipfsCid recipients amounts =>
    have hbatch : batch? i.call = some batchId := by rw [hc]; rfl
    have hregisters := accepted_registers h hbatch
    rw [hc] at hregisters
    obtain ⟨hrecord, hreward⟩ := reward_of_registers hregisters
    refine ⟨?_, fun e he b hb => ?_⟩
    · change _ = reward s' batchId + 0
      rw [hreward, add_zero]
      rfl
    · obtain rfl := List.mem_singleton.mp he
      cases hb
      exact hrecord
  | registerBatchWeighed a =>
    have hbatch : batch? i.call = some a.batchId := by rw [hc]; rfl
    have hregisters := accepted_registers h hbatch
    rw [hc] at hregisters
    obtain ⟨hrecord, hreward⟩ := reward_of_registers hregisters
    refine ⟨?_, fun e he b hb => ?_⟩
    · change _ = max (reward s' a.batchId) 0 + 0
      rw [hreward, add_zero, minted_weighed s a (by omega) (by omega)]
      rfl
    · obtain rfl := List.mem_singleton.mp he
      cases hb
      exact hrecord
  | _ => exact ⟨rfl, fun e he => absurd he List.not_mem_nil⟩

theorem batch_issue : ((issue i).toList.filterMap Issue.batch).Sublist (batch? i.call).toList := by
  unfold issue
  cases i.call with
  | notarizeBatchReceipt caller batchId center ipfsCid => exact List.nil_sublist _
  | _ => exact List.Sublist.refl _

theorem accounted_step (hI : Accounted issues s) (h : Accepted host s i s') :
    Accounted (issues ++ (issue i).toList) s' := by
  obtain ⟨hissued, hrecorded⟩ := issued_of_accepted hI h
  obtain ⟨registered, hledger, hsublist⟩ := hI.ledger
  have hbatches : ((issues ++ (issue i).toList).filterMap Issue.batch).Sublist
    (registered ++ (batch? i.call).toList) := by
    rw [List.filterMap_append]
    exact hsublist.append batch_issue
  refine ⟨?_, fun e he b hb => ?_, ⟨_, batchLedger_step hledger h, hbatches⟩, ?_⟩
  · rw [accepted_supply h, hissued, hI.supply, ← issued_kept hI h, issued, issued, issued,
      List.map_append, List.sum_append]
  · rcases List.mem_append.mp he with he | he
    · rw [record_kept hI h (hI.recorded e he b hb)]
      exact hI.recorded e he b hb
    · exact hrecorded e he b hb
  · rcases accepted_shareBps h with hkept | hset
    · rw [hkept]
      exact hI.share
    · exact Or.inr hset

/-- After every run the supply is what was minted, with the rewards on the records of the registered
batches, each batch once; and the balances add up to it and to what was moved from addresses to
themselves. -/
theorem supply_accounted (host : Host) (is : List Invocation) :
    supply (after host State.empty is) =
      issued (after host State.empty is) (history host issue State.empty is) ∧
    ((history host issue State.empty is).filterMap Issue.batch).Nodup ∧
    (bank (after host State.empty is)).total =
      issued (after host State.empty is) (history host issue State.empty is) +
        (history host (fun i => some (selfMoved i.call)) State.empty is).sum := by
  have hrun := run_eq_after host State.empty is
  have haccounted := history_invariant (f := issue) (I := Accounted)
    (fun es s i s' hI h => accounted_step hI h) accounted_empty hrun
  obtain ⟨registered, hledger, hsublist⟩ := haccounted.ledger
  refine ⟨haccounted.supply, hledger.once.sublist hsublist, ?_⟩
  rw [← haccounted.supply, ← drift_run hrun, Bank.drift, bank_supply]
  ring

end Livora.RegistryIssues
