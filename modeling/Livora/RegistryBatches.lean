import Livora.RegistryConservation

/-! Batches over whole runs. The three registration calls share one key space: a
batch is registered at most once, its marker and its record always agree, and the
record never changes. What the record says about the reward is then compared with
what the call minted. -/

namespace Livora.RegistryBatches

open CheckedWords StellarXdr TrappingState TypedStore RegistryStorage RegistryContract
open RegistryBank RegistryRewards RegistryCalls RegistryEffects RegistryConservation TokenBank
open TransitionRuns

def marker (s : State) (b : BytesN 32) : Option Bool := s.persistent.get (.processedBatch b)

def record (s : State) (b : BytesN 32) : Option BatchRecord := s.persistent.get (.batchDetails b)

variable {host : Host} {s s' : State} {i : Invocation} {b : BytesN 32}

theorem batch_frame (h : Accepted host s i s') (hb : batch? i.call ≠ some b) :
    marker s' b = marker s b ∧ record s' b = record s b := by
  have hkeys : DataKey.processedBatch b ∉ writes i.call ∧
      DataKey.batchDetails b ∉ writes i.call := by
    cases hc : i.call with
    | registerBatch | registerBatchWeighed | notarizeBatchReceipt =>
      rw [hc] at hb
      have hne : ∀ b', some b' ≠ some b → b ≠ b' := fun b' h e => h (by rw [e])
      simp [writes, bankKeys, batchKeys, hne _ hb]
    | init | setWorker | approve | transfer | transferFrom | transferDelegated | mint
    | setMaterialRate | view => simp [writes, bankKeys, rateKeys]
  have hframe := (accepted_effect h).frame.persistent
  exact ⟨hframe _ hkeys.1, hframe _ hkeys.2⟩

structure BatchLedger (registered : List (BytesN 32)) (s : State) : Prop where
  once : registered.Nodup
  marked : ∀ b, b ∈ registered ↔ marker s b ≠ none
  agree : ∀ b, marker s b ≠ none ↔ ∃ d, record s b = some d ∧ d.processed = true
  settled : ∀ b, record s b ≠ none → marker s b ≠ none

theorem batchLedger_empty : BatchLedger [] State.empty where
  once := List.nodup_nil
  marked b := by simp [marker, State.empty]
  agree b := by simp [marker, record, State.empty]
  settled b := by simp [record, State.empty]

theorem batchLedger_step {registered : List (BytesN 32)} (hI : BatchLedger registered s)
    (h : Accepted host s i s') :
    BatchLedger (registered ++ (batch? i.call).toList) s' := by
  cases hb : batch? i.call with
  | none =>
    have hkeep : ∀ b, marker s' b = marker s b ∧ record s' b = record s b :=
      fun b => batch_frame h (by simp [hb])
    obtain ⟨honce, hmarked, hagree, hsettled⟩ := hI
    rw [Option.toList_none, List.append_nil]
    refine ⟨honce, fun b => ?_, fun b => ?_, fun b => ?_⟩
    · rw [(hkeep b).1, hmarked]
    · rw [(hkeep b).1, (hkeep b).2, hagree]
    · rw [(hkeep b).1, (hkeep b).2]
      exact hsettled b
  | some b₀ =>
    obtain ⟨hfresh, hmark, d, hrecord, hprocessed, -⟩ := accepted_registers h hb
    have hkeep : ∀ b, b ≠ b₀ → marker s' b = marker s b ∧ record s' b = record s b :=
      fun b hne => batch_frame h (by simp [hb, Ne.symm hne])
    have hnew : b₀ ∉ registered := fun hmem => (hI.marked b₀).mp hmem hfresh
    refine ⟨?_, fun b => ?_, fun b => ?_, fun b => ?_⟩
    · simpa using List.nodup_append.mpr
        ⟨hI.once, List.nodup_singleton b₀, fun a ha c hc => by
          rintro rfl
          exact hnew (List.mem_singleton.mp hc ▸ ha)⟩
    all_goals by_cases hne : b = b₀
    · subst hne
      simp [marker, hmark]
    · rw [(hkeep b hne).1, ← hI.marked]
      simp [hne]
    · subst hne
      simp [marker, record, hmark, hrecord, hprocessed]
    · rw [(hkeep b hne).1, (hkeep b hne).2, hI.agree]
    · subst hne
      simp [marker, hmark]
    · rw [(hkeep b hne).1, (hkeep b hne).2]
      exact hI.settled b

theorem batchLedger_run {is : List Invocation} (h : run (step host) State.empty is = some s) :
    BatchLedger (history host (fun i => batch? i.call) State.empty is) s :=
  history_invariant (fun _ _ _ _ hI ha => batchLedger_step hI ha) batchLedger_empty h

theorem record_preserved {registered : List (BytesN 32)} {is : List Invocation} {d : BatchRecord}
    (hI : BatchLedger registered s) (hd : record s b = some d)
    (h : run (step host) s is = some s') : record s' b = some d := by
  have hinv : ∃ registered, BatchLedger registered s' ∧ record s' b = some d := by
    refine run_accepted (I := fun s => ∃ registered, BatchLedger registered s ∧
      record s b = some d) (fun s i s' hI ha => ?_) ⟨registered, hI, hd⟩ h
    obtain ⟨registered, hI, hd⟩ := hI
    refine ⟨_, batchLedger_step hI ha, ?_⟩
    rw [(batch_frame ha ?_).2, hd]
    intro hb
    exact hI.settled b (by simp [hd]) (accepted_registers ha hb).fresh
  exact hinv.choose_spec.2

/-- In every run each batch is registered at most once, its marker is present exactly when
its record is there and processed, the record never changes afterwards, and a rejected
registration leaves the state as it was. -/
theorem batches_settle_once (host : Host) (is : List Invocation) {s : State}
    (hrun : run (step host) State.empty is = some s) :
    (history host (fun i => batch? i.call) State.empty is).Nodup ∧
    (∀ b, marker s b ≠ none ↔ ∃ d, record s b = some d ∧ d.processed = true) ∧
    (∀ b d js s', record s b = some d → run (step host) s js = some s' →
      record s' b = some d) ∧
    ∀ i s', batch? i.call ≠ none → (∀ t, ¬ Accepted host s i t) → step host s i = some s' →
      s' = s := by
  have hledger := batchLedger_run hrun
  refine ⟨hledger.once, hledger.agree, fun b d js s' hd h => record_preserved hledger hd h,
    fun i s' _ hreject hstep => ?_⟩
  rcases step_cases hstep with ha | ⟨rfl, -⟩
  · exact absurd ha (hreject s')
  · rfl

theorem batches_settle_once_notarized :
    let is := [deployed, signedBy admin
      (.notarizeBatchReceipt admin (BytesN.fill 32 7) bob "receipt")]
    let s := after sampleHost State.empty is
    (history sampleHost (fun i => batch? i.call) State.empty is).Nodup ∧
    (∀ b, marker s b ≠ none ↔ ∃ d, record s b = some d ∧ d.processed = true) ∧
    (∀ b d js s', record s b = some d → run (step sampleHost) s js = some s' →
      record s' b = some d) ∧
    ∀ i s', batch? i.call ≠ none → (∀ t, ¬ Accepted sampleHost s i t) →
      step sampleHost s i = some s' → s' = s :=
  batches_settle_once sampleHost _ (run_eq_after _ _ _)

/-! ### The reward on record -/

def participants : Call → Finset Address
  | .registerBatch _ _ _ recipients _ => recipients.toList.toFinset
  | .registerBatchWeighed a => (a.collector :: a.households.toList).toFinset
  | _ => ∅

/-- The reward on record is what the supply gained and what the participants gained. -/
def RewardMinted (s s' : State) (b : BytesN 32) (call : Call) : Prop :=
  ∃ d, record s' b = some d ∧ d.totalReward.val = supply s' - supply s ∧
    d.totalReward.val = ∑ a ∈ participants call, (balanceOf s' a - balanceOf s a)

/-- The rates and weights of a weighed batch do not add up to a negative reward. -/
def NonnegativeReward (s : State) : Call → Prop
  | .registerBatchWeighed a => 0 ≤ weighedTotal s a
  | _ => True

theorem minted_positiveMint (target : Address) (n : ℤ) :
    minted (positiveMint target n) = max n 0 := by
  by_cases h : 0 < n
  · rw [positiveMint_of_pos h, max_eq_left h.le]
    exact add_zero n
  · rw [positiveMint_of_not_pos h, max_eq_right (not_lt.mp h)]
    rfl

theorem minted_households (hhs : List Address) (n : ℤ) :
    minted (hhs.flatMap fun hh => positiveMint hh n) = hhs.length * max n 0 := by
  induction hhs with
  | nil => simp [minted]
  | cons hh hhs ih =>
    rw [List.flatMap_cons, minted_append, minted_positiveMint, ih]
    push_cast [List.length_cons]
    ring

theorem minted_weighed (s : State) (a : Weighed) (hb : 0 ≤ shareBps s)
    (hb' : shareBps s ≤ 10000) :
    minted (postings s (.registerBatchWeighed a)) = max (weighedTotal s a) 0 := by
  have hwhole := split_whole (weighedTotal s a) (shareBps s) a.households.toList.length
  rw [postings, minted_append, minted_households, minted_positiveMint]
  simp only [weighedShares]
  rcases le_total 0 (weighedTotal s a) with ht | ht
  · obtain ⟨hper, hcoll⟩ := split_nonneg a.households.toList.length ht hb hb'
    rw [max_eq_left hper, max_eq_left hcoll, max_eq_left ht, hwhole]
  · obtain ⟨hper, hcoll⟩ := split_nonpos a.households.toList.length ht hb hb'
    rw [max_eq_right hper, max_eq_right hcoll, max_eq_right ht]
    ring

theorem shareBps_run {is : List Invocation} (h : run (step host) State.empty is = some s) :
    shareBps s = 2000 := by
  have hstored : s.instanceData.get .collectorShareBps = none ∨
      s.instanceData.get .collectorShareBps = some (i128 2000) := by
    refine run_accepted (I := fun s => s.instanceData.get .collectorShareBps = none ∨
      s.instanceData.get .collectorShareBps = some (i128 2000)) (fun s i s' hI ha => ?_)
      (Or.inl rfl) h
    rcases accepted_shareBps ha with hkeep | hset
    · rwa [hkeep]
    · exact Or.inr hset
  rcases hstored with h | h <;> rw [shareBps, h] <;> rfl

theorem mem_of_mem_positiveMint {t target : Address} {m n : ℤ}
    (h : Posting.mint t m ∈ positiveMint target n) : t = target := by
  by_cases hpos : 0 < n
  · rw [positiveMint_of_pos hpos, List.mem_singleton] at h
    exact (Posting.mint.inj h).1
  · rw [positiveMint_of_not_pos hpos] at h
    exact absurd h List.not_mem_nil

theorem postings_participants {call : Call} (hb : batch? call = some b) :
    OnlyMints (postings s call) ∧
      ∀ t n, Posting.mint t n ∈ postings s call → t ∈ participants call := by
  cases call with
  | registerBatch caller batchId ipfsCid recipients amounts =>
    refine ⟨onlyMints_mints _, fun t n h => ?_⟩
    obtain ⟨r, hr, he⟩ := List.mem_map.mp h
    obtain ⟨rfl, -⟩ := Posting.mint.inj he
    exact List.mem_toFinset.mpr (List.of_mem_zip hr).1
  | registerBatchWeighed a =>
    refine ⟨onlyMints_weighed s a, fun t n h => List.mem_toFinset.mpr ?_⟩
    rcases List.mem_append.mp h with h | h
    · obtain ⟨hh, hmem, h⟩ := List.mem_flatMap.mp h
      rw [mem_of_mem_positiveMint h]
      exact List.mem_cons_of_mem _ hmem
    · rw [mem_of_mem_positiveMint h]
      exact List.mem_cons_self
  | notarizeBatchReceipt =>
    exact ⟨fun p hp => absurd hp List.not_mem_nil, fun t n h => absurd h List.not_mem_nil⟩
  | init | setWorker | approve | transfer | transferFrom | transferDelegated | mint
  | setMaterialRate | view => cases hb

theorem registration_gains (h : Accepted host s i s') (hb : batch? i.call = some b) :
    supply s' - supply s = minted (postings s i.call) ∧
      ∑ a ∈ participants i.call, (balanceOf s' a - balanceOf s a) =
        minted (postings s i.call) := by
  obtain ⟨hmints, htargets⟩ := postings_participants (s := s) hb
  have hbank := (accepted_effect h).bank
  constructor
  · rw [← bank_supply s', hbank, Bank.supply_postAll, bank_supply, add_sub_cancel_left]
  · rw [← sum_mintedTo hmints htargets]
    refine Finset.sum_congr rfl fun a _ => ?_
    rw [← bank_balance s', hbank, Bank.balance_postAll_of_mints hmints, bank_balance,
      add_sub_cancel_left]

/-- In every reachable state, an accepted registration records what it minted exactly when it
is no weighed batch with a negative reward. -/
theorem reward_minted_iff {is : List Invocation} (hrun : run (step host) State.empty is = some s)
    (h : Accepted host s i s') (hb : batch? i.call = some b) :
    RewardMinted s s' b i.call ↔ NonnegativeReward s i.call := by
  obtain ⟨hsupply, hgains⟩ := registration_gains h hb
  obtain ⟨-, -, d, hd, -, hreward⟩ := accepted_registers h hb
  have hiff : RewardMinted s s' b i.call ↔
      batchReward s i.call = minted (postings s i.call) := by
    rw [RewardMinted, hsupply, hgains, ← hreward]
    constructor
    · rintro ⟨d', hd', heq, -⟩
      obtain rfl : d = d' := Option.some.inj (hd.symm.trans hd')
      exact heq
    · exact fun heq => ⟨d, hd, heq, heq⟩
  rw [hiff]
  cases hc : i.call with
  | registerBatchWeighed a =>
    have hbps := shareBps_run hrun
    rw [minted_weighed s a (by omega) (by omega), NonnegativeReward, batchReward, eq_comm,
      max_eq_left_iff]
  | registerBatch | notarizeBatchReceipt => exact iff_of_true rfl trivial
  | init | setWorker | approve | transfer | transferFrom | transferDelegated | mint
  | setMaterialRate | view => rw [hc] at hb; cases hb

def weighing (grams : I128) : Invocation :=
  signedBy admin (.registerBatchWeighed
    { caller := admin, batchId := BytesN.fill 32 7, ipfsCid := "receipt", collector := alice,
      households := .single bob, materialCodes := .single ⟨"PET", Nat.le_of_ble_eq_true rfl⟩,
      weightsGrams := .single grams })

theorem reward_minted_weighing :
    let s := after sampleHost State.empty [deployed]
    ∃ s', Accepted sampleHost s (weighing (i128 1000)) s' ∧
      (RewardMinted s s' (BytesN.fill 32 7) (weighing (i128 1000)).call ↔
        NonnegativeReward s (weighing (i128 1000)).call) := by
  obtain ⟨s', h⟩ := accepts_iff.mp (show accepts sampleHost (after sampleHost State.empty
    [deployed]) (weighing (i128 1000)) = true by decide +kernel)
  exact ⟨s', h, reward_minted_iff (run_eq_after _ _ _) h rfl⟩

/-- A negative weight puts a negative reward on record while nothing is minted. -/
theorem negativeWeighing_not_minted :
    let s := after sampleHost State.empty [deployed]
    ∃ s', Accepted sampleHost s (weighing (i128 (-1000))) s' ∧
      ¬ RewardMinted s s' (BytesN.fill 32 7) (weighing (i128 (-1000))).call := by
  intro s
  have haccepts : accepts sampleHost s (weighing (i128 (-1000))) = true := by decide +kernel
  obtain ⟨s', h⟩ := accepts_iff.mp haccepts
  refine ⟨s', h, ?_⟩
  obtain rfl : commit (exec (Host.env sampleHost (weighing (i128 (-1000))))
      (weighing (i128 (-1000))).call) s = s' := commit_of_returns h
  rintro ⟨d, hd, hsupply, -⟩
  have hrecorded := congrArg (Option.map fun d => d.totalReward.val) hd
  rw [Option.map_some, hsupply] at hrecorded
  exact absurd hrecorded (by decide +kernel)

end Livora.RegistryBatches
