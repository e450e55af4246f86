import Livora.ForestRewards
import Livora.ProgramPools

/-! Claims of the weekly rewards in any order of their calls, with what every claim has read. A
household has one reward of a stage and a week at most, along every run in which no other claim
records it between the reading of the transfers and the writing of the reward; the quests of the
stage are always there. -/

namespace Livora.ForestRaces

open TransitionRuns EffectPrograms EffectPrograms.Action ProgramPools ProgramPools.System
open ForestWeeks ForestRewards
open PinVerification (Delivery)

/-! ### What a claim has read -/

structure Known where
  now : Option ℕ
  requests : Option (String × List CollectionRequest)
  redemptions : Option (String × List RedemptionTransaction)
  claims : Option (String × List WalletTransfer)

def Known.first : Known := ⟨none, none, none, none⟩

structure Basis where
  userId : String
  stage : RewardStage
  now : ℕ
  requests : List CollectionRequest
  redemptions : List RedemptionTransaction
  claims : List WalletTransfer

def Basis.known (b : Basis) : Known :=
  ⟨some b.now, some (b.userId, b.requests), some (b.userId, b.redemptions),
    some (b.userId, b.claims)⟩

/-- The reward is for the week that was read, and its quests are there. -/
structure Earned (svc : Service) (s : Known) (data : WalletTransfer) (b : Basis) : Prop where
  known : s = b.known
  receiver : data.receiverUserId = some b.userId
  reward : data.reward = some ⟨b.stage, getWeekKey svc.zone b.now⟩
  quests : minQuests b.stage ≤ completedQuests svc b.requests b.redemptions

structure Unclaimed (data : WalletTransfer) (b : Basis) (weekKey : String) : Prop where
  note : data.note = some (correlation b.stage weekKey)
  unclaimed : ∀ p ∈ b.claims, p.note ≠ data.note

def InWeek (svc : Service) (s : Known) (gte lte : ℤ) : Prop :=
  ∃ now, s.now = some now ∧ gte = getStartOfWeek svc.zone now ∧ lte = getEndOfWeek svc.zone now

def Allowed (svc : Service) (s : Known) : Op → Prop
  | .weeklyRequests _ gte lte => InWeek svc s gte lte
  | .weeklyRedemptions _ gte lte => InWeek svc s gte lte
  | .createTransfer data => ∃ b, Earned svc s data b ∧ Unclaimed data b (getWeekKey svc.zone b.now)
  | _ => True

def next (s : Known) (i : Op) (r : Except Failure (Reply i)) : Known :=
  match i, r with
  | .clock, .ok now => { s with now := some now }
  | .weeklyRequests householdId _ _, .ok rows => { s with requests := some (householdId, rows) }
  | .weeklyRedemptions userId _ _, .ok rows => { s with redemptions := some (userId, rows) }
  | .previousClaims receiverUserId, .ok rows => { s with claims := some (receiverUserId, rows) }
  | _, _ => s

def protocol (svc : Service) : Protocol Known Op fun i => Except Failure (Reply i) where
  Allowed := Allowed svc
  next := next

structure Caller where
  userId : String
  stage : RewardStage

def program (svc : Service) (caller : Caller) : Work ClaimResult :=
  claimWeeklyReward svc caller.userId caller.stage

section Programs

variable {svc : Service} {userId : String} {user : User} {stage : RewardStage}

def Reads (svc : Service) (userId : String) (s : Known) (state : WeeklyTreeState) : Prop :=
  ∃ (b : Basis) (user : User), b.userId = userId ∧ s = b.known ∧
    state = treeState svc user b.now b.requests b.redemptions b.claims

theorem obeys_readWeek (stage : RewardStage) :
    Obeys (protocol svc) (fun s x => ∀ state, x = .ok state → Reads svc userId s state) .first
      (readWeek svc user userId) := by
  refine obeys_call.mpr ⟨trivial, fun now => ?_, fun _ _ h => by cases h⟩
  refine obeys_call.mpr ⟨⟨now, rfl, rfl, rfl⟩, fun requests => ?_, fun _ _ h => by cases h⟩
  refine obeys_call.mpr ⟨⟨now, rfl, rfl, rfl⟩, fun redemptions => ?_, fun _ _ h => by cases h⟩
  refine obeys_call.mpr ⟨trivial, fun claims => ?_, fun _ _ h => by cases h⟩
  intro state hstate
  cases hstate
  exact ⟨⟨userId, stage, now, requests, redemptions, claims⟩, user, rfl, rfl, rfl⟩

theorem obeys_getWeeklyForestState :
    Obeys (protocol svc) (fun s x => ∀ state, x = .ok state → Reads svc userId s state) .first
      (getWeeklyForestState svc userId) := by
  refine obeys_call.mpr ⟨trivial, fun found => ?_, fun _ _ h => by cases h⟩
  cases found with
  | none => exact fun _ h => by cases h
  | some user =>
    change Obeys _ _ _ (if _ then _ else _)
    split
    · exact obeys_readWeek .stage3
    · exact fun _ h => by cases h

theorem follows_credit {s : Known} {state : WeeklyTreeState} (hreads : Reads svc userId s state)
    (h : refusal state stage = none) :
    Follows (protocol svc) s (credit userId user stage state) := by
  obtain ⟨b, user', rfl, rfl, rfl⟩ := hreads
  obtain ⟨hquests, hunclaimed⟩ := refusal_none h
  refine follows_call trivial fun systemAdmin => ?_
  refine follows_call ⟨{ b with stage := stage }, ⟨rfl, rfl, rfl, hquests⟩, rfl, hunclaimed⟩
    fun _ => ?_
  exact follows_pure _

theorem follows_program (caller : Caller) : Follows (protocol svc) .first (program svc caller) := by
  refine follows_call trivial fun found => ?_
  cases found with
  | none => exact follows_throw _
  | some user =>
    change Follows _ _ (if _ then _ else _)
    split
    · exact follows_throw _
    · split
      · exact follows_throw _
      · refine follows_after obeys_getWeeklyForestState fun state s hreads => ?_
        cases hrefusal : refusal state caller.stage with
        | some message => exact follows_throw _
        | none => exact follows_credit hreads hrefusal

end Programs

/-! ### The system -/

/-- What else goes on: the clock, other rows, and transfers that are no rewards. -/
inductive Outside where
  | time (now : ℕ)
  | users (rows : List User)
  | requests (rows : List CollectionRequest)
  | redemptions (rows : List RedemptionTransaction)
  | transfer (row : WalletTransfer)

def outside (w : World) : Outside → Option World
  | .time now => some { w with now := now }
  | .users rows => some { w with users := rows }
  | .requests rows => some { w with requests := rows }
  | .redemptions rows => some { w with redemptions := rows }
  | .transfer row =>
    if row.reward = none then some { w with transfers := w.transfers ++ [row] } else none

def system (svc : Service) : System Caller World Outcome Outside Known Op
    (fun i => Except Failure (Reply i)) (Except Failure ClaimResult) where
  program caller := (program svc caller).run
  serve := World.serve
  outside := outside
  protocol := protocol svc
  first := .first

abbrev Race := Pool World
  (Task Known Op (fun i => Except Failure (Reply i)) (Except Failure ClaimResult))

abbrev RaceEvent := Event Caller Outcome Outside

def quiescent (w : World) : Race := ⟨w, fun _ => none⟩

/-- How many rewards of the stage and the week the household has been given. -/
def rewards (w : World) (userId : String) (stage : RewardStage) (weekKey : String) : ℕ :=
  w.transfers.countP fun t => t.receiverUserId == some userId && t.reward == some ⟨stage, weekKey⟩

def Once (w : World) : Prop := ∀ userId stage weekKey, rewards w userId stage weekKey ≤ 1

/-- A reward has the note of its stage and its week. -/
def Noted (w : World) : Prop :=
  ∀ t ∈ w.transfers, ∀ r, t.reward = some r → t.note = some (correlation r.stage r.weekKey)

/-- Every household still has one reward of a stage and a week at most, and a reward that is being
written is for a week in which its claim has found the quests of the stage. -/
structure Good (svc : Service) (c : Race) (e : RaceEvent) : Prop where
  once : ∀ c', (system svc).step c e = some c' → Once c'.world
  quests : ∀ j o s data, e = .advance j o → stages c j = some s →
    pending c j = some (.createTransfer data) → ∃ b, Earned svc s data b

/-- A reward is recorded where every transfer for the same household, stage and week was among those
that its claim has read. -/
def AsRead (c : Race) : RaceEvent → Prop
  | .advance j o => o.delivery.applied = true → ∀ s data, stages c j = some s →
      pending c j = some (.createTransfer data) → ∀ t ∈ c.world.transfers,
        t.receiverUserId = data.receiverUserId → t.reward = data.reward →
          ∃ userId claims, s.claims = some (userId, claims) ∧ t ∈ claims
  | _ => True

/-! ### One step -/

structure Kept (svc : Service) (c : Race) : Prop where
  disciplined : (system svc).Disciplined c
  noted : Noted c.world
  once : Once c.world

variable {svc : Service} {w : World} {c c' : Race} {e : RaceEvent} {j : ℕ} {data : WalletTransfer}

theorem rewards_append (w : World) (data : WalletTransfer) (userId : String) (stage : RewardStage)
    (weekKey : String) :
    rewards { w with transfers := w.transfers ++ [data] } userId stage weekKey =
      rewards w userId stage weekKey +
        if data.receiverUserId = some userId ∧
          data.reward = some ⟨stage, weekKey⟩ then 1 else 0 := by
  unfold rewards
  rw [List.countP_append, List.countP_singleton]
  simp

theorem once_of_none (honce : Once w) (h : data.reward = none) :
    Once { w with transfers := w.transfers ++ [data] } := by
  intro userId stage weekKey
  have hother : ¬ (data.receiverUserId = some userId ∧ data.reward = some ⟨stage, weekKey⟩) :=
    fun hsame => by
    rw [h] at hsame
    cases hsame.2
  rw [rewards_append, if_neg hother, Nat.add_zero]
  exact honce userId stage weekKey

theorem once_append_iff (honce : Once w) {userId : String} {r : Reward}
    (hreceiver : data.receiverUserId = some userId) (hreward : data.reward = some r) :
    Once { w with transfers := w.transfers ++ [data] } ↔
      ∀ t ∈ w.transfers, t.receiverUserId = data.receiverUserId → t.reward ≠ data.reward := by
  have hnone : rewards w userId r.stage r.weekKey = 0 ↔
      ∀ t ∈ w.transfers, t.receiverUserId = data.receiverUserId → t.reward ≠ data.reward := by
    rw [hreceiver, hreward, rewards, List.countP_eq_zero]
    refine forall₂_congr fun t _ => ?_
    rw [Bool.and_eq_true, beq_iff_eq, beq_iff_eq, not_and]
  rw [← hnone]
  constructor
  · intro h
    have hle := h userId r.stage r.weekKey
    rw [rewards_append, if_pos ⟨hreceiver, hreward⟩] at hle
    omega
  · intro h userId' stage weekKey
    rw [rewards_append]
    split
    · rename_i hsame
      cases hreceiver.symm.trans hsame.1
      cases hreward.symm.trans hsame.2
      rw [h]
    · exact honce userId' stage weekKey

theorem noted_append (hnoted : Noted w)
    (h : ∀ r, data.reward = some r → data.note = some (correlation r.stage r.weekKey)) :
    Noted { w with transfers := w.transfers ++ [data] } := by
  intro t ht
  rcases List.mem_append.mp ht with ht | ht
  · exact hnoted t ht
  · rw [List.mem_singleton.mp ht]
    exact h

theorem advance_iff {i : Op} {o : Outcome} (hi : pending c j = some i) :
    (∀ c', (system svc).step c (.advance j o) = some c' → Once c'.world) ↔
      Once (c.world.after i o.delivery) := by
  rcases ht : c.tasks j with _ | ⟨s, _ | ⟨i', k⟩⟩
  · simp [pending, ht] at hi
  · simp [pending, ht] at hi
  · cases hi.symm.trans (pending_eq ht)
    constructor
    · exact fun h => h _ (step_advance.mpr ⟨s, i, k, ht, rfl⟩)
    · intro h c' hc'
      obtain ⟨s', i', k', ht', rfl⟩ := step_advance.mp hc'
      cases ht.symm.trans ht'
      exact h

theorem allowed_createTransfer (hkept : Kept svc c) {s : Known} (hs : stages c j = some s)
    (hi : pending c j = some (.createTransfer data)) :
    ∃ b, Earned svc s data b ∧ Unclaimed data b (getWeekKey svc.zone b.now) :=
  allowed_pending hkept.disciplined hs hi

theorem asRead_iff (hkept : Kept svc c) {s : Known} {b : Basis} (hearned : Earned svc s data b)
    (hunclaimed : Unclaimed data b (getWeekKey svc.zone b.now)) :
    (∀ t ∈ c.world.transfers, t.receiverUserId = data.receiverUserId → t.reward = data.reward →
      ∃ userId claims, s.claims = some (userId, claims) ∧ t ∈ claims) ↔
    ∀ t ∈ c.world.transfers, t.receiverUserId = data.receiverUserId → t.reward ≠ data.reward := by
  refine forall₃_congr fun t ht _ => ⟨fun h hreward => ?_, fun h hreward => absurd hreward h⟩
  obtain ⟨userId, claims, hclaims, hmem⟩ := h hreward
  rw [hearned.known] at hclaims
  cases hclaims
  have hnote := hkept.noted t ht _ (hreward.trans hearned.reward)
  exact hunclaimed.unclaimed t hmem (hnote.trans hunclaimed.note.symm)

theorem good_iff (hkept : Kept svc c) (e : RaceEvent) : Good svc c e ↔ AsRead c e := by
  have hquests : ∀ j o s data, e = .advance j o → stages c j = some s →
      pending c j = some (.createTransfer data) → ∃ b, Earned svc s data b := by
    intro j o s data _ hs hi
    obtain ⟨b, hearned, -⟩ := allowed_createTransfer hkept hs hi
    exact ⟨b, hearned⟩
  have hgood : Good svc c e ↔ ∀ c', (system svc).step c e = some c' → Once c'.world :=
    ⟨Good.once, fun h => ⟨h, hquests⟩⟩
  rw [hgood]
  cases e with
  | start j a =>
    refine iff_of_true (fun c' h => ?_) trivial
    obtain ⟨-, rfl⟩ := step_start.mp h
    exact hkept.once
  | stop j =>
    refine iff_of_true (fun c' h => ?_) trivial
    obtain ⟨-, rfl⟩ := step_stop.mp h
    exact hkept.once
  | outside d =>
    refine iff_of_true (fun c' h => ?_) trivial
    obtain ⟨w, hw, rfl⟩ := step_outside.mp h
    cases d with
    | transfer row =>
      obtain ⟨hnone, hw⟩ := Option.ite_none_right_eq_some.mp hw
      cases hw
      exact once_of_none hkept.once hnone
    | _ =>
      cases hw
      exact hkept.once
  | advance j o =>
    cases hi : pending c j with
    | none =>
      refine iff_of_true (fun c' h => ?_) fun _ s data _ hi' => by rw [hi] at hi'; cases hi'
      obtain ⟨s, i, k, ht, -⟩ := step_advance.mp h
      rw [pending_eq ht] at hi
      cases hi
    | some i =>
      rw [advance_iff hi]
      by_cases hwrites : ∃ data, i = .createTransfer data ∧ o.delivery.applied = true
      · obtain ⟨data, rfl, happlied⟩ := hwrites
        obtain ⟨s, hs⟩ := stage_of_pending hi
        obtain ⟨b, hearned, hunclaimed⟩ := allowed_createTransfer hkept hs hi
        have hafter : c.world.after (.createTransfer data) o.delivery =
            { c.world with transfers := c.world.transfers ++ [data] } := if_pos happlied
        rw [hafter, once_append_iff hkept.once hearned.receiver hearned.reward,
          ← asRead_iff hkept hearned hunclaimed]
        constructor
        · intro h _ s' data' hs' hi'
          cases hs.symm.trans hs'
          cases hi.symm.trans hi'
          exact h
        · exact fun h => h happlied s data hs hi
      · have hsame : c.world.after i o.delivery = c.world := by
          cases i with
          | createTransfer data => exact if_neg fun happlied => hwrites ⟨data, rfl, happlied⟩
          | _ => rfl
        rw [hsame]
        refine iff_of_true hkept.once fun happlied s data _ hi' => ?_
        cases hi.symm.trans hi'
        exact absurd ⟨data, rfl, happlied⟩ hwrites

theorem step_kept (hkept : Kept svc c) (hgood : Good svc c e)
    (h : (system svc).step c e = some c') :
    Kept svc c' where
  disciplined := step_disciplined follows_program hkept.disciplined h
  once := hgood.once c' h
  noted := by
    cases e with
    | start j a =>
      obtain ⟨-, rfl⟩ := step_start.mp h
      exact hkept.noted
    | stop j =>
      obtain ⟨-, rfl⟩ := step_stop.mp h
      exact hkept.noted
    | outside d =>
      obtain ⟨w, hw, rfl⟩ := step_outside.mp h
      cases d with
      | transfer row =>
        obtain ⟨hnone, hw⟩ := Option.ite_none_right_eq_some.mp hw
        cases hw
        exact noted_append hkept.noted fun r hr => by rw [hnone] at hr; cases hr
      | _ =>
        cases hw
        exact hkept.noted
    | advance j o =>
      obtain ⟨s, i, k, ht, rfl⟩ := step_advance.mp h
      cases i with
      | createTransfer data =>
        change Noted (if o.delivery.applied then _ else _)
        split
        · obtain ⟨b, hearned, hunclaimed⟩ :=
            allowed_createTransfer hkept (stages_eq ht) (pending_eq ht)
          refine noted_append hkept.noted fun r hr => ?_
          cases hearned.reward.symm.trans hr
          exact hunclaimed.note
        · exact hkept.noted
      | _ => exact hkept.noted

/-- Along every run of claims, a household has one reward of a stage and a week at most, for a week
whose quests were there, exactly when every reward is recorded while the transfers are as its claim
has read them. -/
theorem rewards_once_iff (svc : Service) {w : World} (hnoted : Noted w) (honce : Once w)
    (es : List RaceEvent) :
    Along (system svc).step (Good svc) (quiescent w) es ↔
      Along (system svc).step AsRead (quiescent w) es := by
  have hstart : Kept svc (quiescent w) := ⟨fun j t ht => (by cases ht), hnoted, honce⟩
  constructor
  · exact along_strengthen (fun c e c' hkept hgood h => step_kept hkept hgood h)
      (fun c e hkept hgood => (good_iff hkept e).mp hgood) hstart
  · exact along_strengthen (fun c e c' hkept hread h =>
      step_kept hkept ((good_iff hkept e).mpr hread) h)
      (fun c e hkept hread => (good_iff hkept e).mpr hread) hstart

/-! ### Two devices -/

theorem lima_least : -86400000 ≤ (-18000000 : ℤ) := by decide

theorem lima_most : (-18000000 : ℤ) ≤ 86400000 := by decide

/-- The clock of Lima, and a `toUpperCase` for texts that have no other letters. -/
def lima : Service := ⟨⟨-18000000, lima_least, lima_most⟩, id⟩

theorem three_lt : 3 < 2 ^ 53 := by decide

/-- A household that has delivered plastic and glass this week, which completes five of the
quests. -/
def delivered : World where
  now := 1790000000000
  users := [⟨"household", .hogar, .approved, none⟩]
  requests := [⟨"household", 1789990000000, .completed, none, none,
    [("PLASTICO", DoubleRounding.Double.ofNat 3 three_lt),
      ("VIDRIO", DoubleRounding.Double.ofNat 3 three_lt)]⟩]
  redemptions := []
  transfers := []

def claiming (j : ℕ) : RaceEvent := .start j ⟨"household", .stage3⟩

def answered (j calls : ℕ) : List RaceEvent := List.replicate calls (.advance j ⟨.done, "transfer"⟩)

theorem rewards_once_delivered :
    Along (system lima).step (Good lima) (quiescent delivered) (claiming 0 :: answered 0 8) ↔
      Along (system lima).step AsRead (quiescent delivered) (claiming 0 :: answered 0 8) := by
  have hnoted : Noted delivered := fun _ ht => by cases ht
  have honce : Once delivered := fun _ _ _ => Nat.zero_le 1
  exact rewards_once_iff lima hnoted honce _

/-- Two devices that have both read the transfers before either reward is recorded. -/
def twoDevices : List RaceEvent :=
  claiming 0 :: claiming 1 :: answered 0 7 ++ answered 1 8 ++ answered 0 1

theorem reward_claimed_twice :
    ∃ c, run (system lima).step (quiescent delivered) twoDevices = some c ∧
    rewards c.world "household" .stage3 "2026-W39" = 2 ∧ ¬ Once c.world := by
  obtain ⟨c, hc⟩ := Option.isSome_iff_exists.mp
    (show (run (system lima).step (quiescent delivered) twoDevices).isSome = true by decide +kernel)
  have hcount : (run (system lima).step (quiescent delivered) twoDevices).map
      (fun c => rewards c.world "household" .stage3 "2026-W39") = some 2 := by decide +kernel
  rw [hc] at hcount
  have htwo : rewards c.world "household" .stage3 "2026-W39" = 2 := Option.some.inj hcount
  refine ⟨c, hc, htwo, fun honce => ?_⟩
  have hle := honce "household" .stage3 "2026-W39"
  omega

end Livora.ForestRaces
