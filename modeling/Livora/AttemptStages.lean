import Livora.NamedPools
import Livora.VerificationRaces

/-! How far a call of `verifyPin` is with its PIN, where there is Redis: which of the counter, the
cached PIN and the lock it may touch at each phase, and that it pays and completes only after a
right PIN and with weights that pass. -/

namespace Livora.AttemptStages

open EffectPrograms EffectPrograms.Action NamedPools RewardStrategies PinVerification VerificationStages
open VerificationRaces (Caller)

inductive Phase where
  | waiting
  | entered
  | reading (row : CollectionRequest)
  /-- The counter was read, and is not at the limit. -/
  | admitted (row : CollectionRequest)
  | wrong
  /-- The counter was read again, and this is to be written. -/
  | counting (count : ℕ)
  | right
  /-- Nothing is left but to give the lock back. -/
  | refused
  | over
deriving DecidableEq

namespace Phase

def inside : Phase → Bool
  | .waiting => false
  | .over => false
  | _ => true

def striking : Phase → Bool
  | .wrong => true
  | .counting _ => true
  | _ => false

/-- The call has not read the counter, or goes by it no more. -/
def idle : Phase → Bool
  | .admitted _ => false
  | .wrong => false
  | .counting _ => false
  | .right => false
  | _ => true

def afterCounter : Phase → Phase
  | .reading row => .admitted row
  | s => s

def compare (pin : String) (cachedPin : Option String) : Phase → Phase
  | .admitted row => if expectedPin row cachedPin = pin then .right else .wrong
  | s => s

def Leaves (s : Phase) : Prop := s.inside = true ∧ s.striking = false

end Phase

def WeightsPass (dto : VerifyPinDto) : Prop := dto.actualWeights.findSome? weightFailure = none

def Allowed (dto : VerifyPinDto) (s : Phase) : Op → Prop
  | .acquireLock => s = .waiting
  | .readRequest => s = .entered
  | .getAttempts => ∃ row, s = .reading row
  | .getCachedPin => ∃ row, s = .admitted row
  | .getAttemptsAgain => s = .wrong
  | .setAttempts count => s = .counting count
  | .deleteCachedPin => s = .right
  | .deleteAttempts => s = .right
  | .releaseLock => s.Leaves
  | _ => s = .right ∧ WeightsPass dto

def next (pin : String) (s : Phase) (i : Op) (r : Except Failure (Reply i)) : Phase :=
  match i, r with
  | .acquireLock, .ok true => .entered
  | .acquireLock, _ => .over
  | .readRequest, .ok (some row) => .reading row
  | .readRequest, _ => .refused
  | .getAttempts, .ok attempts => if 5 ≤ attempts.getD 0 then .refused else s.afterCounter
  | .getAttempts, .error _ => .refused
  | .getCachedPin, .ok cachedPin => s.compare pin cachedPin
  | .getCachedPin, .error _ => .refused
  | .getAttemptsAgain, .ok rawAttempts => .counting (rawAttempts.getD 0 + 1)
  | .getAttemptsAgain, .error _ => .refused
  | .setAttempts _, _ => .refused
  | .releaseLock, _ => .over
  | _, _ => s

def attempting : Protocol Phase (Caller × Op) fun i => Except Failure (Reply i.2) where
  Allowed s i := Allowed i.1.dto s i.2
  next s i r := next i.1.dto.pin s i.2 r

/-! ### The calls after the checks -/

def Settling : Op → Prop
  | .findVault _ _ => True
  | .getBalance _ _ => True
  | .pay _ => True
  | i => Closing i

theorem settling_of_closing (i : Op) (h : Closing i) : Settling i := by
  cases i <;> first
    | exact h
    | exact trivial

section Settling

variable {svc : Service}

theorem only_payHousehold (row : CollectionRequest) (hogarAmount : ℚ) :
    Only Settling (payHousehold svc row hogarAmount) := by
  unfold payHousehold
  split
  · refine only_bind (only_findVault (fun _ => trivial) _) fun collectorVault => ?_
    refine only_bind (only_collectorTransfer (fun _ => trivial) (fun _ _ _ => trivial) _ _ _)
      fun transferred => ?_
    split
    · exact only_pure _
    · exact only_recover (only_perform trivial)
  · exact only_pure _

theorem only_settle (row : CollectionRequest) (collectorId : String) (actualWeights : NumberRecord)
    (calculation : RewardCalculation) :
    Only Settling (settle svc row collectorId actualWeights calculation) := by
  refine only_bind (only_payHousehold row _) fun txHash => ?_
  refine only_bind (only_payTreasury (fun _ => trivial) (fun _ => trivial) (fun _ _ _ =>
    trivial) row _)
    fun _ => ?_
  exact (only_closing row collectorId actualWeights calculation txHash).mono settling_of_closing

end Settling

/-! ### The phases of a call -/

section Phases

variable {svc : Service} {caller : Caller}

theorem leaves_of_settle (hweights : WeightsPass caller.dto) (row : CollectionRequest)
    (collectorId : String) (actualWeights : NumberRecord) (calculation : RewardCalculation) :
    Obeys (under attempting caller) (fun t _ => t.Leaves) .right
      (settle svc row collectorId actualWeights calculation) := by
  have hobeys : Obeys (under attempting caller) (fun t _ => t = .right) .right
      (settle svc row collectorId actualWeights calculation) := by
    refine (only_settle row collectorId actualWeights calculation).obeys fun i hi => ?_
    cases i <;> first
      | exact ⟨⟨rfl, hweights⟩, fun r => rfl⟩
      | exact False.elim hi
  refine hobeys.mono ?_ ?_
  all_goals
    rintro t _ rfl
    exact ⟨rfl, rfl⟩

theorem obeys_clearCounters :
    Obeys (under attempting caller) (fun t _ => t = .right) .right (clearCounters svc) := by
  have hdelete : ∀ {i : Op} {fallback : Reply i}, Allowed caller.dto .right i →
      (∀ r, next caller.dto.pin .right i r = .right) → Obeys (under attempting caller)
        (fun t _ => t = .right) .right (recover (call i) fallback) :=
    fun hallowed hnext =>
      obeys_recover.mpr (obeys_perform.mpr ⟨hallowed, fun _ => hnext _, fun _ => hnext _⟩)
  unfold clearCounters
  split
  · refine obeys_bind.mpr ((hdelete (i := .deleteCachedPin) rfl fun _ => rfl).mono ?_ fun _ _ ht =>
      ht)
    rintro t _ rfl
    exact hdelete (i := .deleteAttempts) rfl fun _ => rfl
  · rfl

theorem obeys_rejectPin (hredis : svc.redis = true) :
    Obeys (under attempting caller) (fun t x => t.Leaves ∧ x ≠ .ok ()) .wrong (rejectPin svc) := by
  unfold rejectPin
  rw [if_pos hredis]
  refine obeys_call.mpr ⟨rfl, fun rawAttempts => ?_, fun e => ⟨⟨rfl, rfl⟩, nofun⟩⟩
  refine obeys_call.mpr ⟨rfl, fun _ => ?_, fun e => ⟨⟨rfl, rfl⟩, nofun⟩⟩
  split
  · exact ⟨⟨rfl, rfl⟩, nofun⟩
  · exact ⟨⟨rfl, rfl⟩, nofun⟩

theorem obeys_pinMatchStep (hredis : svc.redis = true) (row : CollectionRequest) :
    Obeys (under attempting caller) (fun t x => t.Leaves ∧ (x = .ok () → t = .right))
    (.admitted row)
      (pinMatchStep svc row caller.dto.pin) := by
  unfold pinMatchStep getCachedPin
  rw [if_pos hredis]
  refine obeys_call.mpr ⟨⟨row, rfl⟩, fun cachedPin => ?_, fun e => ⟨⟨rfl, rfl⟩, nofun⟩⟩
  change Obeys _ _ (if expectedPin row cachedPin = caller.dto.pin then Phase.right else .wrong) _
  split
  · refine obeys_clearCounters.mono ?_ ?_
    all_goals
      rintro t _ rfl
      exact ⟨⟨rfl, rfl⟩, fun _ => rfl⟩
  · exact (obeys_rejectPin hredis).mono (fun _ _ ht => ⟨ht.1, fun h => absurd h ht.2⟩)
      fun _ _ ht => ⟨ht.1, nofun⟩

theorem obeys_check {β : Type} {Q : Phase → Except Failure β → Prop} {s : Phase} {c : Prop}
    [Decidable c] {e : Failure} {f : Unit → Verification β} (herror : Q s (.error e))
    (hf : Obeys (under attempting caller) Q s (f ())) :
    Obeys (under attempting caller) Q s ((if c then pure () else throw e) >>= f) := by
  by_cases hc : c
  · rw [if_pos hc]
    exact hf
  · rw [if_neg hc]
    exact herror

theorem obeys_pinVerificationChain (hredis : svc.redis = true) (row : CollectionRequest) :
    Obeys (under attempting caller)
      (fun t x => t.Leaves ∧ (x = .ok () → t = .right ∧ WeightsPass caller.dto)) (.reading row)
      (pinVerificationChain svc row caller.collectorId caller.dto) := by
  refine obeys_check ⟨⟨rfl, rfl⟩, nofun⟩ (obeys_check ⟨⟨rfl, rfl⟩, nofun⟩ ?_)
  unfold bruteForceProtectionStep
  rw [if_pos hredis]
  refine obeys_bind.mpr
    (obeys_call.mpr ⟨⟨row, rfl⟩, fun attempts => ?_, fun e => ⟨⟨rfl, rfl⟩, nofun⟩⟩)
  change Obeys _ _ (if 5 ≤ attempts.getD 0 then Phase.refused else .admitted row) _
  split
  · exact ⟨⟨rfl, rfl⟩, nofun⟩
  refine obeys_bind.mpr ((obeys_pinMatchStep hredis row).mono ?_ fun t e ht => ⟨ht.1, nofun⟩)
  rintro t _ ⟨-, hright⟩
  obtain rfl := hright rfl
  change Obeys (under attempting caller) _ .right (weightValidationStep caller.dto.actualWeights)
  unfold weightValidationStep
  split
  · exact ⟨⟨rfl, rfl⟩, nofun⟩
  · rename_i hweights
    exact ⟨⟨rfl, rfl⟩, fun _ => ⟨rfl, hweights⟩⟩

theorem obeys_openRequest (hredis : svc.redis = true) :
    Obeys (under attempting caller)
      (fun t x => t.Leaves ∧ ∀ row, x = .ok row → t = .right ∧ WeightsPass caller.dto) .entered
      (openRequest svc caller.collectorId caller.dto) := by
  refine obeys_call.mpr ⟨rfl, fun found => ?_, fun e => ⟨⟨rfl, rfl⟩, fun row h => by cases h⟩⟩
  cases found with
  | none => exact ⟨⟨rfl, rfl⟩, fun row h => by cases h⟩
  | some row =>
    refine obeys_bind.mpr ((obeys_pinVerificationChain hredis row).mono ?_ ?_)
    · rintro t _ ⟨hleaves, hpassed⟩
      dsimp only
      split
      · exact ⟨hleaves, fun row h => by cases h⟩
      · exact ⟨hleaves, fun _ _ => hpassed rfl⟩
    · rintro t e ⟨hleaves, -⟩
      exact ⟨hleaves, fun row h => by cases h⟩

theorem follows_verifyPin (hredis : svc.redis = true) :
    Follows (under attempting caller) .waiting (verifyPin svc caller.collectorId caller.dto) := by
  have hbody : Obeys (under attempting caller) (fun t _ => t.Leaves) .entered (do
      let row ← openRequest svc caller.collectorId caller.dto
      settle svc row caller.collectorId (weightsOf row caller.dto)
        (rewardOf svc row caller.dto)) := by
    refine obeys_bind.mpr ((obeys_openRequest hredis).mono ?_ fun _ _ ht => ht.1)
    rintro t row ⟨-, hpassed⟩
    obtain ⟨rfl, hweights⟩ := hpassed row rfl
    exact leaves_of_settle hweights row _ _ _
  have hrelease : ∀ t : Phase, t.Leaves →
      Follows (under attempting caller) t (releaseLock svc) := by
    intro t ht
    unfold releaseLock
    rw [if_pos hredis]
    exact follows_perform ht
  unfold verifyPin acquireLock
  rw [if_pos hredis]
  refine obeys_bind.mpr (obeys_call.mpr ⟨rfl, fun acquired => ?_, fun _ => trivial⟩)
  cases acquired with
  | false => trivial
  | true =>
    refine obeys_ensuring.mpr (hbody.mono ?_ ?_)
    all_goals
      intro t x ht
      exact (hrelease t ht).mono (fun _ _ _ => trivial) fun _ _ _ => trivial

theorem keeps_verifyPin (hredis : svc.redis = true) (caller : Caller) :
    Keeps attempting (fun _ _ => True) .waiting
      (inName caller (verifyPin svc caller.collectorId caller.dto).run) :=
  (keeps_inName (ρ := fun i => Except Failure (Reply i)) (Q := fun _ _ => True)).mpr
    (follows_verifyPin hredis)

end Phases

end Livora.AttemptStages
