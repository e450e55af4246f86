import Livora.ConfirmationLoops
import Livora.TransitionRuns

/-! A transaction of `sendTransaction` or `executeSubsidizedTransfer` between the service, the nodes
and the ledger. Attempts on the nodes may be lost with or without their request, the circuit breaker
may give up on attempts that go on, and the ledger applies a transaction once at most, and in its
time. -/

namespace Livora.Submissions

open ConfirmationLoops TransitionRuns

structure Service where
  simulation : String
  refusal : String
  failure : Status → Answer → String

def sendTransaction : Service where
  simulation := "La simulación de la transacción falló: "
  refusal := "Fallo al enviar la transacción: "
  failure := failedOrExpired

def executeSubsidizedTransfer : Service where
  simulation := "Simulation failed: "
  refusal := "Transaction submission error: "
  failure := failedOrExpired

inductive Phase where
  | simulating
  | sending
  /-- At the condition of the loop. -/
  | waiting (hash : String) (getTxResponse : Answer)
  | polling (hash : String)
  | returned (receipt : Receipt)
  | threw (message : String)
deriving DecidableEq

structure World where
  phase : Phase
  /-- Attempts go on that nobody waits for. -/
  background : Bool
  /-- A node has the transaction, or a request with it is on its way. -/
  held : Bool
  /-- The sequence number of the source account has been used, by whichever transaction. -/
  consumed : Bool
  failed : Bool
  applied : ℕ
  closeTime : ℕ

inductive Event where
  /-- The simulation is answered, or has failed with a text. -/
  | simulated (failure : Option String)
  /-- An attempt fails or runs out of time, and its request has reached the node or not. -/
  | lost (reaches : Bool)
  | answered (response : SendResponse)
  /-- The call of the RPC throws: all nodes have failed, or the circuit breaker has given up. -/
  | rpcThrew (message : String) (attemptsGoOn : Bool)
  | checked (elapsed : ℕ)
  | polled (answer : Answer)
  | ledgerClosed (time : ℕ)
  | included (successful : Bool)
  /-- Another transaction with the sequence number is included. -/
  | overtaken

variable (svc : Service) (maxTime : ℕ)

def Includable (w : World) : Bool := w.held && !w.consumed && decide (w.closeTime ≤ maxTime)

/-- A status is answered of a transaction that it is true of. -/
def truthful (w : World) : Status → Bool
  | .duplicate => w.held
  | .success => w.applied != 0
  | .failed => w.failed
  | _ => true

/-- What a submission answer makes of the world; `PENDING` means that the node has taken the
transaction. -/
def World.take (w : World) (status : Status) : World :=
  { w with held := w.held || status == .pending }

def World.settle (w : World) (result : Except String Receipt) : World :=
  { w with phase := match result with
    | .ok receipt => .returned receipt
    | .error message => .threw message }

section Settle

variable (w : World) (r : Except String Receipt)

@[simp, grind =] theorem settle_applied : (w.settle r).applied = w.applied := rfl

@[simp, grind =] theorem settle_failed : (w.settle r).failed = w.failed := rfl

@[simp, grind =] theorem settle_consumed : (w.settle r).consumed = w.consumed := rfl

@[simp, grind =] theorem settle_held : (w.settle r).held = w.held := rfl

end Settle

def step (w : World) : Event → Option World
  | .simulated failure =>
    match w.phase, failure with
    | .simulating, none => some { w with phase := .sending }
    | .simulating, some text => some { w with phase := .threw (svc.simulation ++ text) }
    | _, _ => none
  | .lost reaches =>
    match w.phase with
    | .sending => some { w with held := w.held || reaches }
    | .threw _ => if w.background then some { w with held := w.held || reaches } else none
    | _ => none
  | .answered response =>
    if truthful w response.answer.status then
      match w.phase with
      | .sending =>
        if response.answer.status = .error then
          some (w.settle (.error (svc.refusal ++ response.errorResult.getD response.answer.json)))
        else some { w.take response.answer.status with phase := .waiting response.hash response.answer }
      | .threw _ =>
        if w.background then some { w.take response.answer.status with background := false } else none
      | _ => none
    else none
  | .rpcThrew message attemptsGoOn =>
    match w.phase with
    | .sending => some { w with phase := .threw message, background := attemptsGoOn }
    | .polling _ => some { w with phase := .threw message }
    | _ => none
  | .checked elapsed =>
    match w.phase with
    | .waiting hash getTxResponse =>
      if goesOn untilFound getTxResponse elapsed then some { w with phase := .polling hash }
      else some (w.settle (result svc.failure hash getTxResponse))
    | _ => none
  | .polled answer =>
    match w.phase with
    | .polling hash =>
      if truthful w answer.status then some { w with phase := .waiting hash answer } else none
    | _ => none
  | .ledgerClosed time => some { w with closeTime := max w.closeTime time }
  | .included successful =>
    if Includable maxTime w then
      some { w with
        consumed := true
        failed := !successful
        applied := if successful then w.applied + 1 else w.applied }
    else none
  | .overtaken => if w.consumed then none else some { w with consumed := true }

def start (closeTime : ℕ) : World := ⟨.simulating, false, false, false, false, 0, closeTime⟩

/-! ### What is known of a verdict -/

/-- Thrown is never applied, and returned is applied once, in all that may follow. -/
def Sound (w : World) : Prop :=
  ∀ es w', run (step svc maxTime) w es = some w' →
    (∀ message, w.phase = .threw message → w'.applied = 0) ∧
      ∀ receipt, w.phase = .returned receipt → w'.applied = 1

/-- The transaction has been applied, or may still be. -/
def Open (w : World) : Prop :=
  w.applied ≠ 0 ∨
    w.consumed = false ∧ w.closeTime ≤ maxTime ∧ (w.held = true ∨ w.background = true)

/-- The call does not give up on an open transaction: neither when the RPC throws, nor on a refusal,
nor with a status that is neither success nor failure. -/
def Certain (w : World) : Event → Prop
  | .rpcThrew _ attemptsGoOn =>
    match w.phase with
    | .sending => ¬ Open maxTime { w with background := attemptsGoOn }
    | .polling _ => ¬ Open maxTime w
    | _ => True
  | .answered response =>
    w.phase = .sending → response.answer.status = .error → ¬ Open maxTime w
  | .checked elapsed =>
    match w.phase with
    | .waiting _ getTxResponse =>
      goesOn untilFound getTxResponse elapsed = false → getTxResponse.status ≠ .success →
        getTxResponse.status ≠ .failed → ¬ Open maxTime w
    | _ => True
  | _ => True

/-- What the ledger keeps of the transaction. -/
structure Counted (w : World) : Prop where
  once : w.applied ≤ 1
  used : w.applied ≠ 0 ∨ w.failed = true → w.consumed = true
  apart : w.failed = true → w.applied = 0
  taken : w.applied ≠ 0 ∨ w.failed = true → w.held = true

def Fits (w : World) : Prop :=
  match w.phase with
  | .simulating => w.held = false
  | .waiting _ answer =>
    (answer.status = .success → w.applied ≠ 0) ∧ (answer.status = .failed → w.failed = true)
  | .returned _ => w.applied ≠ 0
  | _ => True

structure Placed (w : World) : Prop where
  quiet : w.background = true → ∃ message, w.phase = .threw message
  fits : Fits w

variable {svc : Service} {maxTime : ℕ} {w w' : World} {e : Event}

theorem counted_step (hk : Counted w) (h : step svc maxTime w e = some w') : Counted w' := by
  obtain ⟨honce, hused, hapart, htaken⟩ := hk
  cases e with
  | included successful =>
    obtain ⟨hinc, hw⟩ := Option.ite_none_right_eq_some.mp h
    cases hw
    simp only [Includable, Bool.and_eq_true, Bool.not_eq_true', decide_eq_true_eq] at hinc
    have hzero : w.applied = 0 := by
      by_contra hne
      rw [hused (Or.inl hne)] at hinc
      exact absurd hinc.1.2 (by simp)
    refine ⟨?_, fun _ => rfl, fun hf => ?_, fun _ => hinc.1.1⟩
    · simp only [hzero]
      split <;> omega
    · simp only [Bool.not_eq_true'] at hf
      simp [hf, hzero]
  | simulated | lost | answered | rpcThrew | checked | polled | ledgerClosed | overtaken =>
    simp only [step] at h
    grind [Counted, World.take]

theorem truthful_told {status : Status} (h : truthful w status = true) :
    (status = .success → w.applied ≠ 0) ∧ (status = .failed → w.failed = true) := by
  constructor
  · rintro rfl
    simpa [truthful] using h
  · rintro rfl
    exact h

theorem fits_settle {failure : Status → Answer → String} {hash : String} {answer : Answer}
    (h : answer.status = .success → w.applied ≠ 0) :
    Fits (w.settle (result failure hash answer)) := by
  unfold result
  split
  · rename_i hs
    exact h hs
  · trivial

theorem Placed.not_background (hk : Placed w) (hno : ∀ message, w.phase ≠ .threw message) :
    w.background = false := by
  cases hb : w.background with
  | false => rfl
  | true =>
    obtain ⟨message, hthrew⟩ := hk.quiet hb
    exact absurd hthrew (hno message)

/-- A call in the foreground is placed by what its phase says. -/
theorem placed_of_fits (hb : w.background = false) (hfits : Fits w) : Placed w :=
  ⟨fun h => absurd (hb.symm.trans h) Bool.false_ne_true, hfits⟩

theorem placed_threw {message : String} (h : w.phase = .threw message) : Placed w := by
  refine ⟨fun _ => ⟨message, h⟩, ?_⟩
  simp only [Fits, h]

theorem placed_lost (hk : Placed w) {reaches : Bool}
    (h : step svc maxTime w (.lost reaches) = some w') :
    Placed w' := by
  simp only [step] at h
  split at h
  · rename_i hphase
    cases h
    exact placed_of_fits (hk.not_background (by simp [hphase])) (by simp only [Fits, hphase])
  · rename_i message hphase
    obtain ⟨-, hw⟩ := Option.ite_none_right_eq_some.mp h
    cases hw
    exact placed_threw hphase
  · cases h

theorem placed_answered (hk : Placed w) {response : SendResponse}
    (h : step svc maxTime w (.answered response) = some w') : Placed w' := by
  obtain ⟨htrue, h⟩ := Option.ite_none_right_eq_some.mp h
  split at h
  · rename_i hphase
    split at h <;> cases h
    · exact placed_threw rfl
    · have htold := truthful_told htrue
      exact placed_of_fits (hk.not_background (by simp [hphase])) htold
  · rename_i message hphase
    obtain ⟨-, hw⟩ := Option.ite_none_right_eq_some.mp h
    cases hw
    exact placed_threw hphase
  · cases h

theorem placed_checked (hk : Placed w) {elapsed : ℕ}
    (h : step svc maxTime w (.checked elapsed) = some w') : Placed w' := by
  simp only [step] at h
  split at h
  · rename_i hash answer hphase
    have hfits := hk.fits
    simp only [Fits, hphase] at hfits
    have hb := hk.not_background (by simp [hphase])
    split at h <;> cases h
    · exact placed_of_fits hb trivial
    · exact placed_of_fits hb (fits_settle hfits.1)
  · cases h

theorem fits_included (hc : Counted w) (hinc : Includable maxTime w = true) (successful : Bool)
    (hfits : Fits w) :
    Fits { w with
      consumed := true
      failed := !successful
      applied := if successful then w.applied + 1 else w.applied } := by
  simp only [Includable, Bool.and_eq_true, Bool.not_eq_true', decide_eq_true_eq] at hinc
  have hfresh : ¬ (w.applied ≠ 0 ∨ w.failed = true) := fun hu => by
    rw [hc.used hu] at hinc
    exact absurd hinc.1.2 (by simp)
  unfold Fits at hfits ⊢
  cases hphase : w.phase with
  | waiting hash answer =>
    simp only [hphase] at hfits ⊢
    exact ⟨fun hs => absurd (Or.inl (hfits.1 hs)) hfresh, fun hs =>
      absurd (Or.inr (hfits.2 hs)) hfresh⟩
  | returned receipt =>
    simp only [hphase] at hfits
    exact absurd (Or.inl hfits) hfresh
  | simulating => simpa only [hphase] using hfits
  | sending | polling | threw => trivial

theorem placed_step (hk : Placed w) (hc : Counted w) (h : step svc maxTime w e = some w') :
    Placed w' := by
  cases e with
  | simulated failure =>
    simp only [step] at h
    split at h <;> cases h
    · rename_i hphase
      exact placed_of_fits (hk.not_background (by simp [hphase])) trivial
    · exact placed_threw rfl
  | lost reaches => exact placed_lost hk h
  | answered response => exact placed_answered hk h
  | rpcThrew message attemptsGoOn =>
    simp only [step] at h
    split at h <;> cases h
    · exact placed_threw rfl
    · exact placed_threw rfl
  | checked elapsed => exact placed_checked hk h
  | polled answer =>
    simp only [step] at h
    split at h
    · rename_i hash hphase
      obtain ⟨htrue, hw⟩ := Option.ite_none_right_eq_some.mp h
      cases hw
      have htold := truthful_told htrue
      exact placed_of_fits (hk.not_background (by simp [hphase])) htold
    · cases h
  | ledgerClosed time =>
    cases h
    exact ⟨hk.quiet, hk.fits⟩
  | included successful =>
    obtain ⟨hinc, hw⟩ := Option.ite_none_right_eq_some.mp h
    cases hw
    exact ⟨hk.quiet, fits_included hc hinc successful hk.fits⟩
  | overtaken =>
    simp only [step] at h
    split at h <;> cases h
    exact ⟨hk.quiet, hk.fits⟩

def Shut (maxTime : ℕ) (w : World) : Prop :=
  (∃ message, w.phase = .threw message) ∧ ¬ Open maxTime w

theorem shut_step (hk : Shut maxTime w) (h : step svc maxTime w e = some w') : Shut maxTime w' := by
  obtain ⟨⟨message, hphase⟩, hshut⟩ := hk
  cases e with
  | included successful =>
    obtain ⟨hinc, hw⟩ := Option.ite_none_right_eq_some.mp h
    simp only [Includable, Bool.and_eq_true, Bool.not_eq_true', decide_eq_true_eq] at hinc
    exact absurd (Or.inr ⟨hinc.1.2, hinc.2, Or.inl hinc.1.1⟩) hshut
  | simulated | lost | answered | rpcThrew | checked | polled | ledgerClosed | overtaken =>
    simp only [step, hphase] at h
    grind [Shut, Open, World.take]

theorem included_of_includable (h : Includable maxTime w = true) :
    ∃ w', step svc maxTime w (.included true) = some w' ∧ w'.applied ≠ 0 :=
  ⟨_, if_pos h, Nat.succ_ne_zero w.applied⟩

theorem open_applied (hphase : ∃ message, w.phase = .threw message) (h : Open maxTime w) :
    ∃ es w', run (step svc maxTime) w es = some w' ∧ w'.applied ≠ 0 := by
  obtain ⟨message, hphase⟩ := hphase
  rcases h with happlied | ⟨hfresh, htime, hheld | hback⟩
  · exact ⟨[], w, rfl, happlied⟩
  · have hinc : Includable maxTime w = true := by simp [Includable, hheld, hfresh, htime]
    obtain ⟨w', hstep, happlied⟩ := included_of_includable hinc
    exact ⟨[.included true], w', run_cons.mpr ⟨w', hstep, rfl⟩, happlied⟩
  · have htaken : step svc maxTime w (.lost true) = some { w with held := true } := by
      simp [step, hphase, hback]
    have hinc : Includable maxTime { w with held := true } = true := by
      simp [Includable, hfresh, htime]
    obtain ⟨w', hstep, happlied⟩ := included_of_includable hinc
    exact ⟨[.lost true, .included true], w',
      run_cons.mpr ⟨_, htaken, run_cons.mpr ⟨w', hstep, rfl⟩⟩, happlied⟩

theorem shut_run {es : List Event} (h : Shut maxTime w)
    (hrun : run (step svc maxTime) w es = some w') :
    w'.applied = 0 := by
  have hshut := run_preserves (I := Shut maxTime) (fun _ _ _ => shut_step) h hrun
  by_contra hne
  exact hshut.2 (Or.inl hne)

theorem returned_step {receipt : Receipt} (hp : w.phase = .returned receipt)
    (h : step svc maxTime w e = some w') : w'.phase = .returned receipt := by
  cases e with
  | included successful =>
    obtain ⟨-, hw⟩ := Option.ite_none_right_eq_some.mp h
    cases hw
    exact hp
  | simulated | lost | answered | rpcThrew | checked | polled | ledgerClosed | overtaken =>
    simp only [step, hp] at h
    grind

theorem returned_run {es : List Event} {receipt : Receipt} (hc : Counted w) (hp : Placed w)
    (hphase : w.phase = .returned receipt) (hrun : run (step svc maxTime) w es = some w') :
    w'.applied = 1 := by
  obtain ⟨hc', hp', hphase'⟩ := run_preserves
    (I := fun w => Counted w ∧ Placed w ∧ w.phase = .returned receipt)
    (fun _ _ _ hI h => ⟨counted_step hI.1 h, placed_step hI.2.1 hI.1 h, returned_step hI.2.2 h⟩)
    ⟨hc, hp, hphase⟩ hrun
  have hne := hp'.fits
  simp only [Fits, hphase'] at hne
  have hle := hc'.once
  omega

def Closed (maxTime : ℕ) (w : World) : Prop :=
  (∃ message, w.phase = .threw message) → ¬ Open maxTime w

theorem sound_iff (hc : Counted w) (hp : Placed w) : Sound svc maxTime w ↔ Closed maxTime w := by
  constructor
  · intro hsound hphase hopen
    obtain ⟨es, w', hrun, happlied⟩ := open_applied hphase hopen
    obtain ⟨message, hphase⟩ := hphase
    exact happlied ((hsound es w' hrun).1 message hphase)
  · intro hclosed es w' hrun
    exact ⟨fun message hphase => shut_run ⟨⟨message, hphase⟩, hclosed ⟨message, hphase⟩⟩ hrun,
      fun receipt hphase => returned_run hc hp hphase hrun⟩

theorem closed_step (hc : Counted w) (hp : Placed w) (hk : Closed maxTime w)
    (hcert : Certain maxTime w e) (h : step svc maxTime w e = some w') : Closed maxTime w' := by
  intro hthrew
  by_cases hbefore : ∃ message, w.phase = .threw message
  · exact (shut_step ⟨hbefore, hk hbefore⟩ h).2
  · obtain ⟨message', hthrew⟩ := hthrew
    cases e with
    | simulated failure =>
      simp only [step] at h
      split at h <;> cases h
      · cases hthrew
      · rename_i text hphase
        have hfits := hp.fits
        simp only [Fits, hphase] at hfits
        rintro (happlied | ⟨-, -, hheld | hback⟩)
        · rw [hc.taken (Or.inl happlied)] at hfits
          cases hfits
        · rw [hfits] at hheld
          cases hheld
        · exact hbefore (hp.quiet hback)
    | lost reaches =>
      simp only [step] at h
      split at h
      · rename_i hphase
        cases h
        rw [hphase] at hthrew
        cases hthrew
      · rename_i message hphase
        exact absurd ⟨message, hphase⟩ hbefore
      · cases h
    | answered response =>
      obtain ⟨-, h⟩ := Option.ite_none_right_eq_some.mp h
      split at h
      · rename_i hphase
        split at h <;> cases h
        · rename_i herror
          exact hcert hphase herror
        · cases hthrew
      · rename_i message hphase
        exact absurd ⟨message, hphase⟩ hbefore
      · cases h
    | rpcThrew message attemptsGoOn =>
      simp only [step] at h
      unfold Certain at hcert
      split at h <;> cases h
      all_goals
        rename_i hphase
        simp only [hphase] at hcert
        exact hcert
    | checked elapsed =>
      simp only [step] at h
      split at h
      · rename_i hash answer hphase
        simp only [Certain, hphase] at hcert
        have hfits := hp.fits
        simp only [Fits, hphase] at hfits
        split at h <;> cases h
        · cases hthrew
        · rename_i hstops
          by_cases hsuccess : answer.status = .success
          · simp [result, hsuccess, World.settle] at hthrew
          · by_cases hfailed : answer.status = .failed
            · have hf := hfits.2 hfailed
              rintro (happlied | ⟨hfresh, -⟩)
              · exact happlied (hc.apart hf)
              · rw [settle_consumed, hc.used (Or.inr hf)] at hfresh
                cases hfresh
            · exact hcert (Bool.eq_false_iff.mpr hstops) hsuccess hfailed
      · cases h
    | polled answer =>
      simp only [step] at h
      split at h
      · obtain ⟨-, hw⟩ := Option.ite_none_right_eq_some.mp h
        cases hw
        cases hthrew
      · cases h
    | ledgerClosed time =>
      cases h
      exact absurd ⟨message', hthrew⟩ hbefore
    | included successful =>
      obtain ⟨-, hw⟩ := Option.ite_none_right_eq_some.mp h
      cases hw
      exact absurd ⟨message', hthrew⟩ hbefore
    | overtaken =>
      simp only [step] at h
      split at h <;> cases h
      exact absurd ⟨message', hthrew⟩ hbefore

theorem uncertain_throws (h : ¬ Certain maxTime w e) :
    ∃ w', step svc maxTime w e = some w' ∧ ¬ Closed maxTime w' := by
  cases e with
  | rpcThrew message attemptsGoOn =>
    simp only [Certain] at h
    split at h
    · rename_i hphase
      refine ⟨{ w with phase := .threw message, background := attemptsGoOn }, ?_, fun hclosed => ?_⟩
      · simp only [step, hphase]
      · exact h (hclosed ⟨message, rfl⟩)
    · rename_i hash hphase
      refine ⟨{ w with phase := .threw message }, ?_, fun hclosed => ?_⟩
      · simp only [step, hphase]
      · exact h (hclosed ⟨message, rfl⟩)
    · exact absurd trivial h
  | answered response =>
    simp only [Certain, Classical.not_imp] at h
    obtain ⟨hphase, herror, hopen⟩ := h
    have hstep : step svc maxTime w (.answered response) = some (w.settle
        (.error (svc.refusal ++ response.errorResult.getD response.answer.json))) := by
      simp [step, truthful, hphase, herror]
    exact ⟨_, hstep, fun hclosed => hopen (hclosed ⟨_, rfl⟩)⟩
  | checked elapsed =>
    simp only [Certain] at h
    split at h
    · rename_i hash answer hphase
      simp only [Classical.not_imp] at h
      obtain ⟨hstops, hsuccess, -, hopen⟩ := h
      have hstep : step svc maxTime w (.checked elapsed) =
          some (w.settle (.error (svc.failure answer.status answer))) := by
        simp [step, hphase, hstops, result, hsuccess]
      exact ⟨_, hstep, fun hclosed => hopen (hclosed ⟨_, rfl⟩)⟩
    · exact absurd trivial h
  | simulated | lost | polled | ledgerClosed | included | overtaken => exact absurd trivial h

theorem placed_start (closeTime : ℕ) : Counted (start closeTime) ∧ Placed (start closeTime) ∧
    Closed maxTime (start closeTime) := by
  refine ⟨⟨Nat.zero_le 1, ?_, fun _ => rfl, ?_⟩, ⟨?_, rfl⟩, ?_⟩
  · simp [start]
  · simp [start]
  · simp [start]
  · simp [Closed, start]

/-- In every run the verdicts are sound, whatever the ledger does later, exactly when the call never
gives up on a transaction that is in the ledger or may still get there. -/
theorem verdicts_sound_iff (svc : Service) (maxTime closeTime : ℕ) (es : List Event) :
    (∀ p w, p <+: es → run (step svc maxTime) (start closeTime) p = some w → Sound svc maxTime w) ↔
      Along (step svc maxTime) (Certain maxTime) (start closeTime) es := by
  have hkept : ∀ p w, run (step svc maxTime) (start closeTime) p = some w → Counted w ∧
      Placed w := by
    obtain ⟨hc, hp, -⟩ : _ ∧ _ ∧ Closed maxTime _ := placed_start closeTime
    exact fun p w => run_preserves (I := fun w => Counted w ∧ Placed w)
      (fun _ _ _ hI h => ⟨counted_step hI.1 h, placed_step hI.2 hI.1 h⟩) ⟨hc, hp⟩
  constructor
  · intro hsound
    refine along_iff.mpr fun p e q w hsplit hrun => ?_
    by_contra huncertain
    obtain ⟨w', hstep, hopen⟩ : ∃ w', step svc maxTime w e = some w' ∧ _ :=
      uncertain_throws huncertain
    have hrun' : run (step svc maxTime) (start closeTime) (p ++ [e]) = some w' :=
      run_append.mpr ⟨w, hrun, run_cons.mpr ⟨w', hstep, rfl⟩⟩
    obtain ⟨hc, hp⟩ := hkept _ _ hrun'
    exact hopen ((sound_iff hc hp).mp (hsound (p ++ [e]) w' ⟨q, by rw [hsplit]; simp⟩ hrun'))
  · rintro hcertain p w ⟨q, rfl⟩ hrun
    obtain ⟨hc, hp⟩ := hkept _ _ hrun
    refine (sound_iff hc hp).mpr ?_
    exact (run_invariant (I := fun w => Counted w ∧ Placed w ∧ Closed maxTime w)
      (fun _ _ _ hI hcert h => ⟨counted_step hI.1 h, placed_step hI.2.1 hI.1 h,
        closed_step hI.1 hI.2.1 hI.2.2 hcert h⟩)
      (placed_start closeTime) (along_append hcertain).1 hrun).2.2

def submitted (status : Status) : SendResponse := ⟨"hash", ⟨status, none, "submitted"⟩, none⟩

/-- A subsidised transfer that is given up after half a minute, with five minutes to be applied in;
and a transaction that is applied while its poll fails. -/
theorem verdicts_unsound :
    (∃ message w, run (step executeSubsidizedTransfer 300) (start 0)
      [.simulated none, .answered (submitted .pending), .checked 0,
        .polled ⟨.notFound, none, "not found"⟩,
        .ledgerClosed 31, .checked 31000, .included true] = some w ∧
      w.phase = .threw message ∧ w.applied = 1) ∧
    ∃ message w, run (step sendTransaction 30) (start 0)
      [.simulated none, .answered (submitted .pending), .checked 0, .ledgerClosed 5, .included true,
        .rpcThrew "Todos los nodos RPC de Soroban fallaron" false] = some w ∧
      w.phase = .threw message ∧ w.applied = 1 :=
  ⟨⟨_, _, rfl, rfl, rfl⟩, ⟨_, _, rfl, rfl, rfl⟩⟩

end Livora.Submissions
