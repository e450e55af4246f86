import Livora.ProgramPools
import Livora.VerificationStages

/-! Any number of `verifyPin` calls on one request, in any order of their steps.
Between the steps the lock may expire, a process may stop, other operations may
change the rows, and a payment in flight is applied or dropped. The property is
that the household is credited at most once. -/

namespace Livora.VerificationRaces

open TransitionRuns EffectPrograms ProgramPools ProgramPools.System RewardStrategies
open PinVerification VerificationStages

structure Caller where
  collectorId : String
  dto : VerifyPinDto

inductive Outside where
  | expireLock
  | amend (store : Store)
  /-- The `n`-th submission, still in flight, is applied or dropped. -/
  | resolve (n : ℕ) (applies : Bool)

def outside (w : World) : Outside → Option World
  | .expireLock => if w.lock then some { w with lock := false } else none
  | .amend store => some { w with store := store }
  | .resolve n applies =>
    match w.chain[n]? with
    | some ⟨payment, false⟩ =>
      some { w with chain := if applies then w.chain.set n ⟨payment, true⟩ else w.chain.eraseIdx n }
    | _ => none

def system (svc : Service) : System Caller World Outcome Outside Stage Op
    (fun i => Except Failure (Reply i)) (Except Failure (Option CollectionRequest)) where
  program caller := (verifyPin svc caller.collectorId caller.dto).run
  serve := World.serve
  outside := outside
  protocol := protocol svc
  first := .first

abbrev Race := Pool World (Task Stage Op (fun i => Except Failure (Reply i))
  (Except Failure (Option CollectionRequest)))

abbrev RaceEvent := Event Caller Outcome Outside

/-- Nothing has been paid for the request and no call is running. -/
def quiescent (store : Store) (lock : Bool) : Race := ⟨⟨store, lock, []⟩, fun _ => none⟩

def credits (w : World) : ℕ := w.chain.countP fun s => s.payment.toHousehold && s.applied

/-- The credits of the household that are applied or still in flight. -/
def standing (w : World) : ℕ := w.chain.countP fun s => s.payment.toHousehold

theorem credits_le_standing (w : World) : credits w ≤ standing w :=
  List.countP_mono_left fun s _ h => by
    rw [Bool.and_eq_true] at h
    exact h.1

/-! ### What a step does to the payments -/

def credited (i : Op) (d : Delivery) : ℕ :=
  match i with
  | .pay payment => if payment.toHousehold && d.standing then 1 else 0
  | _ => 0

theorem complete_chain (w : World) (d : Delivery) (batchId : Option String)
    (weights : NumberRecord) : (w.complete d batchId weights).2.chain = w.chain := by
  unfold World.complete World.update
  repeat' split
  all_goals rfl

theorem standing_serve (w : World) (i : Op) (o : Outcome) :
    standing (w.serve i o).2 = standing w + credited i o.delivery := by
  cases i with
  | pay payment =>
    unfold World.serve World.submit credited standing
    cases o.delivery.standing <;> cases h : payment.toHousehold <;> simp [h]
  | completeRequest batchId weights reward hash =>
    exact congrArg (List.countP _) (complete_chain w _ batchId weights)
  | setAttempts count => unfold World.serve World.update; split <;> rfl
  | deleteCachedPin => unfold World.serve World.update; split <;> rfl
  | deleteAttempts => unfold World.serve World.update; split <;> rfl
  | createOpenBatch collectorId centerId => unfold World.serve World.update; split <;> rfl
  | acquireLock => unfold World.serve World.setLock; split <;> rfl
  | releaseLock => unfold World.serve World.setLock; split <;> rfl
  | _ => rfl

theorem standing_outside {w w' : World} {d : Outside} (h : outside w d = some w') :
    standing w' ≤ standing w := by
  cases d with
  | expireLock =>
    simp only [outside] at h
    split at h
    · cases h
      exact le_rfl
    · cases h
  | amend store =>
    cases h
    exact le_rfl
  | resolve n applies =>
    simp only [outside] at h
    split at h
    · rename_i payment hn
      cases h
      cases applies with
      | true =>
        obtain ⟨hlt, hget⟩ := List.getElem?_eq_some_iff.mp hn
        have hcounted : payment.toHousehold = true → 0 < standing w := fun hp =>
          List.countP_pos_iff.mpr ⟨_, List.mem_of_getElem? hn, hp⟩
        simp only [standing, if_true, List.countP_set hlt, hget] at hcounted ⊢
        split
        · have := hcounted ‹_›
          omega
        · omega
      | false => exact (List.eraseIdx_sublist _ n).countP_le
    · cases h

/-! ### The calls that keep the credit single -/

def NobodyPays (st : ℕ → Option Stage) : Prop :=
  ∀ j s, st j = some s → s.household ≠ .paying

/-- A call sets out to pay only when no other call does and nothing has been paid, and a transfer
reported as failed is not applied later. -/
def SafeCall (w : World) (st : ℕ → Option Stage) (i : Op) (o : Outcome) : Prop :=
  match i with
  | .findVault .household _ => o.delivery = .done → NobodyPays st ∧ standing w = 0
  | .pay (.transfer .household _ _ _) => o.delivery ≠ .lost ∧ o.delivery ≠ .pending
  | _ => True

def Safe (c : Race) : RaceEvent → Prop
  | .advance j o => ∀ i, pending c j = some i → SafeCall c.world (stages c) i o
  | _ => True

/-- One call pays at a time, none after a credit, and there is one credit at most. -/
structure CreditedOnce (w : World) (st : ℕ → Option Stage) : Prop where
  payer : ∀ i j s t, st i = some s → st j = some t → s.household = .paying →
    t.household = .paying → i = j
  unpaid : ∀ j s, st j = some s → s.household = .paying → standing w = 0
  single : standing w ≤ 1

variable {svc : Service} {w w' : World} {st : ℕ → Option Stage} {j : ℕ}

theorem CreditedOnce.quit (h : CreditedOnce w st) {t : Option Stage}
    (ht : ∀ s, t = some s → s.household ≠ .paying)
    (hrest : ∀ i s, i ≠ j → st i = some s → s.household = .paying → standing w' = 0)
    (hsingle : standing w' ≤ 1) : CreditedOnce w' (Function.update st j t) := by
  have hold : ∀ i s, Function.update st j t i = some s → s.household = .paying →
      i ≠ j ∧ st i = some s := by
    intro i s hs hpaying
    by_cases hij : i = j
    · subst hij
      rw [Function.update_self] at hs
      exact absurd hpaying (ht s hs)
    · rw [Function.update_of_ne hij] at hs
      exact ⟨hij, hs⟩
  constructor
  · intro i k s u hs hu hps hpu
    exact h.payer i k s u (hold i s hs hps).2 (hold k u hu hpu).2 hps hpu
  · intro i s hs hpaying
    obtain ⟨hij, hs⟩ := hold i s hs hpaying
    exact hrest i s hij hs hpaying
  · exact hsingle

theorem CreditedOnce.keep (h : CreditedOnce w st) {s t : Stage} (hj : st j = some s)
    (hstage : t.household = s.household) (hw : standing w' = standing w) :
    CreditedOnce w' (Function.update st j (some t)) := by
  have hold : ∀ i u, Function.update st j (some t) i = some u → u.household = .paying →
      ∃ u', st i = some u' ∧ u'.household = .paying := by
    intro i u hu hpaying
    by_cases hij : i = j
    · subst hij
      rw [Function.update_self] at hu
      cases hu
      exact ⟨s, hj, hstage ▸ hpaying⟩
    · rw [Function.update_of_ne hij] at hu
      exact ⟨u, hu, hpaying⟩
  constructor
  · intro i k u v hu hv hpu hpv
    obtain ⟨u', hu', hpu'⟩ := hold i u hu hpu
    obtain ⟨v', hv', hpv'⟩ := hold k v hv hpv
    exact h.payer i k u' v' hu' hv' hpu' hpv'
  · intro i u hu hpaying
    obtain ⟨u', hu', hpu'⟩ := hold i u hu hpaying
    exact hw.trans (h.unpaid i u' hu' hpu')
  · exact hw ▸ h.single

theorem CreditedOnce.setOut (hnobody : NobodyPays st) (hw : standing w' = 0) {t : Stage} :
    CreditedOnce w' (Function.update st j (some t)) := by
  have hself : ∀ i s, Function.update st j (some t) i = some s → s.household = .paying → i = j := by
    intro i s hs hpaying
    by_contra hij
    rw [Function.update_of_ne hij] at hs
    exact hnobody i s hs hpaying
  constructor
  · intro i k s u hs hu hps hpu
    exact (hself i s hs hps).trans (hself k u hu hpu).symm
  · exact fun _ _ _ _ => hw
  · omega

theorem CreditedOnce.pay (h : CreditedOnce w st) {s t : Stage} (hj : st j = some s)
    (hpaying : s.household = .paying) (hsettled : t.household ≠ .paying)
    (hw : standing w' ≤ standing w + 1) : CreditedOnce w' (Function.update st j (some t)) := by
  have hzero := h.unpaid j s hj hpaying
  refine h.quit (fun u hu => ?_) (fun i u hij hu hpu => ?_) (by omega)
  · cases hu
    exact hsettled
  · exact absurd (h.payer i j u s hu hj hpu hpaying) hij

theorem next_household {s : Stage} {i : Op} {r : Except Failure (Reply i)}
    (hvault : ∀ userId, i ≠ .findVault .household userId)
    (hpay : ∀ payment, i = .pay payment → payment.toHousehold = false) :
    (next s i r).household = s.household := by
  unfold next
  split
  · rfl
  · exact absurd rfl (hvault _)
  · exact absurd rfl (hvault _)
  · cases hpay _ rfl
  · cases hpay _ rfl
  · rfl
  · rfl

theorem credited_eq_zero {i : Op} {d : Delivery}
    (hpay : ∀ payment, i = .pay payment → payment.toHousehold = false) : credited i d = 0 := by
  cases i with
  | pay payment => rw [credited, hpay payment rfl]; rfl
  | _ => rfl

theorem credited_le_one (i : Op) (d : Delivery) : credited i d ≤ 1 := by
  cases i with
  | pay payment =>
    simp only [credited]
    split <;> omega
  | _ => exact Nat.zero_le 1

theorem findVault_creditedOnce {o : Outcome} {s : Stage} {userId : String}
    (h : CreditedOnce w st) (hsafe : o.delivery = .done → NobodyPays st ∧ standing w = 0) :
    CreditedOnce (w.serve (.findVault .household userId) o).2 (Function.update st j
      (some (next s (.findVault .household userId)
        (w.serve (.findVault .household userId) o).1))) := by
  by_cases hdone : o.delivery = .done
  · obtain ⟨hnobody, hzero⟩ := hsafe hdone
    exact CreditedOnce.setOut hnobody hzero
  · have hreply : (w.serve (.findVault .household userId) o).1 = .error .outside := if_neg hdone
    rw [hreply]
    refine h.quit (fun u hu => ?_) (fun i u _ hu hpu => h.unpaid i u hu hpu) h.single
    cases hu
    nofun

theorem transfer_creditedOnce {o : Outcome} {s : Stage} {account target : String} {amount : ℚ}
    (h : CreditedOnce w st) (hj : st j = some s) (hpaying : s.household = .paying)
    (hsafe : o.delivery ≠ .lost ∧ o.delivery ≠ .pending) :
    CreditedOnce (w.serve (.pay (.transfer .household account target amount)) o).2
      (Function.update st j (some (next s (.pay (.transfer .household account target amount))
        (w.serve (.pay (.transfer .household account target amount)) o).1))) := by
  have hw := standing_serve w (.pay (.transfer .household account target amount)) o
  obtain ⟨hlost, hpending⟩ := hsafe
  cases hd : o.delivery with
  | lost => exact absurd hd hlost
  | pending => exact absurd hd hpending
  | done =>
    have hreply : (w.serve (.pay (.transfer .household account target amount)) o).1 = .ok o.hash :=
      if_pos hd
    rw [hreply]
    rw [hd] at hw
    exact h.pay hj hpaying nofun hw.le
  | refused =>
    have hreply : (w.serve (.pay (.transfer .household account target amount)) o).1 =
        .error .outside := if_neg (by rw [hd]; nofun)
    rw [hreply]
    rw [hd] at hw
    exact h.keep hj rfl hw

theorem mint_creditedOnce {o : Outcome} {s : Stage} {target : String} {amount : ℚ}
    (h : CreditedOnce w st) (hj : st j = some s) (hpaying : s.household = .paying) :
    CreditedOnce (w.serve (.pay (.mint target amount)) o).2 (Function.update st j
      (some (next s (.pay (.mint target amount)) (w.serve (.pay (.mint target amount)) o).1))) := by
  have hw := standing_serve w (.pay (.mint target amount)) o
  have hone := credited_le_one (.pay (.mint target amount)) o.delivery
  exact h.pay hj hpaying nofun (by omega)

theorem call_creditedOnce {i : Op} {o : Outcome} {s : Stage} (h : CreditedOnce w st)
    (hj : st j = some s) (hallowed : Allowed svc s i) (hsafe : SafeCall w st i o) :
    CreditedOnce (w.serve i o).2 (Function.update st j (some (next s i (w.serve i o).1))) := by
  have hother : (∀ userId, i ≠ .findVault .household userId) →
      (∀ payment, i = .pay payment → payment.toHousehold = false) →
      CreditedOnce (w.serve i o).2 (Function.update st j (some (next s i (w.serve i o).1))) := by
    intro hvault hpay
    refine h.keep hj (next_household hvault hpay) ?_
    rw [standing_serve, credited_eq_zero hpay, Nat.add_zero]
  cases i with
  | findVault purpose userId =>
    cases purpose with
    | household => exact findVault_creditedOnce h hsafe
    | treasury => exact hother nofun nofun
  | pay payment =>
    cases payment with
    | mint target amount =>
      exact mint_creditedOnce h hj (congrArg Stage.household (hallowed rfl))
    | transfer purpose account target amount =>
      cases purpose with
      | household =>
        exact transfer_creditedOnce h hj (congrArg Stage.household (hallowed rfl)) hsafe
      | treasury =>
        refine hother nofun fun payment hp => ?_
        cases hp
        rfl
  | _ => exact hother nofun nofun

theorem stages_quiescent {store : Store} {lock : Bool} (j : ℕ) (s : Stage) :
    stages (quiescent store lock) j ≠ some s := nofun

theorem creditedOnce_quiescent (store : Store) (lock : Bool) :
    CreditedOnce (quiescent store lock).world (stages (quiescent store lock)) where
  payer i _ s _ hs := absurd hs (stages_quiescent i s)
  unpaid j s hs := absurd hs (stages_quiescent j s)
  single := Nat.zero_le 1

/-- In every race whose steps are safe the household is credited at most once. -/
theorem household_credited_once {store : Store} {lock : Bool} {es : List RaceEvent} {c : Race}
    (hsafe : Along (system svc).step Safe (quiescent store lock) es)
    (hrun : run (system svc).step (quiescent store lock) es = some c) : credits c.world ≤ 1 := by
  have hinvariant : CreditedOnce c.world (stages c) := by
    refine run_stages (S := system svc) (I := CreditedOnce) (fun caller =>
      obeys_verifyPin _ _) ?_ ?_ ?_ ?_ ?_ ?_
      hsafe hrun
    · exact fun w st j h hj => h.quit (fun s hs => by cases hs; nofun)
        (fun i s _ hs hp => h.unpaid i s hs hp) h.single
    · exact fun c j o s i h hj hi hallowed hC => call_creditedOnce h hj hallowed (hC i hi)
    · exact fun c j h _ => h.quit (fun s hs => by cases hs)
        (fun i s _ hs hp => h.unpaid i s hs hp) h.single
    · intro c d w h _ hw
      have hle := standing_outside hw
      exact ⟨h.payer, fun j s hs hp => Nat.le_zero.mp (h.unpaid j s hs hp ▸ hle),
        hle.trans h.single⟩
    · exact fun j t ht => by cases ht
    · exact creditedOnce_quiescent store lock
  exact (credits_le_standing c.world).trans hinvariant.single

/-! ### Races of a single call -/

/-- The event is one of call 0, and it is a safe one as far as call 0 tells. -/
def alone (c : Race) : RaceEvent → Bool
  | .start j _ => j == 0
  | .advance j o => j == 0 && match pending c 0 with
    | some (.findVault .household _) =>
      (stages c 0).all (fun s => s.household != .paying) && standing c.world == 0
    | some (.pay (.transfer .household _ _ _)) => o.delivery != .lost && o.delivery != .pending
    | _ => true
  | _ => true

theorem safe_of_alone {c : Race} {e : RaceEvent} (hnone : ∀ j, j ≠ 0 → stages c j = none)
    (h : alone c e = true) : Safe c e := by
  cases e with
  | advance j o =>
    intro i hi
    simp only [alone, Bool.and_eq_true, beq_iff_eq] at h
    obtain ⟨rfl, h⟩ := h
    rw [hi] at h
    unfold SafeCall
    split
    · simp only [Bool.and_eq_true, beq_iff_eq] at h
      refine fun _ => ⟨fun j s hs => ?_, h.2⟩
      by_cases hj : j = 0
      · subst hj
        rw [hs] at h
        simpa using h.1
      · rw [hnone j hj] at hs
        cases hs
    · simpa using h
    · trivial
  | _ => trivial

theorem along_safe_of_alone {store : Store} {lock : Bool} {es : List RaceEvent}
    (h : Along (system svc).step (fun c e => alone c e = true) (quiescent store lock) es) :
    Along (system svc).step Safe (quiescent store lock) es := by
  refine along_strengthen (I := fun c => ∀ j, j ≠ 0 → stages c j = none) ?_
    (fun c e hnone he => safe_of_alone hnone he) (fun j _ => rfl) h
  intro c e c' hnone he hstep i hi
  cases e with
  | start j caller =>
    obtain ⟨-, rfl⟩ := step_start.mp hstep
    obtain rfl : j = 0 := beq_iff_eq.mp he
    rw [stages_update, Function.update_of_ne hi]
    exact hnone i hi
  | advance j o =>
    obtain ⟨s, op, k, -, rfl⟩ := step_advance.mp hstep
    obtain rfl : j = 0 := beq_iff_eq.mp (Bool.and_eq_true _ _ ▸ he).1
    rw [stages_update, Function.update_of_ne hi]
    exact hnone i hi
  | stop j =>
    obtain ⟨-, rfl⟩ := step_stop.mp hstep
    rw [stages_update, Function.update_apply]
    split
    · rfl
    · exact hnone i hi
  | outside d =>
    obtain ⟨w, -, rfl⟩ := step_outside.mp hstep
    exact hnone i hi

/-- The collector sends the right PIN; the first `n` calls outside are answered. -/
def steps (j n : ℕ) : List RaceEvent :=
  .start j ⟨"collector", ⟨"4829", []⟩⟩ :: List.replicate n (.advance j answered)

theorem household_credited_once_minted : ∃ c,
    run (system sampleService).step (quiescent (sampleStore none) false) (steps 0 13) = some c ∧
      credits c.world ≤ 1 := by
  obtain ⟨c, hc⟩ := Option.isSome_iff_exists.mp (show (run (system sampleService).step
    (quiescent (sampleStore none) false) (steps 0 13)).isSome = true by decide +kernel)
  refine ⟨c, hc, household_credited_once (along_safe_of_alone ?_) hc⟩
  decide +kernel

/-- The UPDATE fails after the mint; the collector tries again and the household is paid again. -/
theorem repeatedCall_credits_twice : ∃ c,
    run (system sampleService).step (quiescent (sampleStore none) false)
      (steps 0 13 ++ steps 1 12) = some c ∧ credits c.world = 2 := by
  have hcredits : (run (system sampleService).step (quiescent (sampleStore none) false)
      (steps 0 13 ++ steps 1 12)).map (fun c => credits c.world) = some 2 := by decide +kernel
  exact Option.map_eq_some_iff.mp hcredits

/-! ### What the lock gives -/

/-- The lock expires only while no call has it. -/
def LockOutlives (c : Race) : RaceEvent → Prop
  | .outside .expireLock => ∀ j s, stages c j = some s → s.inside = false
  | _ => True

/-- One call at a time has the lock, and with Redis only such a call pays. -/
structure Locked (svc : Service) (w : World) (st : ℕ → Option Stage) : Prop where
  exclusive : ∀ i j s t, st i = some s → st j = some t → s.inside = true → t.inside = true → i = j
  held : ∀ j s, st j = some s → s.inside = true → w.lock = true
  payerInside : ∀ j s, st j = some s → s.household = .paying → s.inside = svc.redis

theorem Locked.replace (h : Locked svc w st) {t : Option Stage}
    (hinside : ∀ u, t = some u → u.inside = true →
      w'.lock = true ∧ ∀ i s, i ≠ j → st i = some s → s.inside = false)
    (hheld : ∀ i s, i ≠ j → st i = some s → s.inside = true → w'.lock = true)
    (hpayer : ∀ u, t = some u → u.household = .paying → u.inside = svc.redis) :
    Locked svc w' (Function.update st j t) := by
  have hcases : ∀ i s, Function.update st j t i = some s →
      (i = j ∧ t = some s) ∨ (i ≠ j ∧ st i = some s) := by
    intro i s hs
    by_cases hij : i = j
    · subst hij
      rw [Function.update_self] at hs
      exact .inl ⟨rfl, hs⟩
    · rw [Function.update_of_ne hij] at hs
      exact .inr ⟨hij, hs⟩
  constructor
  · intro i k s u hs hu his hiu
    rcases hcases i s hs with ⟨hi, hts⟩ | ⟨hi, hs⟩
      <;> rcases hcases k u hu with ⟨hk, htu⟩ | ⟨hk, hu⟩
    · exact hi.trans hk.symm
    · rw [(hinside s hts his).2 k u hk hu] at hiu
      cases hiu
    · rw [(hinside u htu hiu).2 i s hi hs] at his
      cases his
    · exact h.exclusive i k s u hs hu his hiu
  · intro i s hs his
    rcases hcases i s hs with ⟨-, hts⟩ | ⟨hi, hs⟩
    · exact (hinside s hts his).1
    · exact hheld i s hi hs his
  · intro i s hs hp
    rcases hcases i s hs with ⟨-, hts⟩ | ⟨-, hs⟩
    · exact hpayer s hts hp
    · exact h.payerInside i s hs hp

theorem next_inside {s : Stage} {i : Op} {r : Except Failure (Reply i)}
    (hacquire : i ≠ .acquireLock)
    (hrelease : i ≠ .releaseLock) : (next s i r).inside = s.inside := by
  unfold next
  split <;> first | rfl | exact absurd rfl hacquire | exact absurd rfl hrelease

theorem lock_serve {i : Op} {o : Outcome} (hacquire : i ≠ .acquireLock)
    (hrelease : i ≠ .releaseLock) : (w.serve i o).2.lock = w.lock := by
  cases i with
  | acquireLock => exact absurd rfl hacquire
  | releaseLock => exact absurd rfl hrelease
  | pay payment => unfold World.serve World.submit; split <;> rfl
  | completeRequest batchId weights reward hash =>
    unfold World.serve World.complete World.update
    repeat' split
    all_goals rfl
  | setAttempts count => unfold World.serve World.update; split <;> rfl
  | deleteCachedPin => unfold World.serve World.update; split <;> rfl
  | deleteAttempts => unfold World.serve World.update; split <;> rfl
  | createOpenBatch collectorId centerId => unfold World.serve World.update; split <;> rfl
  | _ => rfl

theorem paying_of_next {s : Stage} {i : Op} {r : Except Failure (Reply i)}
    (h : (next s i r).household = .paying) :
    s.household = .paying ∨ ∃ userId, i = .findVault .household userId := by
  unfold next at h
  split at h <;> first | exact .inl h | exact .inr ⟨_, rfl⟩ | cases h

theorem acquire_locked {o : Outcome} {s : Stage} (h : Locked svc w st) (hs : s = ⟨false, .before⟩) :
    Locked svc (w.serve .acquireLock o).2
      (Function.update st j (some (next s .acquireLock (w.serve .acquireLock o).1))) := by
  subst hs
  have hlock : w.lock = true → (w.serve .acquireLock o).2.lock = true := by
    intro hheld
    change (if o.delivery.applied then { w with lock := true } else w).lock = true
    split <;> simp [hheld]
  have hothers : ∀ i s, i ≠ j → st i = some s → s.inside = true →
      (w.serve .acquireLock o).2.lock = true := fun i s _ hs his => hlock (h.held i s hs his)
  by_cases hgot : o.delivery = .done ∧ w.lock = false
  · obtain ⟨hdone, hfree⟩ := hgot
    have hreply : (w.serve .acquireLock o).1 = .ok true := by
      change o.delivery.reply (!w.lock) = _
      rw [Delivery.reply, Delivery.answer, if_pos hdone, hfree]
      rfl
    have hset : (w.serve .acquireLock o).2.lock = true := by
      change (if o.delivery.applied then { w with lock := true } else w).lock = true
      rw [hdone]
      rfl
    rw [hreply]
    refine h.replace (fun u hu _ => ⟨hset, fun i s hij hs => ?_⟩) hothers ?_
    · by_contra hinside
      rw [h.held i s hs (Bool.not_eq_false _ ▸ hinside)] at hfree
      cases hfree
    · intro u hu hp
      cases hu
      cases hp
  · have hnext : next ⟨false, .before⟩ .acquireLock (w.serve .acquireLock o).1 =
        ⟨false, .before⟩ := by
      change next _ .acquireLock (o.delivery.reply (!w.lock)) = _
      unfold Delivery.reply Delivery.answer
      split
      · rename_i hdone
        cases hheld : w.lock with
        | true => rfl
        | false => exact absurd ⟨hdone, hheld⟩ hgot
      · rfl
    rw [hnext]
    refine h.replace ?_ hothers ?_
    · intro u hu hinside
      cases hu
      cases hinside
    · intro u hu hp
      cases hu
      cases hp

theorem release_locked {o : Outcome} {s : Stage} (h : Locked svc w st) (hj : st j = some s)
    (hs : s.inside = true ∧ s.household ≠ .paying) :
    Locked svc (w.serve .releaseLock o).2
      (Function.update st j (some (next s .releaseLock (w.serve .releaseLock o).1))) := by
  refine h.replace ?_ ?_ ?_
  · intro u hu hinside
    cases hu
    cases hinside
  · exact fun i u hij hu hinside => absurd (h.exclusive i j u s hu hj hinside hs.1) hij
  · intro u hu hp
    cases hu
    exact absurd hp hs.2

theorem call_locked {i : Op} {o : Outcome} {s : Stage} (h : Locked svc w st) (hj : st j = some s)
    (hallowed : Allowed svc s i) :
    Locked svc (w.serve i o).2 (Function.update st j (some (next s i (w.serve i o).1))) := by
  by_cases hacquire : i = .acquireLock
  · subst hacquire
    exact acquire_locked h hallowed
  by_cases hrelease : i = .releaseLock
  · subst hrelease
    exact release_locked h hj hallowed
  have hinside := next_inside (s := s) (r := (w.serve i o).1) hacquire hrelease
  have hlock : (w.serve i o).2.lock = w.lock := lock_serve hacquire hrelease
  refine h.replace ?_ ?_ ?_
  · intro u hu hu'
    cases hu
    rw [hinside] at hu'
    refine ⟨hlock.trans (h.held j s hj hu'), fun k v hkj hv => ?_⟩
    by_contra hv'
    exact hkj (h.exclusive k j v s hv hj (Bool.not_eq_false _ ▸ hv') hu')
  · exact fun k v _ hv hv' => hlock.trans (h.held k v hv hv')
  · intro u hu hp
    cases hu
    rw [hinside]
    rcases paying_of_next hp with hp | ⟨userId, rfl⟩
    · exact h.payerInside j s hj hp
    · exact congrArg Stage.inside hallowed

theorem outside_locked {c : Race} {d : Outside} (h : Locked svc c.world (stages c))
    (hC : LockOutlives c (.outside d)) (hw : outside c.world d = some w) :
    Locked svc w (stages c) := by
  refine ⟨h.exclusive, fun j s hs hinside => ?_, h.payerInside⟩
  cases d with
  | expireLock =>
    rw [hC j s hs] at hinside
    cases hinside
  | amend store =>
    cases hw
    exact h.held j s hs hinside
  | resolve n applies =>
    simp only [outside] at hw
    split at hw
    · cases hw
      exact h.held j s hs hinside
    · cases hw

/-- With Redis, and as long as the lock outlives the calls that have it, no two calls are paying
the household. -/
theorem lock_excludes {store : Store} {lock : Bool} {es : List RaceEvent} {c : Race}
    (hredis : svc.redis = true) (hlock : Along (system svc).step LockOutlives
      (quiescent store lock) es)
    (hrun : run (system svc).step (quiescent store lock) es = some c) {i j : ℕ} {s t : Stage}
    (hi : stages c i = some s) (hj : stages c j = some t) (hs : s.household = .paying)
    (ht : t.household = .paying) : i = j := by
  have hinvariant : Locked svc c.world (stages c) := by
    refine run_stages (S := system svc) (I := Locked svc) (fun caller => obeys_verifyPin _ _)
      ?_ ?_ ?_ ?_ ?_ ?_ hlock hrun
    · intro w st j h _
      refine h.replace ?_ (fun i s _ hs his => h.held i s hs his) ?_
      · intro u hu hinside
        cases hu
        cases hinside
      · intro u hu hp
        cases hu
        cases hp
    · exact fun c j o s i h hj _ hallowed _ => call_locked h hj hallowed
    · exact fun c j h _ => h.replace nofun (fun i s _ hs his => h.held i s hs his) nofun
    · exact fun c d w h hC hw => outside_locked h hC hw
    · exact fun j t ht => by cases ht
    · exact ⟨fun i j s t hs => absurd hs (stages_quiescent i s),
        fun j s hs => absurd hs (stages_quiescent j s),
        fun j s hs => absurd hs (stages_quiescent j s)⟩
  have hinside := hinvariant.payerInside
  exact hinvariant.exclusive i j s t hi hj ((hinside i s hi hs).trans hredis)
    ((hinside j t hj ht).trans hredis)

end Livora.VerificationRaces
