import Livora.AttemptStages
import Livora.FailureWindows

/-! Calls of `verifyPin` on one request over time, where there is Redis: the counter of wrong PINs
lapses fifteen minutes after the last one was counted, the lock thirty seconds after it was taken
and the cached PIN when it is due. The history holds the PINs that were compared and the counts that
were written. -/

namespace Livora.PinAttempts

open TransitionRuns EffectPrograms ProgramPools ProgramPools.System NamedPools FailureWindows
open RewardStrategies PinVerification AttemptStages
open VerificationRaces (Caller)

def window : ℕ := 900 * 1000

/-! ### The world with a clock -/

structure TimedWorld where
  base : World
  now : ℕ
  attemptsUntil : ℕ
  lockUntil : ℕ
  pinUntil : ℕ

/-- What a key holds that lapses at `expiry`. -/
def lapse {α : Type} (now expiry : ℕ) (entry : Option α) : Option α :=
  if now < expiry then entry else none

namespace TimedWorld

/-- `SET key value EX 900`, and `SET key value EX 30 NX`. -/
def serve (w : TimedWorld) (i : Op) (o : Outcome) : Except Failure (Reply i) × TimedWorld :=
  ((w.base.serve i o).1, { w with
    base := (w.base.serve i o).2
    attemptsUntil := match i with
      | .setAttempts _ => if o.delivery.applied then w.now + window else w.attemptsUntil
      | _ => w.attemptsUntil
    lockUntil := match i with
      | .acquireLock =>
        if o.delivery.applied && !w.base.lock then w.now + 30 * 1000 else w.lockUntil
      | _ => w.lockUntil })

def pass (w : TimedWorld) (ms : ℕ) : TimedWorld :=
  { w with
    base :=
      { w.base with
        store :=
          { w.base.store with
            attempts := lapse (w.now + ms) w.attemptsUntil w.base.store.attempts
            cachedPin := lapse (w.now + ms) w.pinUntil w.base.store.cachedPin }
        lock := w.base.lock && decide (w.now + ms < w.lockUntil) }
    now := w.now + ms }

def amend (w : TimedWorld) (store : Store) (chain : List Submission) (pinUntil : ℕ) : TimedWorld :=
  { w with
    base := ⟨{ store with attempts := w.base.store.attempts }, w.base.lock, chain⟩
    pinUntil := pinUntil }

end TimedWorld

inductive Outside where
  | pass (ms : ℕ)
  | amend (store : Store) (chain : List Submission) (pinUntil : ℕ)

def outside (w : TimedWorld) : Outside → Option TimedWorld
  | .pass ms => some (w.pass ms)
  | .amend store chain pinUntil => some (w.amend store chain pinUntil)

def system (svc : Service) : System Caller TimedWorld Outcome Outside Phase (Caller × Op)
    (fun i => Except Failure (Reply i.2)) (Caller × Except Failure (Option CollectionRequest)) where
  program caller := inName caller (verifyPin svc caller.collectorId caller.dto).run
  serve w i o := w.serve i.2 o
  outside := outside
  protocol := attempting
  first := .waiting

abbrev Desk := Pool TimedWorld (Task Phase (Caller × Op) (fun i => Except Failure (Reply i.2))
  (Caller × Except Failure (Option CollectionRequest)))

abbrev DeskEvent := Event Caller Outcome Outside

def quiescent (w : TimedWorld) : Desk := ⟨w, fun _ => none⟩

def ofRedis : Op → Bool
  | .acquireLock => true
  | .getAttempts => true
  | .getCachedPin => true
  | .getAttemptsAgain => true
  | .setAttempts _ => true
  | .deleteCachedPin => true
  | .deleteAttempts => true
  | .purge _ => true
  | .releaseLock => true
  | _ => false

/-- Redis answers, no call stops halfway, and the one that has the lock gives it back before it
lapses. -/
def available (c : Desk) : DeskEvent → Bool
  | .start _ _ => true
  | .advance j o => (pending c j).all fun i => !ofRedis i.2 || o.delivery == .done
  | .stop _ => false
  | .outside (.pass ms) => !c.world.base.lock || decide (c.world.now + ms < c.world.lockUntil)
  | .outside (.amend _ _ _) => true

def noted (w : TimedWorld) (s : Phase) (pin : String) : Op → Option Mark
  | .getCachedPin =>
    match s with
    | .admitted row => some (.tried w.now (decide (expectedPin row w.base.store.cachedPin = pin)))
    | _ => none
  | .setAttempts count => some (.counted w.now count)
  | _ => none

def mark (c : Desk) : DeskEvent → Option Mark
  | .advance j _ =>
    (stages c j).bind fun s => (pending c j).bind fun i => noted c.world s i.1.dto.pin i.2
  | _ => none

/-! ### The counter and the history -/

structure Meter where
  now : ℕ
  attempts : Option ℕ
  expiry : ℕ

def TimedWorld.meter (w : TimedWorld) : Meter := ⟨w.now, w.base.store.attempts, w.attemptsUntil⟩

namespace Meter

def pass (m : Meter) (ms : ℕ) : Meter :=
  { m with now := m.now + ms, attempts := lapse (m.now + ms) m.expiry m.attempts }

def set (m : Meter) (count : ℕ) : Meter := ⟨m.now, some count, m.now + window⟩

def clear (m : Meter) : Meter := { m with attempts := none }

end Meter

/-- The counter is no less than the times of the last window, and lapses after all of them have left
it. -/
structure Backed (l : List ℕ) (m : Meter) : Prop where
  covers : recent window l m.now ≤ m.attempts.getD 0
  lasts : m.attempts ≠ none → ∀ t ∈ l, t + window ≤ m.expiry

/-- No count has reached the limit in the last window. -/
def Unblocked (h : List Mark) (now : ℕ) : Prop := ∀ s n, .counted s n ∈ h → 5 ≤ n → s + window ≤ now

/-- A count that reached the limit in the last window is still there. -/
def Blocks (h : List Mark) (m : Meter) : Prop :=
  ∀ s n, .counted s n ∈ h → 5 ≤ n → m.now < s + window →
    ∃ k, m.attempts = some k ∧ 5 ≤ k ∧ s + window ≤ m.expiry

/-- What the history and the counter are to each other at the phase of the call that has the
lock. -/
def Fits (h : List Mark) (m : Meter) : Phase → Prop
  | .wrong => ∃ c rest, strikes h = c :: rest ∧ Backed rest m ∧ Unblocked h m.now
  | .counting count => ∃ c rest, strikes h = c :: rest ∧ recent window rest m.now + 1 ≤ count ∧
      Unblocked h m.now
  | .right => strikes h = [] ∧ ¬Owing h ∧ Unblocked h m.now
  | .admitted _ => (Backed (strikes h) m ∧ ¬Owing h) ∧ recent window (strikes h) m.now < 5 ∧
      Unblocked h m.now
  | _ => Backed (strikes h) m ∧ ¬Owing h

structure Kept (h : List Mark) (m : Meter) (s : Phase) : Prop where
  lawful : Lawful window 5 h
  past : ∀ x ∈ h, x.time ≤ m.now
  blocks : Blocks h m
  fits : Fits h m s

section Metering

variable {h : List Mark} {m : Meter} {l : List ℕ} {s : Phase} {row : CollectionRequest}
    {ms count : ℕ}

theorem backed_pass (hb : Backed l m) : Backed l (m.pass ms) := by
  have hanti : recent window l (m.now + ms) ≤ recent window l m.now :=
    recent_anti (Nat.le_add_right _ _)
  constructor
  · change recent window l (m.now + ms) ≤ (lapse (m.now + ms) m.expiry m.attempts).getD 0
    unfold lapse
    split
    · exact hanti.trans hb.covers
    · rename_i hlapsed
      by_cases hattempts : m.attempts = none
      · have hcovers := hb.covers
        rw [hattempts] at hcovers
        exact hanti.trans hcovers
      · refine (recent_eq_zero fun t ht => ?_).le
        exact (hb.lasts hattempts t ht).trans (Nat.not_lt.mp hlapsed)
  · intro hthere
    refine hb.lasts fun hnone => hthere ?_
    change lapse (m.now + ms) m.expiry m.attempts = none
    rw [hnone]
    exact ite_self _

theorem unblocked_pass {now : ℕ} (hu : Unblocked h now) : Unblocked h (now + ms) :=
  fun s n hs hn => (hu s n hs hn).trans (Nat.le_add_right _ _)

theorem blocks_pass (hb : Blocks h m) : Blocks h (m.pass ms) := by
  intro s n hs hn hnow
  have hnow' : m.now + ms < s + window := hnow
  obtain ⟨k, hk, hlimit, hlasts⟩ := hb s n hs hn (by omega)
  refine ⟨k, ?_, hlimit, hlasts⟩
  change lapse (m.now + ms) m.expiry m.attempts = some k
  rw [lapse, if_pos (hnow'.trans_le hlasts), hk]

theorem fits_pass (hf : Fits h m s) : Fits h (m.pass ms) s := by
  have hanti : ∀ l, recent window l (m.now + ms) ≤ recent window l m.now :=
    fun l => recent_anti (Nat.le_add_right _ _)
  cases s with
  | wrong =>
    obtain ⟨c, rest, hc, hrest, hu⟩ := hf
    exact ⟨c, rest, hc, backed_pass hrest, unblocked_pass hu⟩
  | counting count =>
    obtain ⟨c, rest, hc, hrest, hu⟩ := hf
    exact ⟨c, rest, hc, (Nat.add_le_add_right (hanti rest) 1).trans hrest, unblocked_pass hu⟩
  | right => exact ⟨hf.1, hf.2.1, unblocked_pass hf.2.2⟩
  | admitted row =>
    obtain ⟨⟨hb, howing⟩, hfew, hu⟩ := hf
    exact ⟨⟨backed_pass hb, howing⟩, (hanti _).trans_lt hfew, unblocked_pass hu⟩
  | _ => exact ⟨backed_pass hf.1, hf.2⟩

theorem kept_pass (hk : Kept h m s) : Kept h (m.pass ms) s where
  lawful := hk.lawful
  past x hx := (hk.past x hx).trans (Nat.le_add_right _ _)
  blocks := blocks_pass hk.blocks
  fits := fits_pass hk.fits

theorem resting_of_kept (hk : Kept h m s) (hs : s.striking = false) :
    Backed (strikes h) m ∧ ¬Owing h := by
  have hfits := hk.fits
  cases s with
  | wrong => cases hs
  | counting count => cases hs
  | right =>
    obtain ⟨hnone, howing, -⟩ := hfits
    rw [hnone]
    exact ⟨⟨Nat.zero_le _, fun _ _ ht => absurd ht List.not_mem_nil⟩, howing⟩
  | admitted row => exact hfits.1
  | _ => exact hfits

theorem kept_below (hk : Kept h m s) (hs : s.striking = false) (hfew : ¬5 ≤ m.attempts.getD 0) :
    Kept h m (.admitted row) := by
  obtain ⟨hbacked, howing⟩ := resting_of_kept hk hs
  refine { hk with fits := ⟨⟨hbacked, howing⟩, hbacked.covers.trans_lt (Nat.not_le.mp hfew), ?_⟩ }
  intro s n hcounted hn
  refine Nat.not_lt.mp fun hnow => hfew ?_
  obtain ⟨k, hattempts, hk, -⟩ := hk.blocks s n hcounted hn hnow
  rw [hattempts]
  exact hk

theorem mem_counted {t c n : ℕ} {right : Bool} (hm : .counted c n ∈ h ++ [.tried t right]) :
    .counted c n ∈ h := by
  simpa using hm

theorem kept_try (hk : Kept h m (.admitted row)) (right : Bool) :
    Kept (h ++ [.tried m.now right]) m (if right then .right else .wrong) := by
  obtain ⟨⟨hbacked, howing⟩, hfew, hu⟩ := hk.fits
  have hunblocked : Unblocked (h ++ [.tried m.now right]) m.now :=
    fun s n hs hn => hu s n (mem_counted hs) hn
  constructor
  · refine lawful_append hk.lawful hk.past ⟨howing, fun _ => ?_, hu⟩
    have hcons : recent window (m.now :: strikes h) m.now ≤ recent window (strikes h) m.now + 1 :=
      recent_cons_le
    omega
  · intro x hx
    rcases List.mem_append.mp hx with hx | hx
    · exact hk.past x hx
    · obtain rfl := List.mem_singleton.mp hx
      exact Nat.le_refl _
  · exact fun s n hs hn => hk.blocks s n (mem_counted hs) hn
  · cases right with
    | true =>
      refine ⟨strikes_append, fun h => ?_, hunblocked⟩
      obtain ⟨t, ht⟩ := owing_append.mp h
      cases ht
    | false => exact ⟨m.now, strikes h, strikes_append, hbacked, hunblocked⟩

theorem kept_recount (hk : Kept h m .wrong) : Kept h m (.counting (m.attempts.getD 0 + 1)) := by
  obtain ⟨c, rest, hc, hrest, hu⟩ := hk.fits
  exact { hk with fits := ⟨c, rest, hc, Nat.add_le_add_right hrest.covers 1, hu⟩ }

theorem kept_count (hk : Kept h m (.counting count)) :
    Kept (h ++ [.counted m.now count]) (m.set count) .refused := by
  obtain ⟨c, rest, hc, hrest, hu⟩ := hk.fits
  have hcount : recent window (strikes h) m.now ≤ count := by
    rw [hc]
    exact recent_cons_le.trans hrest
  constructor
  · exact lawful_append hk.lawful hk.past hcount
  · intro x hx
    rcases List.mem_append.mp hx with hx | hx
    · exact hk.past x hx
    · obtain rfl := List.mem_singleton.mp hx
      exact Nat.le_refl _
  · intro s n hs hn hnow
    rcases List.mem_append.mp hs with hs | hs
    · -- the counts before this one block no more
      exact absurd (hu s n hs hn) (Nat.not_le.mpr hnow)
    · obtain ⟨rfl, rfl⟩ := Mark.counted.inj (List.mem_singleton.mp hs)
      exact ⟨n, rfl, hn, Nat.le_refl _⟩
  · have hstrikes : strikes (h ++ [.counted m.now count]) = strikes h := strikes_append
    refine ⟨⟨?_, fun _ t ht => ?_⟩, fun h => ?_⟩
    · rw [hstrikes]
      exact hcount
    · rw [hstrikes] at ht
      exact Nat.add_le_add_right (hk.past _ (mem_strikes ht)) window
    · obtain ⟨t, ht⟩ := owing_append.mp h
      cases ht

theorem kept_clear (hk : Kept h m .right) : Kept h m.clear .right where
  lawful := hk.lawful
  past := hk.past
  blocks s n hs hn hnow := absurd (hk.fits.2.2 s n hs hn) (Nat.not_le.mpr hnow)
  fits := hk.fits

theorem kept_idle {t : Phase} (hk : Kept h m s) (hs : s.striking = false) (ht : t.idle = true) :
    Kept h m t := by
  cases t <;> first
    | exact { hk with fits := resting_of_kept hk hs }
    | cases ht

end Metering

/-! ### The calls -/

def steady : Op → Bool
  | .acquireLock => false
  | .setAttempts _ => false
  | .deleteAttempts => false
  | .releaseLock => false
  | _ => true

/-- The phase of the call that has the lock; where none has it, it is as before a call. -/
def Current (st : ℕ → Option Phase) (s : Phase) : Prop :=
  s.inside = true ∧ (∃ j, st j = some s) ∨ s = .waiting ∧ ∀ j t, st j = some t → t.inside = false

/-- One call at a time has the lock, and what the history and the counter are to each other at its
phase is kept. -/
structure Guarded (h : List Mark) (w : TimedWorld) (st : ℕ → Option Phase) : Prop where
  exclusive : ∀ i j s t, st i = some s → st j = some t → s.inside = true → t.inside = true → i = j
  locked : ∀ j s, st j = some s → s.inside = true → w.base.lock = true
  kept : ∀ s, Current st s → Kept h w.meter s

section Calls

variable {h h' : List Mark} {w w' : TimedWorld} {st : ℕ → Option Phase} {s t : Phase} {j : ℕ}
    {i : Op}
  {o : Outcome} {dto : VerifyPinDto}

theorem serve_steady (hi : steady i = true) :
    (w.serve i o).2.meter = w.meter ∧ (w.serve i o).2.base.lock = w.base.lock := by
  cases i with
  | acquireLock => cases hi
  | setAttempts count => cases hi
  | deleteAttempts => cases hi
  | releaseLock => cases hi
  | deleteCachedPin =>
    unfold TimedWorld.serve World.serve World.update
    split <;> exact ⟨rfl, rfl⟩
  | createOpenBatch collectorId centerId =>
    unfold TimedWorld.serve World.serve World.update
    split <;> exact ⟨rfl, rfl⟩
  | pay payment =>
    unfold TimedWorld.serve World.serve World.submit
    split <;> exact ⟨rfl, rfl⟩
  | completeRequest targetBatchId actualWeights reward txHash => exact ⟨rfl, rfl⟩
  | _ => exact ⟨rfl, rfl⟩

theorem striking_of_outside (hs : s.inside = false) : s.striking = false := by
  cases s <;> first
    | rfl
    | cases hs

theorem Guarded.others (hg : Guarded h w st) (hj : st j = some s) (hs : s.inside = true) :
    ∀ k u, k ≠ j → st k = some u → u.inside = false := by
  intro k u hkj hk
  cases hu : u.inside with
  | false => rfl
  | true => exact absurd (hg.exclusive k j u s hk hj hu hs) hkj

theorem guarded_move (hothers : ∀ k u, k ≠ j → st k = some u → u.inside = false)
    (hlock : t.inside = true → w.base.lock = true) (hkept : Kept h w.meter t) :
    Guarded h w (Function.update st j (some t)) := by
  have hself : ∀ k u, Function.update st j (some t) k = some u → u.inside = true → k = j ∧
      u = t := by
    intro k u hk hu
    by_cases hkj : k = j
    · subst hkj
      rw [Function.update_self] at hk
      exact ⟨rfl, (Option.some.inj hk).symm⟩
    · rw [Function.update_of_ne hkj] at hk
      rw [hothers k u hkj hk] at hu
      cases hu
  constructor
  · intro k l u v hk hl hu hv
    exact (hself k u hk hu).1.trans (hself l v hl hv).1.symm
  · intro k u hk hu
    obtain ⟨-, rfl⟩ := hself k u hk hu
    exact hlock hu
  · rintro u (⟨hu, k, hk⟩ | ⟨rfl, hnone⟩)
    · obtain ⟨-, rfl⟩ := hself k u hk hu
      exact hkept
    · have hout : t.inside = false := hnone j t (Function.update_self j (some t) st)
      exact kept_idle hkept (striking_of_outside hout) rfl

theorem Guarded.turn (hg : Guarded h w st) (hj : st j = some s) (hs : s.inside = true)
    (hlock : t.inside = true → w'.base.lock = true)
    (hkept : Kept h w.meter s → Kept h' w'.meter t) :
    Guarded h' w' (Function.update st j (some t)) :=
  guarded_move (hg.others hj hs) hlock (hkept (hg.kept s (.inl ⟨hs, j, hj⟩)))

theorem Guarded.aside (hg : Guarded h w st) (hj : ∀ s, st j = some s → s.inside = false)
    (ht : t.inside = false) (hmeter : w'.meter = w.meter) (hlock : w'.base.lock = w.base.lock) :
    Guarded h w' (Function.update st j (some t)) := by
  have hold : ∀ k u, Function.update st j (some t) k = some u → u.inside = true →
      st k = some u := by
    intro k u hk hu
    by_cases hkj : k = j
    · subst hkj
      rw [Function.update_self] at hk
      cases hk
      rw [ht] at hu
      cases hu
    · rwa [Function.update_of_ne hkj] at hk
  constructor
  · exact fun k l u v hk hl hu hv => hg.exclusive k l u v (hold k u hk hu) (hold l v hl hv) hu hv
  · exact fun k u hk hu => hlock.trans (hg.locked k u (hold k u hk hu) hu)
  · rw [hmeter]
    rintro u (⟨hu, k, hk⟩ | ⟨rfl, hnone⟩)
    · exact hg.kept u (.inl ⟨hu, k, hold k u hk hu⟩)
    · refine hg.kept .waiting (.inr ⟨rfl, fun k u hk => ?_⟩)
      by_cases hkj : k = j
      · exact hj u (hkj ▸ hk)
      · exact hnone k u (by rwa [Function.update_of_ne hkj])

theorem acquireLock_guarded (hg : Guarded h w st) (hj : st j = some .waiting)
    (hd : o.delivery = .done) :
    Guarded h (w.serve .acquireLock o).2 (Function.update st j
      (some (next dto.pin .waiting .acquireLock (w.serve .acquireLock o).1))) := by
  have hreply : (w.serve .acquireLock o).1 = .ok (!w.base.lock) := if_pos hd
  have hworld : (w.serve .acquireLock o).2.meter = w.meter ∧ (w.serve .acquireLock o).2.base.lock =
      true := by
    unfold TimedWorld.serve World.serve World.setLock
    rw [hd]
    exact ⟨rfl, rfl⟩
  rw [hreply]
  cases hlock : w.base.lock with
  | true =>
    refine hg.aside (fun s hs => ?_) rfl hworld.1 (hworld.2.trans hlock.symm)
    cases hj.symm.trans hs
    rfl
  | false =>
    have hnone : ∀ k u, st k = some u → u.inside = false := by
      intro k u hk
      cases hu : u.inside with
      | false => rfl
      | true =>
        rw [hg.locked k u hk hu] at hlock
        cases hlock
    have hkept : Kept h (w.serve .acquireLock o).2.meter .entered := by
      rw [hworld.1]
      exact kept_idle (hg.kept .waiting (.inr ⟨rfl, hnone⟩)) rfl rfl
    exact guarded_move (fun k u _ hk => hnone k u hk) (fun _ => hworld.2) hkept

theorem steady_guarded (hg : Guarded h w st) (hj : st j = some s) (hs : s.inside = true)
    (hi : steady i = true) (hkept : Kept h w.meter s → Kept h' w.meter t) :
    Guarded h' (w.serve i o).2 (Function.update st j (some t)) := by
  obtain ⟨hmeter, hlock⟩ := serve_steady (w := w) (o := o) hi
  refine hg.turn hj hs (fun _ => hlock.trans (hg.locked j s hj hs)) ?_
  rw [hmeter]
  exact hkept

theorem call_guarded (hg : Guarded h w st) (hj : st j = some s) (hallowed : Allowed dto s i)
    (hdone : ofRedis i = true → o.delivery = .done) :
    Guarded (h ++ (noted w s dto.pin i).toList) (w.serve i o).2
      (Function.update st j (some (next dto.pin s i (w.serve i o).1))) := by
  cases i with
  | acquireLock =>
    obtain rfl : s = .waiting := hallowed
    change Guarded (h ++ []) _ _
    rw [List.append_nil]
    exact acquireLock_guarded hg hj (hdone rfl)
  | readRequest =>
    obtain rfl : s = .entered := hallowed
    change Guarded (h ++ []) _ _
    rw [List.append_nil]
    refine steady_guarded hg hj rfl rfl fun hk => kept_idle hk rfl ?_
    rcases (w.serve .readRequest o).1 with e | _ | row <;> rfl
  | getAttempts =>
    obtain ⟨row, rfl⟩ := hallowed
    have hreply : (w.serve .getAttempts o).1 = .ok w.base.store.attempts := if_pos (hdone rfl)
    change Guarded (h ++ []) _ _
    rw [List.append_nil, hreply]
    refine steady_guarded hg hj rfl rfl fun hk => ?_
    change Kept h w.meter (if 5 ≤ w.meter.attempts.getD 0 then .refused else .admitted row)
    split
    · exact kept_idle hk rfl rfl
    · rename_i hfew
      exact kept_below hk rfl hfew
  | getCachedPin =>
    obtain ⟨row, rfl⟩ := hallowed
    have hreply : (w.serve .getCachedPin o).1 = .ok w.base.store.cachedPin := if_pos (hdone rfl)
    rw [hreply]
    refine steady_guarded hg hj rfl rfl fun hk => ?_
    have htried := kept_try hk (decide (expectedPin row w.base.store.cachedPin = dto.pin))
    simp only [decide_eq_true_eq] at htried
    exact htried
  | getAttemptsAgain =>
    obtain rfl : s = .wrong := hallowed
    have hreply : (w.serve .getAttemptsAgain o).1 = .ok w.base.store.attempts := if_pos (hdone rfl)
    change Guarded (h ++ []) _ _
    rw [List.append_nil, hreply]
    exact steady_guarded hg hj rfl rfl kept_recount
  | setAttempts count =>
    obtain rfl : s = .counting count := hallowed
    have hworld : (w.serve (.setAttempts count) o).2.meter = w.meter.set count ∧
        (w.serve (.setAttempts count) o).2.base.lock = w.base.lock := by
      unfold TimedWorld.serve World.serve World.update
      rw [hdone rfl]
      exact ⟨rfl, rfl⟩
    refine hg.turn hj rfl (fun _ => hworld.2.trans (hg.locked j _ hj rfl)) fun hk => ?_
    rw [hworld.1]
    exact kept_count hk
  | deleteAttempts =>
    obtain rfl : s = .right := hallowed
    have hworld : (w.serve .deleteAttempts o).2.meter = w.meter.clear ∧
        (w.serve .deleteAttempts o).2.base.lock = w.base.lock := by
      unfold TimedWorld.serve World.serve World.update
      rw [hdone rfl]
      exact ⟨rfl, rfl⟩
    change Guarded (h ++ []) _ _
    rw [List.append_nil]
    refine hg.turn hj rfl (fun _ => hworld.2.trans (hg.locked j _ hj rfl)) fun hk => ?_
    rw [hworld.1]
    exact kept_clear hk
  | releaseLock =>
    obtain ⟨hinside, hstriking⟩ := hallowed
    have hmeter : (w.serve .releaseLock o).2.meter = w.meter := by
      unfold TimedWorld.serve World.serve World.setLock
      split <;> rfl
    change Guarded (h ++ []) _ _
    rw [List.append_nil]
    refine hg.turn hj hinside nofun fun hk => ?_
    rw [hmeter]
    exact kept_idle hk hstriking rfl
  | deleteCachedPin =>
    obtain rfl : s = .right := hallowed
    change Guarded (h ++ []) _ _
    rw [List.append_nil]
    exact steady_guarded hg hj rfl rfl id
  | _ =>
    obtain ⟨rfl, -⟩ := hallowed
    change Guarded (h ++ []) _ _
    rw [List.append_nil]
    exact steady_guarded hg hj rfl rfl id

theorem pass_guarded {ms : ℕ} (hg : Guarded h w st)
    (hlock : w.base.lock = true → w.now + ms < w.lockUntil) : Guarded h (w.pass ms) st where
  exclusive := hg.exclusive
  locked k u hk hu := by
    have hheld := hg.locked k u hk hu
    change (w.base.lock && decide (w.now + ms < w.lockUntil)) = true
    rw [hheld, decide_eq_true (hlock hheld)]
    rfl
  kept s hs := kept_pass (hg.kept s hs)

end Calls

/-! ### What the calls change -/

def Same (w w' : TimedWorld) : Prop :=
  w'.base.store = { w.base.store with attempts := w'.base.store.attempts } ∧
    w'.base.chain = w.base.chain ∧
    w'.pinUntil = w.pinUntil

/-- All but the counter, the lock and the cached PIN is as it was. -/
def SameButPin (w w' : TimedWorld) : Prop :=
  w'.base.store = { w.base.store with
    attempts := w'.base.store.attempts
    cachedPin := w'.base.store.cachedPin } ∧ w'.base.chain = w.base.chain ∧ w'.pinUntil = w.pinUntil

/-- A call whose PIN has not been found right changes only the counter and the lock; with weights
that do not pass a call changes besides only the cached PIN. -/
def Framed (c : Desk) : DeskEvent → Prop
  | .advance j o => ∀ s i, stages c j = some s → pending c j = some i →
      (s ≠ .right → Same c.world (c.world.serve i.2 o).2) ∧
        (¬WeightsPass i.1.dto → SameButPin c.world (c.world.serve i.2 o).2)
  | _ => True

section Frames

variable {w w' : TimedWorld} {s : Phase} {i : Op} {o : Outcome} {dto : VerifyPinDto}

theorem sameButPin_of_same (h : Same w w') : SameButPin w w' := by
  obtain ⟨hstore, hrest⟩ := h
  refine ⟨?_, hrest⟩
  rw [hstore]

theorem call_framed (hallowed : Allowed dto s i) :
    (s ≠ .right → Same w (w.serve i o).2) ∧ (¬WeightsPass dto → SameButPin w (w.serve i o).2) := by
  have hboth : Same w (w.serve i o).2 →
      (s ≠ .right → Same w (w.serve i o).2) ∧ (¬WeightsPass dto → SameButPin w (w.serve i o).2) :=
    fun h => ⟨fun _ => h, fun _ => sameButPin_of_same h⟩
  cases i with
  | readRequest => exact hboth ⟨rfl, rfl, rfl⟩
  | getAttempts => exact hboth ⟨rfl, rfl, rfl⟩
  | getCachedPin => exact hboth ⟨rfl, rfl, rfl⟩
  | getAttemptsAgain => exact hboth ⟨rfl, rfl, rfl⟩
  | acquireLock =>
    refine hboth ?_
    unfold TimedWorld.serve World.serve World.setLock
    split <;> exact ⟨rfl, rfl, rfl⟩
  | releaseLock =>
    refine hboth ?_
    unfold TimedWorld.serve World.serve World.setLock
    split <;> exact ⟨rfl, rfl, rfl⟩
  | setAttempts count =>
    refine hboth ?_
    unfold TimedWorld.serve World.serve World.update
    split <;> exact ⟨rfl, rfl, rfl⟩
  | deleteAttempts =>
    refine hboth ?_
    unfold TimedWorld.serve World.serve World.update
    split <;> exact ⟨rfl, rfl, rfl⟩
  | deleteCachedPin =>
    obtain rfl : s = .right := hallowed
    refine ⟨fun h => absurd rfl h, fun _ => ?_⟩
    unfold TimedWorld.serve World.serve World.update
    split <;> exact ⟨rfl, rfl, rfl⟩
  | _ => exact ⟨fun h => absurd hallowed.1 h, fun h => absurd hallowed.2 h⟩

end Frames

/-! ### Runs -/

/-- No fifteen minutes without a right PIN hold more than five wrong ones. -/
def Limited (h : List Mark) : Prop :=
  ∀ lo, (∀ t, .tried t true ∈ h → t < lo ∨ lo + window ≤ t) → wrongs lo (lo + window) h ≤ 5

/-- A wrong PIN is counted before the next one is compared; where it makes five in the fifteen
minutes that end when it is counted, and none of them was right, none is compared in the fifteen
minutes after that. -/
def ThenRefused (h : List Mark) : Prop :=
  ∀ p c q t right, h = p ++ .tried c false :: q → .tried t right ∈ q →
    ∃ s n q', q = .counted s n :: q' ∧ ((∀ t, .tried t true ∈ p → t + window ≤ s) →
      5 ≤ wrongs (s + 1 - window) (s + 1) (p ++ [.tried c false]) → s + window ≤ t)

section Runs

variable {svc : Service} {w : TimedWorld} {es : List DeskEvent} {c c' : Desk} {e : DeskEvent}
  {h : List Mark}

theorem keeps_program (hredis : svc.redis = true) (caller : Caller) :
    Keeps (system svc).protocol (fun _ _ => True)
    (system svc).first ((system svc).program caller) :=
  keeps_verifyPin hredis caller

theorem step_guarded (hd : (system svc).Disciplined c) (hg : Guarded h c.world (stages c))
    (he : available c e = true) (hstep : (system svc).step c e = some c') :
    Guarded (h ++ (mark c e).toList) c'.world (stages c') := by
  cases e with
  | start j caller =>
    obtain ⟨hj, rfl⟩ := step_start.mp hstep
    rw [stages_update]
    change Guarded (h ++ []) _ _
    rw [List.append_nil]
    refine hg.aside (fun s hs => ?_) rfl rfl rfl
    rw [stages, hj] at hs
    cases hs
  | advance j o =>
    obtain ⟨s, i, k, ht, rfl⟩ := step_advance.mp hstep
    have hmark : mark c (.advance j o) = noted c.world s i.1.dto.pin i.2 := by
      simp only [mark, stages_eq ht, pending_eq ht, Option.bind_some]
    rw [stages_update, hmark]
    refine call_guarded hg (stages_eq ht) (hd j _ ht).1 fun hi => ?_
    simpa [available, pending_eq ht, hi] using he
  | stop j => cases he
  | outside d =>
    obtain ⟨w, hw, rfl⟩ := step_outside.mp hstep
    change Guarded (h ++ []) _ _
    rw [List.append_nil]
    cases d with
    | pass ms =>
      cases hw
      refine pass_guarded hg fun hlock => ?_
      simpa [available, hlock] using he
    | amend store chain pinUntil =>
      cases hw
      exact ⟨hg.exclusive, hg.locked, hg.kept⟩

theorem guarded_quiescent : Guarded [] w (stages (quiescent w)) where
  exclusive i j s t hs := by cases hs
  locked j s hs := by cases hs
  kept s hs := by
    rcases hs with ⟨-, j, hj⟩ | ⟨rfl, -⟩
    · cases hj
    · exact
        { lawful := lawful_nil
          past := fun _ hx => absurd hx List.not_mem_nil
          blocks := fun _ _ hx => absurd hx List.not_mem_nil
          fits := ⟨⟨Nat.zero_le _, fun _ _ ht => absurd ht List.not_mem_nil⟩, not_owing_nil⟩ }

theorem trace_lawful (hredis : svc.redis = true)
    (hes : Along (system svc).step (fun c e => available c e = true) (quiescent w) es)
    (hrun : run (system svc).step (quiescent w) es = some c) :
    Lawful window 5 (trace (system svc).step mark (quiescent w) es) := by
  have hboth : (system svc).Disciplined c ∧
      Guarded ([] ++ trace (system svc).step mark (quiescent w) es) c.world (stages c) := by
    refine run_history_along (p := []) (I := fun h c => (system svc).Disciplined c ∧
      Guarded h c.world (stages c)) ?_ ⟨?_, guarded_quiescent⟩ hes hrun
    · rintro h c e c' ⟨hd, hg⟩ he hstep
      exact ⟨step_disciplined (keeps_program hredis) hd hstep, step_guarded hd hg he hstep⟩
    · intro j t ht
      cases ht
  obtain ⟨-, hg⟩ := hboth
  by_cases hsome : ∃ j s, stages c j = some s ∧ s.inside = true
  · obtain ⟨j, s, hj, hs⟩ := hsome
    exact (hg.kept s (.inl ⟨hs, j, hj⟩)).lawful
  · refine (hg.kept .waiting (.inr ⟨rfl, fun j t hj => ?_⟩)).lawful
    cases ht : t.inside with
    | false => rfl
    | true => exact absurd ⟨j, t, hj, ht⟩ hsome

theorem along_framed (hredis : svc.redis = true) (hd : (system svc).Disciplined c) :
    Along (system svc).step Framed c es := by
  refine along_strengthen (C := fun _ _ => True) (I := (system svc).Disciplined)
    (fun c e c' hd _ hstep => step_disciplined (keeps_program hredis) hd hstep) ?_ hd along_true
  intro c e hd _
  cases e with
  | advance j o =>
    intro s i hs hi
    exact call_framed (allowed_pending hd hs hi)
  | _ => trivial

/-- Where Redis answers and every call ends before its lock lapses. -/
theorem wrongPins_limited (hredis : svc.redis = true)
    (hes : Along (system svc).step (fun c e => available c e = true) (quiescent w) es)
    (hrun : run (system svc).step (quiescent w) es = some c) :
    Limited (trace (system svc).step mark (quiescent w) es) ∧
      ThenRefused (trace (system svc).step mark (quiescent w) es) ∧
      Along (system svc).step Framed (quiescent w) es := by
  have hlawful := trace_lawful hredis hes hrun
  refine ⟨fun lo hright => wrongs_le_limit hlawful hright, ?_, along_framed hredis fun j t ht => by
    cases ht⟩
  intro p c q t right hsplit ht
  rw [hsplit] at hlawful
  exact none_after_limit hlawful ht

end Runs

/-! ### The cases left open -/

def wrongCaller : Caller := ⟨"collector", ⟨"0000", []⟩⟩

def rightCaller : Caller := ⟨"collector", ⟨"4829", []⟩⟩

def lightCaller : Caller :=
  ⟨"collector", ⟨"4829", (DoubleRounding.Double.ofRat? (1 / 4)).toList.map fun weight =>
    ("PET", weight)⟩⟩

def sampleWorld : TimedWorld where
  base := ⟨{ sampleStore none with cachedPin := some "4829" }, false, []⟩
  now := 0
  attemptsUntil := 0
  lockUntil := 0
  pinUntil := 1800 * 1000

def steps (j n : ℕ) : List DeskEvent := List.replicate n (.advance j answered)

def attempt (j : ℕ) (caller : Caller) (n : ℕ) : List DeskEvent := .start j caller :: steps j n

/-- Four wrong PINs; the fifth is compared before the counter lapses and counted after it. -/
def lapsing : List DeskEvent :=
  attempt 0 wrongCaller 7 ++ attempt 1 wrongCaller 7 ++ attempt 2 wrongCaller 7 ++
    attempt 3 wrongCaller 7 ++ .outside (.pass 899999) :: attempt 4 wrongCaller 4 ++
    .outside (.pass 5) :: steps 4 3 ++ attempt 5 rightCaller 4

theorem wrongPins_limited_lapsing :
    ∃ c, run (system sampleService).step (quiescent sampleWorld) lapsing = some c ∧
    Limited (trace (system sampleService).step mark (quiescent sampleWorld) lapsing) ∧
      ThenRefused (trace (system sampleService).step mark (quiescent sampleWorld) lapsing) ∧
      Along (system sampleService).step Framed (quiescent sampleWorld) lapsing := by
  obtain ⟨c, hc⟩ := Option.isSome_iff_exists.mp (show (run (system sampleService).step
    (quiescent sampleWorld) lapsing).isSome = true by decide +kernel)
  exact ⟨c, hc, wrongPins_limited rfl (by decide +kernel) hc⟩

/-- None is compared in the fifteen minutes after the fifth wrong one of the fifteen minutes
before. -/
def Refused (h : List Mark) : Prop :=
  ∀ p c q t right, h = p ++ .tried c false :: q → .tried t right ∈ q →
    (∀ t, .tried t true ∈ p → t + window ≤ c) →
    5 ≤ wrongs (c + 1 - window) (c + 1) (p ++ [.tried c false]) → c + window ≤ t

def failed (c : Desk) (j : ℕ) : Bool :=
  match c.tasks j with
  | some ⟨_, .done x⟩ => !x.2.isOk
  | _ => false

/-- The counter has lapsed when the fifth wrong PIN is counted, and the next one is compared; a
right PIN with weights that do not pass drops the cached PIN. -/
theorem lapsing_not_refused :
    (Along (system sampleService).step (fun c e => available c e = true)
      (quiescent sampleWorld) lapsing ∧
      ¬Refused (trace (system sampleService).step mark (quiescent sampleWorld) lapsing)) ∧
    ∃ c, Along (system sampleService).step (fun c e => available c e = true) (quiescent sampleWorld)
        (attempt 0 lightCaller 7) ∧
      run (system sampleService).step (quiescent sampleWorld) (attempt 0 lightCaller 7) = some c ∧
      failed c 0 = true ∧ ¬Same sampleWorld c.world := by
  refine ⟨⟨by decide +kernel, fun hrefused => ?_⟩, ?_⟩
  · have htrace : trace (system sampleService).step mark (quiescent sampleWorld) lapsing =
        [.tried 0 false, .counted 0 1, .tried 0 false, .counted 0 2, .tried 0 false, .counted 0 3,
          .tried 0 false, .counted 0 4] ++ .tried 899999 false ::
          [.counted 900004 1, .tried 900004 true] := by decide +kernel
    have hlater := hrefused _ 899999 _ 900004 true htrace (by decide) (fun t ht => by simp at ht)
      (by decide)
    exact absurd hlater (by decide)
  · have hlight : (run (system sampleService).step (quiescent sampleWorld)
      (attempt 0 lightCaller 7)).map
        (fun c => (failed c 0, c.world.base.store.cachedPin)) = some (true, none) := by
          decide +kernel
    obtain ⟨c, hrun, hc⟩ := Option.map_eq_some_iff.mp hlight
    obtain ⟨hfailed, hpin⟩ := Prod.mk.inj hc
    refine ⟨c, by decide +kernel, hrun, hfailed, fun hsame => ?_⟩
    have hkept : c.world.base.store.cachedPin = some "4829" := congrArg Store.cachedPin hsame.1
    rw [hpin] at hkept
    cases hkept

end Livora.PinAttempts
