import Livora.TransitionRuns
import Mathlib.Logic.Function.Basic
import Mathlib.Tactic.Common

/-! `StellarSequenceManager.withAccountLock`: the lock of an account in Redis, which any
number of processes ask for. Whoever does not get it in time, or not at all, runs its
callback without it, and a lock runs out while its callback still runs; one callback of
an account runs at a time along every run where neither happens. -/

namespace Livora.AccountLocks

open TransitionRuns

/-- What is stored under `stellar:lock:seq:` and the public key. -/
structure Lock where
  lockVal : ℕ
  expiresAt : ℕ
deriving DecidableEq

inductive Phase where
  | waiting
  | running (acquired : Bool)
  | releasing
deriving DecidableEq

structure Call where
  publicKey : String
  lockVal : ℕ
  ttlMs : ℕ
  phase : Phase
deriving DecidableEq

structure Locks where
  now : ℕ
  redis : String → Option Lock
  calls : ℕ → Option Call
  /-- The next value of `randomBytes(16)`, which does not draw one twice. -/
  drawn : ℕ

def Locks.idle : Locks := ⟨0, fun _ => none, fun _ => none, 0⟩

/-- How Redis answers: an error may come before the command takes effect or after. -/
inductive Answer where
  | served
  | failed
  | lost
deriving DecidableEq

/-- A call enters, with a Redis client or without, tests the clock and asks for the lock, has run
its callback, or gives the lock back. -/
inductive Event where
  | enter (j : ℕ) (publicKey : String) (ttlMs : ℕ) (connected : Bool)
  | attempt (j elapsedMs : ℕ) (answer : Answer)
  | finish (j : ℕ)
  | release (j : ℕ) (answer : Answer)
  | pass (ms : ℕ)

def Locks.put (l : Locks) (j : ℕ) (call : Option Call) : Locks :=
  { l with calls := Function.update l.calls j call }

def Locks.current (l : Locks) (publicKey : String) : Option Lock :=
  (l.redis publicKey).filter fun lock => l.now < lock.expiresAt

/-- `set(lockKey, lockVal, 'PX', ttlMs, 'NX')` -/
def Locks.set (l : Locks) (c : Call) : Locks :=
  { l with redis := Function.update l.redis c.publicKey (some ⟨c.lockVal, l.now + c.ttlMs⟩) }

/-- One round of the loop that asks for the lock. -/
def acquire (l : Locks) (j : ℕ) (c : Call) (elapsedMs : ℕ) (answer : Answer) : Locks :=
  if elapsedMs < c.ttlMs then
    match answer with
    | .served =>
      if (l.current c.publicKey).isNone then
        (l.set c).put j (some { c with phase := .running true })
      else l
    | .failed => l.put j (some { c with phase := .running false })
    | .lost =>
      (if (l.current c.publicKey).isNone then l.set c else l).put j
        (some { c with phase := .running false })
  else l.put j (some { c with phase := .running false })

/-- The script that deletes the lock if its value is the caller's own. -/
def compareAndDelete (l : Locks) (c : Call) : Locks :=
  if (l.current c.publicKey).any fun lock => lock.lockVal == c.lockVal then
    { l with redis := Function.update l.redis c.publicKey none }
  else l

def step (l : Locks) : Event → Option Locks
  | .enter j publicKey ttlMs connected =>
    match l.calls j with
    | none => some (({ l with drawn := l.drawn + 1 }).put j
        (some ⟨publicKey, l.drawn, ttlMs, if connected then .waiting else .running false⟩))
    | some _ => none
  | .attempt j elapsedMs answer =>
    match l.calls j with
    | some c => if c.phase = .waiting then some (acquire l j c elapsedMs answer) else none
    | none => none
  | .finish j =>
    match l.calls j with
    | some c =>
      match c.phase with
      | .running true => some (l.put j (some { c with phase := .releasing }))
      | .running false => some (l.put j none)
      | _ => none
    | none => none
  | .release j answer =>
    match l.calls j with
    | some c =>
      if c.phase = .releasing then
        some ((if answer = .failed then l else compareAndDelete l c).put j none)
      else none
    | none => none
  | .pass ms => some { l with now := l.now + ms }

/-! ### Who runs, and who holds -/

def Runs (l : Locks) (j : ℕ) (publicKey : String) : Prop :=
  ∃ c acquired, l.calls j = some c ∧ c.publicKey = publicKey ∧ c.phase = .running acquired

/-- The lock that is in force is the one the call has asked for. -/
def Holds (l : Locks) (j : ℕ) (publicKey : String) : Prop :=
  ∃ c lock, l.calls j = some c ∧ c.publicKey = publicKey ∧ l.current publicKey = some lock ∧
    lock.lockVal = c.lockVal

structure Drawn (l : Locks) : Prop where
  fresh : ∀ j c, l.calls j = some c → c.lockVal < l.drawn
  apart : ∀ i j c c', l.calls i = some c → l.calls j = some c' → c.lockVal = c'.lockVal → i = j

/-- A callback runs only with the lock, and the lock does not run out on it. -/
def Guarded (l : Locks) : Event → Prop
  | .enter _ _ _ connected => connected = true
  | .attempt j elapsedMs answer =>
      answer = .served ∧ ∀ c, l.calls j = some c → elapsedMs < c.ttlMs
  | .pass ms => ∀ j publicKey, Runs l j publicKey → ∀ lock, l.redis publicKey = some lock →
      l.now + ms < lock.expiresAt
  | _ => True

variable {l l' : Locks} {e : Event} {i j : ℕ} {c : Call} {call : Option Call} {publicKey : String}

theorem calls_put : (l.put j call).calls i = if i = j then call else l.calls i := by
  by_cases hij : i = j
  · subst hij
    rw [if_pos rfl]
    exact Function.update_self ..
  · rw [if_neg hij]
    exact Function.update_of_ne hij ..

/-! ### Values -/

theorem Drawn.put {c' : Call} (h : Drawn l) (hj : l.calls j = some c)
    (hval : c'.lockVal = c.lockVal) : Drawn (l.put j (some c')) := by
  have hold {a : ℕ} {ca : Call} (ha : (l.put j (some c')).calls a = some ca) :
      ∃ cb, l.calls a = some cb ∧ ca.lockVal = cb.lockVal := by
    rw [calls_put] at ha
    split at ha
    · cases ha
      subst_vars
      exact ⟨c, hj, hval⟩
    · exact ⟨ca, ha, rfl⟩
  constructor
  · intro a ca ha
    obtain ⟨cb, hb, hsame⟩ := hold ha
    rw [hsame]
    exact h.fresh a cb hb
  · intro a b ca cb ha hb hsame
    obtain ⟨da, ha', hda⟩ := hold ha
    obtain ⟨db, hb', hdb⟩ := hold hb
    exact h.apart a b da db ha' hb' (by rw [← hda, ← hdb, hsame])

theorem Drawn.gone (h : Drawn l) (j : ℕ) : Drawn (l.put j none) := by
  have hold {a : ℕ} {ca : Call} (ha : (l.put j none).calls a = some ca) : l.calls a = some ca := by
    rw [calls_put] at ha
    split at ha
    · cases ha
    · exact ha
  exact ⟨fun a ca ha => h.fresh a ca (hold ha),
    fun a b ca cb ha hb => h.apart a b ca cb (hold ha) (hold hb)⟩

theorem Drawn.locks (h : Drawn l) (now : ℕ) (redis : String → Option Lock) :
    Drawn { l with now := now, redis := redis } := ⟨h.fresh, h.apart⟩

theorem drawn_acquire (h : Drawn l) (hj : l.calls j = some c) (elapsedMs : ℕ) (answer : Answer) :
    Drawn (acquire l j c elapsedMs answer) := by
  unfold acquire
  split
  · cases answer with
    | served =>
      dsimp only
      split
      · exact (h.locks l.now _).put (c := c) hj rfl
      · exact h
    | failed => exact h.put hj rfl
    | lost =>
      dsimp only
      split
      · exact (h.locks l.now _).put (c := c) hj rfl
      · exact h.put hj rfl
  · exact h.put hj rfl

theorem step_cases (hs : step l e = some l') :
    (∃ j publicKey ttlMs connected, e = .enter j publicKey ttlMs connected ∧ l.calls j = none ∧
      l' = ({ l with drawn := l.drawn + 1 }).put j
        (some ⟨publicKey, l.drawn, ttlMs, if connected then .waiting else .running false⟩)) ∨
    (∃ j elapsedMs answer c, e = .attempt j elapsedMs answer ∧ l.calls j = some c ∧
      c.phase = .waiting ∧ l' = acquire l j c elapsedMs answer) ∨
    (∃ j c acquired call, e = .finish j ∧ l.calls j = some c ∧ c.phase = .running acquired ∧
      (call = none ∨ call = some { c with phase := .releasing }) ∧ l' = l.put j call) ∨
    (∃ j answer c, e = .release j answer ∧ l.calls j = some c ∧ c.phase = .releasing ∧
      l' = (if answer = .failed then l else compareAndDelete l c).put j none) ∨
    ∃ ms, e = .pass ms ∧ l' = { l with now := l.now + ms } := by
  cases e with
  | enter j publicKey ttlMs connected =>
    cases hj : l.calls j with
    | some c =>
      simp only [step, hj] at hs
      cases hs
    | none =>
      simp only [step, hj] at hs
      exact .inl ⟨j, publicKey, ttlMs, connected, rfl, hj, (Option.some.inj hs).symm⟩
  | attempt j elapsedMs answer =>
    cases hj : l.calls j with
    | none =>
      simp only [step, hj] at hs
      cases hs
    | some c =>
      simp only [step, hj] at hs
      split at hs
      · exact .inr (.inl ⟨j, elapsedMs, answer, c, rfl, hj, ‹_›, (Option.some.inj hs).symm⟩)
      · cases hs
  | finish j =>
    cases hj : l.calls j with
    | none =>
      simp only [step, hj] at hs
      cases hs
    | some c =>
      simp only [step, hj] at hs
      split at hs
      · exact .inr (.inr (.inl ⟨j, c, true, _, rfl, hj, ‹_›, .inr rfl, (Option.some.inj hs).symm⟩))
      · exact .inr (.inr (.inl ⟨j, c, false, _, rfl, hj, ‹_›, .inl rfl, (Option.some.inj hs).symm⟩))
      · cases hs
  | release j answer =>
    cases hj : l.calls j with
    | none =>
      simp only [step, hj] at hs
      cases hs
    | some c =>
      simp only [step, hj] at hs
      split at hs
      · exact .inr (.inr (.inr (.inl ⟨j, answer, c, rfl, hj, ‹_›, (Option.some.inj hs).symm⟩)))
      · cases hs
  | pass ms => exact .inr (.inr (.inr (.inr ⟨ms, rfl, (Option.some.inj hs).symm⟩)))

theorem drawn_release (h : Drawn l) (c : Call) (answer : Answer) :
    Drawn (if answer = .failed then l else compareAndDelete l c) := by
  split
  · exact h
  · unfold compareAndDelete
    split
    · exact h.locks l.now _
    · exact h

theorem drawn_step (h : Drawn l) (hs : step l e = some l') : Drawn l' := by
  rcases step_cases hs with ⟨j, publicKey, ttlMs, connected, -, hj, rfl⟩ |
    ⟨j, elapsedMs, answer, c, -, hj, -, rfl⟩ | ⟨j, c, acquired, call, -, hj, -, hcall, rfl⟩ |
    ⟨j, answer, c, -, hj, -, rfl⟩ | ⟨ms, -, rfl⟩
  · have hold {a : ℕ} {ca : Call} (ha : (({ l with drawn := l.drawn + 1 }).put j
        (some ⟨publicKey, l.drawn, ttlMs,
          if connected then .waiting else .running false⟩)).calls a =
          some ca) : a = j ∧ ca.lockVal = l.drawn ∨ l.calls a = some ca := by
      rw [calls_put] at ha
      split at ha
      · cases ha
        exact .inl ⟨‹_›, rfl⟩
      · exact .inr ha
    constructor
    · intro a ca ha
      change ca.lockVal < l.drawn + 1
      rcases hold ha with ⟨-, hval⟩ | ha
      · omega
      · have := h.fresh a ca ha
        omega
    · intro a b ca cb ha hb hsame
      rcases hold ha with ⟨rfl, hva⟩ | ha' <;> rcases hold hb with ⟨rfl, hvb⟩ | hb'
      · rfl
      · have := h.fresh b cb hb'
        omega
      · have := h.fresh a ca ha'
        omega
      · exact h.apart a b ca cb ha' hb' hsame
  · exact drawn_acquire h hj elapsedMs answer
  · rcases hcall with rfl | rfl
    · exact h.gone j
    · exact h.put hj rfl
  · exact (drawn_release h c answer).gone j
  · exact h.locks _ _

theorem drawn_idle : Drawn Locks.idle :=
  ⟨fun _ _ h => (by cases h), fun _ _ _ _ h => (by cases h)⟩

/-! ### Releases -/

def ReleasesItsOwn (l : Locks) (e : Event) : Prop :=
  ∀ j answer l', e = .release j answer → step l e = some l' → ∀ i publicKey, i ≠ j →
    Holds l i publicKey → Holds l' i publicKey

theorem current_delete {c' : Call} {lock : Lock} (hlock : l.current publicKey = some lock)
    (hval : lock.lockVal ≠ c'.lockVal) : (compareAndDelete l c').current publicKey = some lock := by
  unfold compareAndDelete
  split
  · rename_i hmine
    have hne : publicKey ≠ c'.publicKey := by
      rintro rfl
      rw [hlock] at hmine
      exact hval (by simpa using hmine)
    change (Function.update l.redis c'.publicKey none publicKey).filter _ = some lock
    rw [Function.update_of_ne hne]
    exact hlock
  · exact hlock

theorem releases_own (h : Drawn l) : ReleasesItsOwn l e := by
  rintro j answer l' rfl hs i publicKey hij ⟨c, lock, hi, hkey, hlock, hval⟩
  rcases step_cases hs with ⟨_, _, _, _, he, _⟩ | ⟨_, _, _, _, he, _⟩ | ⟨_, _, _, _, he, _⟩ |
    ⟨j', answer', c', he, hj, -, rfl⟩ | ⟨_, he, _⟩
  · cases he
  · cases he
  · cases he
  · cases he
    have hother : lock.lockVal ≠ c'.lockVal := fun hsame =>
      hij (h.apart i j c c' hi hj (hval.symm.trans hsame))
    have hcalls : (if answer = .failed then l else compareAndDelete l c').calls i = l.calls i := by
      unfold compareAndDelete
      split
      · rfl
      · split <;> rfl
    refine ⟨c, lock, ?_, hkey, ?_, hval⟩
    · rw [calls_put, if_neg hij, hcalls]
      exact hi
    · change (if answer = .failed then l else compareAndDelete l c').current publicKey = some lock
      split
      · exact hlock
      · exact current_delete hlock hother
  · cases he

/-! ### Callbacks -/

def Locked (l : Locks) : Prop :=
  ∀ j c acquired, l.calls j = some c → c.phase = .running acquired →
    ∃ lock, l.current c.publicKey = some lock ∧ lock.lockVal = c.lockVal

theorem current_set (httl : 0 < c.ttlMs) :
    (l.set c).current publicKey =
      if publicKey =
        c.publicKey then some ⟨c.lockVal, l.now + c.ttlMs⟩ else l.current publicKey := by
  unfold Locks.current Locks.set
  by_cases hkey : publicKey = c.publicKey
  · subst hkey
    simp [httl]
  · simp [hkey]

theorem locked_step (h : Locked l) (hd : Drawn l) (hg : Guarded l e) (hs : step l e = some l') :
    Locked l' := by
  rcases step_cases hs with ⟨j, publicKey, ttlMs, connected, rfl, hj, rfl⟩ |
    ⟨j, elapsedMs, answer, c, rfl, hj, hwaiting, rfl⟩ |
    ⟨j, c, acquired, call, rfl, hj, -, hcall, rfl⟩ | ⟨j, answer, c, rfl, hj, -, rfl⟩ | ⟨ms,
      rfl, rfl⟩
  · intro a ca acquired ha hruns
    rw [calls_put] at ha
    split at ha
    · cases ha
      rw [show connected = true from hg] at hruns
      cases hruns
    · exact h a ca acquired ha hruns
  · obtain ⟨rfl, htime⟩ := hg
    unfold acquire
    rw [if_pos (htime c hj)]
    dsimp only
    split
    swap
    · exact h
    rename_i hfree
    have hnone : l.current c.publicKey = none := by simpa using hfree
    intro a ca acquired ha hruns
    have httl : 0 < c.ttlMs := Nat.zero_lt_of_lt (htime c hj)
    have hcurrent : ((l.set c).put j
      (some { c with phase := .running true })).current ca.publicKey =
        (l.set c).current ca.publicKey := rfl
    rw [hcurrent, current_set httl]
    rw [calls_put] at ha
    split at ha
    · cases ha
      exact ⟨_, if_pos rfl, rfl⟩
    · obtain ⟨lock, hlock, hval⟩ := h a ca acquired ha hruns
      have hne : ca.publicKey ≠ c.publicKey := by
        intro hkey
        rw [hkey, hnone] at hlock
        cases hlock
      exact ⟨lock, (if_neg hne).trans hlock, hval⟩
  · intro a ca acquired' ha hruns
    rw [calls_put] at ha
    split at ha
    · rcases hcall with rfl | rfl
      · cases ha
      · cases ha
        cases hruns
    · exact h a ca acquired' ha hruns
  · intro a ca acquired ha hruns
    rw [calls_put] at ha
    split at ha
    · cases ha
    · rename_i haj
      have hcalls : (if answer = .failed then l else compareAndDelete l c).calls a = l.calls a := by
        unfold compareAndDelete
        split
        · rfl
        · split <;> rfl
      rw [hcalls] at ha
      obtain ⟨lock, hlock, hval⟩ := h a ca acquired ha hruns
      have hother : lock.lockVal ≠ c.lockVal := fun hsame =>
        haj (hd.apart a j ca c ha hj (hval.symm.trans hsame))
      refine ⟨lock, ?_, hval⟩
      change (if answer = .failed then l else compareAndDelete l c).current ca.publicKey = some lock
      split
      · exact hlock
      · exact current_delete hlock hother
  · intro a ca acquired ha hruns
    obtain ⟨lock, hlock, hval⟩ := h a ca acquired ha hruns
    obtain ⟨hredis, -⟩ := Option.filter_eq_some_iff.mp hlock
    have hlater := hg a ca.publicKey ⟨ca, acquired, ha, rfl, hruns⟩ lock hredis
    exact ⟨lock, Option.filter_eq_some_iff.mpr ⟨hredis, by simpa using hlater⟩, hval⟩

/-- No release deletes the lock of another call; and along every run in which callbacks run only
with the lock, and within its time, one callback of an account runs at a time. -/
theorem callbacks_exclusive {es : List Event} (hrun : run step Locks.idle es = some l) :
    Along step ReleasesItsOwn Locks.idle es ∧
    (Along step Guarded Locks.idle es → ∀ i j publicKey, Runs l i publicKey → Runs l j publicKey →
      i = j) := by
  have hdrawn {p : List Event} {l : Locks} (hr : run step Locks.idle p = some l) : Drawn l :=
    run_preserves (fun _ _ _ h hs => drawn_step h hs) drawn_idle hr
  refine ⟨along_iff.mpr fun p e q t _ hprefix => releases_own (hdrawn hprefix), ?_⟩
  rintro hguarded i j publicKey ⟨c, acquired, hi, rfl, hruns⟩ ⟨c', acquired', hj, hkey, hruns'⟩
  have hboth : Drawn l ∧ Locked l := by
    refine run_invariant (I := fun l => Drawn l ∧ Locked l) ?_
      ⟨drawn_idle, fun _ _ _ h => by cases h⟩ hguarded hrun
    rintro l e l' ⟨hd, hl⟩ hg hs
    exact ⟨drawn_step hd hs, locked_step hl hd hg hs⟩
  obtain ⟨lock, hlock, hval⟩ := hboth.2 i c acquired hi hruns
  obtain ⟨lock', hlock', hval'⟩ := hboth.2 j c' acquired' hj hruns'
  rw [hkey, hlock] at hlock'
  cases hlock'
  exact hboth.1.apart i j c c' hi hj (hval.symm.trans hval')

/-! ### Two callers of one account -/

def phaseOf (l : Locks) (j : ℕ) : Option (String × Phase) :=
  (l.calls j).map fun c => (c.publicKey, c.phase)

theorem runs_of_phase {acquired : Bool} (h : phaseOf l j = some (publicKey, .running acquired)) :
    Runs l j publicKey := by
  obtain ⟨c, hc, hpair⟩ := Option.map_eq_some_iff.mp h
  obtain ⟨hkey, hphase⟩ := Prod.mk.inj hpair
  exact ⟨c, acquired, hc, hkey, hphase⟩

def inTurn : List Event :=
  [.enter 0 "account" 15000 true, .enter 1 "account" 15000 true, .attempt 0 0 .served,
    .attempt 1 0 .served, .finish 0, .release 0 .served, .attempt 1 100 .served]

/-- The callback of the first call polls the chain for longer than its lock lasts. -/
def lateCallback : List Event :=
  [.enter 0 "account" 15000 true, .attempt 0 0 .served, .pass 15000, .enter 1 "account" 15000 true,
    .attempt 1 0 .served]

def withoutRedis : List Event :=
  [.enter 0 "account" 15000 true, .attempt 0 0 .served, .enter 1 "account" 15000 true,
    .attempt 1 0 .failed]

/-- A callback runs only with the lock, and no time passes. -/
def guarded (l : Locks) : Event → Bool
  | .enter _ _ _ connected => connected
  | .attempt j elapsedMs answer =>
    answer == .served && (l.calls j).all fun c => elapsedMs < c.ttlMs
  | .pass _ => false
  | _ => true

theorem guarded_of_test (h : guarded l e = true) : Guarded l e := by
  cases e with
  | enter j publicKey ttlMs connected => exact h
  | attempt j elapsedMs answer =>
    simp only [guarded, Bool.and_eq_true, beq_iff_eq] at h
    refine ⟨h.1, fun c hj => ?_⟩
    simpa [hj] using h.2
  | pass ms => cases h
  | _ => trivial

theorem callbacks_exclusive_inTurn : ∃ l, run step Locks.idle inTurn = some l ∧
    ∀ i j publicKey, Runs l i publicKey → Runs l j publicKey → i = j := by
  obtain ⟨l, hl⟩ := Option.isSome_iff_exists.mp
    (show (run step Locks.idle inTurn).isSome = true by decide +kernel)
  exact ⟨l, hl, (callbacks_exclusive hl).2
    (along_mono (C := fun l e => guarded l e = true) (fun _ _ h => guarded_of_test h)
      (by decide +kernel))⟩

theorem callbacks_overlap :
    (∃ l, run step Locks.idle lateCallback = some l ∧ Runs l 0 "account" ∧ Runs l 1 "account") ∧
    ∃ l, run step Locks.idle withoutRedis = some l ∧ Runs l 0 "account" ∧ Runs l 1 "account" := by
  constructor
  · have hrun : (run step Locks.idle lateCallback).map (fun l => (phaseOf l 0, phaseOf l 1)) =
        some (some ("account", .running true), some ("account", .running true)) := by decide +kernel
    obtain ⟨l, hl, hpair⟩ := Option.map_eq_some_iff.mp hrun
    obtain ⟨hfirst, hsecond⟩ := Prod.mk.inj hpair
    exact ⟨l, hl, runs_of_phase hfirst, runs_of_phase hsecond⟩
  · have hrun : (run step Locks.idle withoutRedis).map (fun l => (phaseOf l 0, phaseOf l 1)) =
        some (some ("account", .running true), some ("account", .running false)) := by
      decide +kernel
    obtain ⟨l, hl, hpair⟩ := Option.map_eq_some_iff.mp hrun
    obtain ⟨hfirst, hsecond⟩ := Prod.mk.inj hpair
    exact ⟨l, hl, runs_of_phase hfirst, runs_of_phase hsecond⟩

end Livora.AccountLocks
