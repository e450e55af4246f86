import Livora.LoginAttempts
import Livora.ProgramPools
import Livora.StageViews

/-! Logins of any number of accounts against one database, in any order of their calls, while time
passes and passwords are set. No password is compared in the quarter of an hour after a failure that
is the fifth in a row or a later one, along every run in which a comparison finds the credentials as
they were read and no other attempt of the account before its update, and every failure is
recorded. -/

namespace Livora.LoginRaces

open TransitionRuns EffectPrograms EffectPrograms.Action ProgramPools ProgramPools.System KeyedRows StageViews
open AuthBooks LoginAttempts
open BackOffice (Role)
open PinVerification (Delivery)

/-! ### Stages -/

structure Stage where
  found : Option User
  /-- The time that was read last, since the comparison where there was one. -/
  time : Option ℕ
  /-- The failed comparison that has not been recorded, with the credentials it goes by. -/
  missed : Option (String × Credential)
  /-- The successful comparison that has not reset the count. -/
  matched : Option String
  /-- A comparison succeeded. -/
  entered : Bool
deriving DecidableEq

def Stage.first : Stage := ⟨none, none, none, none, false⟩

def needsReset (credentials : Credential) : Bool :=
  decide (0 < credentials.failedAttempts) || credentials.lockedUntil.isSome

def Stage.open (s : Stage) : Option String := (s.missed.map Prod.fst).or s.matched

def Stage.credentials (s : Stage) : Option Credential := s.found.bind User.credentials

def Unlocked (s : Stage) (credentials : Credential) : Prop :=
  ∀ lockedUntil, credentials.lockedUntil = some lockedUntil → ∃ t, s.time = some t ∧ lockedUntil ≤ t

def Allowed (s : Stage) : Op → Prop
  | .findUser _ => s.found = none ∧ s.missed = none ∧ s.matched = none
  | .now => True
  | .compare userId _ _ => s.missed = none ∧ s.matched = none ∧ ∃ user credentials,
      s.found = some user ∧ user.credentials = some credentials ∧ userId = user.id ∧
        Unlocked s credentials
  | .recordFailure userId failedAttempts lockedUntil => ∃ credentials,
      s.missed = some (userId, credentials) ∧ failedAttempts = credentials.failedAttempts + 1 ∧
        (maxFailures ≤ failedAttempts → ∃ t, s.time = some t ∧ lockedUntil = some (t + lockout))
  | .reset userId => s.matched = some userId
  | .createSession _ _ _ => s.missed = none ∧ s.matched = none ∧ s.entered = true

def next (s : Stage) (i : Op) (r : Except Failure (Reply i)) : Stage :=
  match i, r with
  | .findUser _, .ok user => { s with found := user }
  | .now, .ok t => { s with time := some t }
  | .compare userId _ _, .ok true =>
    { s with matched := (s.credentials.filter needsReset).map fun _ => userId, entered := true }
  | .compare userId _ _, .ok false =>
    { s with time := none, missed := s.credentials.map fun credentials => (userId, credentials) }
  | .recordFailure _ _ _, _ => { s with missed := none }
  | .reset _, _ => { s with matched := none }
  | _, _ => s

def protocol : Protocol Stage Op fun i => Except Failure (Reply i) where
  Allowed := Allowed
  next := next

section Programs

variable {s : Stage} {user : User} {credentials : Credential} {password : String}
  {sign : String → String → Role → String}

theorem obeys_lockFor (n : ℕ) : Obeys protocol (fun t x => ∀ lockedUntil, x = .ok lockedUntil →
    t.missed = s.missed ∧ (maxFailures ≤ n → ∃ now, t.time = some now ∧
      lockedUntil = some (now + lockout))) s (lockFor n) := by
  unfold lockFor
  split
  · refine obeys_call.mpr ⟨trivial, fun now lockedUntil h => ?_, fun e lockedUntil h =>
      (by cases h)⟩
    cases h
    exact ⟨rfl, fun _ => ⟨now, rfl, rfl⟩⟩
  · rename_i hfew
    intro lockedUntil h
    cases h
    exact ⟨rfl, fun hmany => absurd hmany hfew⟩

theorem follows_loginFailed {userId : String} (hmissed : s.missed = some (userId, credentials)) :
    Follows protocol s (loginFailed userId credentials) := by
  refine follows_after (obeys_lockFor _) fun lockedUntil t ht => ?_
  obtain ⟨hsame, hlocked⟩ := ht
  exact follows_call ⟨credentials, hsame.trans hmissed, rfl, hlocked⟩ fun _ => follows_throw _

theorem follows_loginMatched (hmissed : s.missed = none) (hentered : s.entered = true)
    (hmatched : s.matched = if needsReset credentials then some user.id else none) :
    Follows protocol s (loginMatched sign user credentials) := by
  unfold loginMatched resetAttempts
  split
  · rename_i hreset
    have hneeds : needsReset credentials = true := by simpa [needsReset] using hreset
    rw [if_pos hneeds] at hmatched
    exact follows_call hmatched fun _ => follows_call ⟨hmissed, rfl, hentered⟩ fun _ =>
      follows_pure _
  · rename_i hreset
    have hneeds : needsReset credentials = false := by simpa [needsReset] using hreset
    rw [hneeds] at hmatched
    exact follows_call ⟨hmissed, hmatched, hentered⟩ fun _ => follows_pure _

theorem follows_loginUnlocked (hfound : s.found = some user)
    (hcredentials : user.credentials = some credentials) (hmissed : s.missed = none)
    (hmatched : s.matched = none) (hunlocked : Unlocked s credentials) :
    Follows protocol s (loginUnlocked sign user credentials password) := by
  have hread : s.credentials = some credentials := by
    rw [Stage.credentials, hfound, Option.bind_some, hcredentials]
  refine follows_call ⟨hmissed, hmatched, user, credentials, hfound, hcredentials, rfl, hunlocked⟩
    fun isMatch => ?_
  cases isMatch with
  | false => exact follows_loginFailed (by simp [protocol, next, hread])
  | true =>
    refine follows_loginMatched hmissed rfl ?_
    cases hneeds : needsReset credentials <;> simp [protocol, next, hread, hneeds, Option.filter]

theorem follows_program (sign : String → String → Role → String) (dto : LoginDto) :
    Follows protocol .first (login sign dto) := by
  refine follows_call ⟨rfl, rfl, rfl⟩ fun found => ?_
  cases found with
  | none => exact follows_throw _
  | some user =>
    change Follows protocol ⟨some user, none, none, none, false⟩ (if _ then _ else _)
    split
    · cases hcredentials : user.credentials with
      | none => exact follows_throw _
      | some credentials =>
        change Follows protocol _ (loginWith sign user credentials dto.password)
        unfold loginWith
        cases hlocked : credentials.lockedUntil with
        | none =>
          exact follows_loginUnlocked rfl hcredentials rfl rfl fun l hl => by
            rw [hlocked] at hl
            cases hl
        | some lockedUntil =>
          refine @follows_call _ _ _ _ _ _ _ Op.now _ trivial fun now => ?_
          split
          · exact @follows_call _ _ _ _ _ _ _ Op.now _ trivial fun _ => follows_throw _
          · rename_i hpast
            refine follows_loginUnlocked rfl hcredentials rfl rfl fun l hl => ⟨now, rfl, ?_⟩
            rw [hlocked] at hl
            cases hl
            exact Nat.le_of_not_lt hpast
    · exact follows_throw _

end Programs

/-! ### The system -/

inductive Outside where
  | pass (ms : ℕ)
  /-- A new password, by a link, by its owner or by an administrator. -/
  | setPassword (userId passwordHash : String)
  /-- An account is made, or changed; its credentials stay or are deleted. -/
  | amend (row : User)

def fresh (passwordHash : String) (user : User) : User :=
  { user with credentials := some ⟨passwordHash, 0, none⟩ }

def outside (w : World) : Outside → Option World
  | .pass ms => some { w with now := w.now + ms }
  | .setPassword userId passwordHash =>
    some { w with
      users := w.users.map fun user => if user.id = userId then fresh passwordHash user else user
      misses := Function.update w.misses userId 0 }
  | .amend row =>
    match w.findById row.id with
    | some old =>
      if row.credentials = old.credentials ∨ row.credentials = none then
        some { w with users := upsert User.id w.users row }
      else none
    | none =>
      if row.credentials.all (fun c => c.failedAttempts == 0 && c.lockedUntil.isNone) = true then
        some { w with
          users := upsert User.id w.users row
          misses := Function.update w.misses row.id 0 }
      else none

def system (sign : String → String → Role → String) : System LoginDto World Outcome Outside Stage Op
    (fun i => Except Failure (Reply i)) (Except Failure LoginResult) where
  program dto := (login sign dto).run
  serve := World.serve
  outside := outside
  protocol := protocol
  first := .first

abbrev Race := Pool World
  (Task Stage Op (fun i => Except Failure (Reply i)) (Except Failure LoginResult))

abbrev RaceEvent := Event LoginDto Outcome Outside

def quiescent (w : World) : Race := ⟨w, fun _ => none⟩

/-! ### What the credentials show -/

/-- The account was not locked out when the password is compared: fewer than five failures in a row,
or the last of them a quarter of an hour ago. -/
def Admitted (w : World) (userId : String) : Prop :=
  w.misses userId < maxFailures ∨ w.lastMiss userId + lockout ≤ w.now

/-- The credentials show the failures, and the lockout where there are five. -/
structure Recorded (w : World) (userId : String) (credentials : Credential) : Prop where
  counted : w.misses userId ≤ credentials.failedAttempts
  locked : maxFailures ≤ w.misses userId → ∃ lockedUntil, credentials.lockedUntil =
    some lockedUntil ∧
    w.lastMiss userId + lockout ≤ lockedUntil

structure Knows (w : World) (s : Stage) : Prop where
  time : ∀ t, s.time = some t → t ≤ w.now
  missed : ∀ userId credentials, s.missed = some (userId, credentials) →
    w.misses userId ≤ credentials.failedAttempts + 1 ∧
      ∀ t, s.time = some t → w.lastMiss userId ≤ t
  matched : ∀ userId, s.matched = some userId → w.misses userId = 0 ∧ s.missed = none

/-- The account has credentials that show its failures, unless one is still to be recorded. -/
def Shown (w : World) (st : ℕ → Option Stage) : Prop :=
  ∀ user ∈ w.users, ∀ credentials, user.credentials = some credentials →
    (∀ j missed, view Stage.missed st j = some missed → missed.1 ≠ user.id) →
      Recorded w user.id credentials

structure Kept (w : World) (st : ℕ → Option Stage) : Prop where
  keys : (w.users.map User.id).Nodup
  past : ∀ userId, w.lastMiss userId ≤ w.now
  shown : Shown w st
  knows : ∀ j s, st j = some s → Knows w s
  apart : ∀ i j userId, view Stage.open st i = some userId →
    view Stage.open st j = some userId → i = j

variable {w w' : World} {st : ℕ → Option Stage} {i : Op} {o : Outcome} {s s' : Stage} {j : ℕ}
  {userId : String}

theorem Recorded.congr {credentials : Credential} (h : Recorded w userId credentials)
    (hmisses : w'.misses userId = w.misses userId)
    (hlast : w'.lastMiss userId = w.lastMiss userId) :
    Recorded w' userId credentials := by
  constructor
  · rw [hmisses]
    exact h.counted
  · rw [hmisses, hlast]
    exact h.locked

theorem recorded_of_zero {credentials : Credential} (h : w.misses userId = 0) :
    Recorded w userId credentials := by
  constructor
  · rw [h]
    exact Nat.zero_le _
  · rw [h]
    exact fun hmany => absurd hmany (by decide)

theorem open_of_missed {credentials : Credential} (h : s.missed = some (userId, credentials)) :
    s.open = some userId := by
  rw [Stage.open, h]
  rfl

theorem open_of_matched (hmissed : s.missed = none) (h : s.matched = some userId) :
    s.open = some userId := by
  rw [Stage.open, hmissed, h]
  rfl

theorem Kept.stage (h : Kept w st) (hs : Knows w s') (hmissed : view Stage.missed st j = s'.missed)
    (hopen : view Stage.open st j = s'.open) : Kept w (Function.update st j (some s')) where
  keys := h.keys
  past := h.past
  shown := by
    have hsame : view Stage.missed (Function.update st j (some s')) = view Stage.missed st :=
      view_keep hmissed
    unfold Shown
    rw [hsame]
    exact h.shown
  knows := knows_update (fun k t _ ht => h.knows k t ht) fun t ht => by
    cases ht
    exact hs
  apart := by
    have hsame : view Stage.open (Function.update st j (some s')) = view Stage.open st :=
      view_keep hopen
    rw [hsame]
    exact h.apart

/-! ### One call -/

/-- A comparison finds the credentials as they were read, while no other attempt of the account has
one to write down; a failure is recorded. -/
def Firm (c : Race) (j : ℕ) (o : Outcome) : Op → Prop
  | .compare userId _ _ => o.delivery = .done →
      (∀ s, stages c j = some s → s.credentials = (c.world.findById userId).bind User.credentials) ∧
        ∀ k, k ≠ j → view Stage.open (stages c) k ≠ some userId
  | .recordFailure _ _ _ => o.delivery.applied = true
  | _ => True

def Firmly (c : Race) : RaceEvent → Prop
  | .advance j o => ∀ i, pending c j = some i → Firm c j o i
  | .stop j => view Stage.missed (stages c) j = none
  | _ => True

theorem call_now (h : Kept w st) (hj : st j = some s) :
    Kept (w.after .now o) (Function.update st j (some (next s .now (w.reply .now o)))) := by
  have hafter : w.after .now o = w := ite_self w
  have hknows := h.knows j s hj
  rw [hafter]
  refine h.stage ⟨fun t ht => ?_, fun u c hu => ⟨(hknows.missed u c hu).1, fun t ht => ?_⟩,
    hknows.matched⟩ ((view_eq hj).trans rfl) ((view_eq hj).trans rfl)
  · cases ht
    exact le_rfl
  · cases ht
    exact h.past u

theorem call_findUser (h : Kept w st) (hj : st j = some s) {email : String} :
    Kept (w.after (.findUser email) o)
      (Function.update st j (some (next s (.findUser email) (w.reply (.findUser email) o)))) := by
  have hafter : w.after (.findUser email) o = w := ite_self w
  have hknows := h.knows j s hj
  rw [hafter]
  cases w.reply (.findUser email) o with
  | error e => exact h.stage hknows (view_eq hj) (view_eq hj)
  | ok user =>
    exact h.stage ⟨hknows.time, hknows.missed, hknows.matched⟩ ((view_eq hj).trans rfl)
      ((view_eq hj).trans rfl)

theorem call_createSession (h : Kept w st) (hj : st j = some s) {email : String} {role : Role} :
    Kept (w.after (.createSession userId email role) o) (Function.update st j
      (some (next s (.createSession userId email role)
        (w.reply (.createSession userId email role) o)))) := by
  have hafter : w.after (.createSession userId email role) o = w := ite_self w
  rw [hafter]
  cases w.reply (.createSession userId email role) o with
  | error e => exact h.stage (h.knows j s hj) (view_eq hj) (view_eq hj)
  | ok token => exact h.stage (h.knows j s hj) (view_eq hj) (view_eq hj)

theorem recorded_of_read {credentials : Credential} (h : Kept w st)
    (hread : (w.findById userId).bind User.credentials = some credentials)
    (hfree : ∀ k, view Stage.open st k ≠ some userId) : Recorded w userId credentials := by
  obtain ⟨user, huser, hcredentials⟩ := Option.bind_eq_some_iff.mp hread
  have hkey : user.id = userId := key_of_lookup huser
  rw [← hkey]
  refine h.shown user (mem_of_lookup huser) credentials hcredentials fun k missed hk he => ?_
  obtain ⟨s, hs, hmissed⟩ := view_some.mp hk
  refine hfree k ?_
  rw [view_eq hs, ← hkey, ← he]
  exact open_of_missed hmissed

theorem admitted_of_recorded {credentials : Credential} (h : Recorded w userId credentials)
    (hknows : Knows w s) (hunlocked : Unlocked s credentials) : Admitted w userId := by
  by_cases hmany : maxFailures ≤ w.misses userId
  · obtain ⟨lockedUntil, hlocked, hlast⟩ := h.locked hmany
    obtain ⟨t, ht, hle⟩ := hunlocked lockedUntil hlocked
    exact .inr (hlast.trans (hle.trans (hknows.time t ht)))
  · exact .inl (Nat.lt_of_not_le hmany)

theorem mem_users_withCredentials {f : Credential → Credential} {user : User}
    {credentials : Credential} (huser : user ∈ w.users.map (World.withCredentials userId f))
    (hcredentials : user.credentials = some credentials) :
    user.id = userId ∧ (∃ old, credentials = f old) ∨ user.id ≠ userId ∧ user ∈ w.users := by
  obtain ⟨old, hold, rfl⟩ := List.mem_map.mp huser
  unfold World.withCredentials at hcredentials ⊢
  by_cases hid : old.id = userId
  · rw [if_pos hid] at hcredentials ⊢
    obtain ⟨c, -, hc⟩ := Option.map_eq_some_iff.mp hcredentials
    exact .inl ⟨hid, c, hc.symm⟩
  · rw [if_neg hid]
    exact .inr ⟨hid, hold⟩

theorem id_withCredentials (userId : String) (f : Credential → Credential) (user : User) :
    (World.withCredentials userId f user).id = user.id := by
  unfold World.withCredentials
  split <;> rfl

theorem kept_miss {credentials : Credential} (h : Kept w st)
    (hrecorded : Recorded w userId credentials)
    (hfree : ∀ k, view Stage.open st k ≠ some userId) (hj : view Stage.missed st j = none)
    {found : Option User} {entered : Bool} :
    Kept (w.compared userId false)
      (Function.update st j (some ⟨found, none, some (userId, credentials), none, entered⟩)) := by
  have hother {u : String} (hu : u ≠ userId) : (w.compared userId false).misses u = w.misses u ∧
      (w.compared userId false).lastMiss u = w.lastMiss u :=
    ⟨Function.update_of_ne hu _ _, Function.update_of_ne hu _ _⟩
  have hmisses : (w.compared userId false).misses userId = w.misses userId + 1 :=
    Function.update_self _ _ _
  refine ⟨h.keys, fun u => ?_, fun user huser c hc hnone => ?_,
    knows_update (fun k t _ ht => ?_) fun t ht => ?_, apart_take h.apart fun u hu k _ => ?_⟩
  · by_cases hu : u = userId
    · subst hu
      exact (Function.update_self u w.now w.lastMiss).le
    · rw [(hother hu).2]
      exact h.past u
  · have hne : user.id ≠ userId := by
      refine fun he => hnone j (userId, credentials) ?_ he.symm
      rw [view_update, Function.update_self]
      rfl
    refine (h.shown user huser c hc fun k missed hk he => ?_).congr (hother hne).1 (hother hne).2
    by_cases hkj : k = j
    · rw [hkj, hj] at hk
      cases hk
    · exact hnone k missed ((view_of_ne hkj).trans hk) he
  · have hknows := h.knows k t ht
    have hnot : t.open ≠ some userId := fun he => hfree k ((view_eq ht).trans he)
    refine ⟨hknows.time, fun u c hu => ?_, fun u hu => ?_⟩
    · have hne : u ≠ userId := fun he => hnot (he ▸ open_of_missed hu)
      rw [(hother hne).1, (hother hne).2]
      exact hknows.missed u c hu
    · obtain ⟨hzero, hmissed⟩ := hknows.matched u hu
      have hne : u ≠ userId := fun he => hnot (he ▸ open_of_matched hmissed hu)
      rw [(hother hne).1]
      exact ⟨hzero, hmissed⟩
  · cases ht
    refine ⟨fun _ hx => (by cases hx), fun u c hu => ?_, fun _ hx => (by cases hx)⟩
    cases hu
    refine ⟨?_, fun _ hx => (by cases hx)⟩
    rw [hmisses]
    exact Nat.add_le_add_right hrecorded.counted 1
  · cases hu
    exact hfree k

theorem Knows.restart (h : Knows w s) (htime : w'.now = w.now)
    (hmisses : ∀ u, w'.misses u = w.misses u ∨ w'.misses u = 0) (hlast : w'.lastMiss = w.lastMiss) :
    Knows w' s where
  time := by
    rw [htime]
    exact h.time
  missed u c hu := by
    obtain ⟨hcounted, htimed⟩ := h.missed u c hu
    rw [hlast]
    refine ⟨?_, htimed⟩
    rcases hmisses u with he | he <;> rw [he]
    · exact hcounted
    · exact Nat.zero_le _
  matched u hu := by
    obtain ⟨hzero, hmissed⟩ := h.matched u hu
    exact ⟨(hmisses u).elim (fun he => he.trans hzero) id, hmissed⟩

theorem update_zero (f : String → ℕ) (userId u : String) :
    Function.update f userId 0 u = f u ∨ Function.update f userId 0 u = 0 := by
  by_cases hu : u = userId
  · subst hu
    exact .inr (Function.update_self _ _ _)
  · exact .inl (Function.update_of_ne hu _ _)

theorem kept_hit (h : Kept w st) (hfree : ∀ k, view Stage.open st k ≠ some userId)
    (hs : Knows w s) (hj : view Stage.missed st j = none) (hnone : s.missed = none)
    {matched : Option String} (hmatched : ∀ u, matched = some u → u = userId) :
    Kept (w.compared userId true)
      (Function.update st j (some { s with matched := matched, entered := true })) := by
  have hmisses (u : String) := update_zero w.misses userId u
  refine ⟨h.keys, h.past, ?_, knows_update (fun k t _ ht => ?_) fun t ht => ?_,
    apart_take h.apart fun u hu k _ => ?_⟩
  · have hsame : view Stage.missed (Function.update st j
        (some { s with matched := matched, entered := true })) = view Stage.missed st :=
      view_keep (hj.trans hnone.symm)
    unfold Shown
    rw [hsame]
    intro user huser c hc hfresh
    by_cases hid : user.id = userId
    · exact recorded_of_zero (hid ▸ Function.update_self _ _ _)
    · exact (h.shown user huser c hc hfresh).congr (Function.update_of_ne hid _ _) rfl
  · exact (h.knows k t ht).restart rfl hmisses rfl
  · cases ht
    have hknows : Knows (w.compared userId true) s := hs.restart rfl hmisses rfl
    refine ⟨hknows.time, hknows.missed, fun u hu => ⟨?_, hnone⟩⟩
    obtain rfl := hmatched u hu
    exact Function.update_self _ _ _
  · change (s.missed.map Prod.fst).or matched = some u at hu
    rw [hnone] at hu
    obtain rfl := hmatched u hu
    exact hfree k

theorem call_compare (h : Kept w st) (hj : st j = some s) {password passwordHash : String}
    (hallowed : Allowed s (.compare userId password passwordHash))
    (hfirm : o.delivery = .done → s.credentials = (w.findById userId).bind User.credentials ∧
      ∀ k, k ≠ j → view Stage.open st k ≠ some userId) :
    Kept (w.after (.compare userId password passwordHash) o) (Function.update st j
      (some (next s (.compare userId password passwordHash)
        (w.reply (.compare userId password passwordHash) o)))) := by
  obtain ⟨hmissed, hmatched, user, credentials, hfound, hcredentials, hid, -⟩ := hallowed
  have hknows := h.knows j s hj
  by_cases hdone : o.delivery = .done
  · obtain ⟨hread, hothers⟩ := hfirm hdone
    have hcurrent : s.credentials = some credentials := by
      rw [Stage.credentials, hfound, Option.bind_some, hcredentials]
    have hnone : view Stage.missed st j = none := (view_eq hj).trans hmissed
    have hfree (k : ℕ) : view Stage.open st k ≠ some userId := by
      by_cases hk : k = j
      · subst hk
        rw [view_eq hj, Stage.open, hmissed, hmatched]
        exact fun he => (by cases he)
      · exact hothers k hk
    have hafter : w.after (.compare userId password passwordHash) o = w.compared userId o.isMatch :=
      if_pos hdone
    have hreply : w.reply (.compare userId password passwordHash) o = .ok o.isMatch := by
      simp [World.reply, Delivery.answer, hdone]
    rw [hafter, hreply]
    cases o.isMatch with
    | true =>
      refine kept_hit h hfree hknows hnone hmissed fun u hu => ?_
      exact (Option.map_eq_some_iff.mp hu).elim fun _ he => he.2.symm
    | false =>
      have hkept : Kept (w.compared userId false) (Function.update st j
          (some ⟨s.found, none, some (userId, credentials), none, s.entered⟩)) :=
        kept_miss h (recorded_of_read h (hread.symm.trans hcurrent) hfree) hfree hnone
      have hstage : next s (.compare userId password passwordHash) (.ok false) =
          ⟨s.found, none, some (userId, credentials), none, s.entered⟩ := by
        simp [next, hcurrent, hmatched]
      rw [hstage]
      exact hkept
  · have hafter : w.after (.compare userId password passwordHash) o = w := if_neg hdone
    have hreply : w.reply (.compare userId password passwordHash) o = .error .outside := by
      simp [World.reply, Delivery.answer, hdone]
    rw [hafter, hreply]
    exact h.stage hknows ((view_eq hj).trans rfl) ((view_eq hj).trans rfl)

theorem call_recordFailure (h : Kept w st) (hj : st j = some s) {failedAttempts : ℕ}
    {lockedUntil : Option ℕ}
    (hallowed : Allowed s (.recordFailure userId failedAttempts lockedUntil))
    (happlied : o.delivery.applied = true) :
    Kept (w.after (.recordFailure userId failedAttempts lockedUntil) o) (Function.update st j
      (some (next s (.recordFailure userId failedAttempts lockedUntil)
        (w.reply (.recordFailure userId failedAttempts lockedUntil) o)))) := by
  obtain ⟨credentials, hmissed, rfl, hlocked⟩ := hallowed
  have hknows := h.knows j s hj
  obtain ⟨hcounted, htimed⟩ := hknows.missed userId credentials hmissed
  have hafter : w.after (.recordFailure userId (credentials.failedAttempts + 1) lockedUntil) o =
      w.effect (.recordFailure userId (credentials.failedAttempts + 1) lockedUntil) :=
        if_pos happlied
  have hnone : s.matched = none := by
    cases hm : s.matched with
    | none => rfl
    | some u =>
      rw [(hknows.matched u hm).2] at hmissed
      cases hmissed
  have hstage : next s (.recordFailure userId (credentials.failedAttempts + 1) lockedUntil)
      (w.reply (.recordFailure userId (credentials.failedAttempts + 1) lockedUntil) o) =
        { s with missed := none } := by
    unfold next
    split <;> simp_all
  rw [hafter, hstage]
  refine ⟨?_, h.past, fun user huser c hc hfresh => ?_, knows_update (fun k t _ ht => ?_)
    fun t ht => ?_, apart_release h.apart ?_⟩
  · exact (keys_map (id_withCredentials _ _)).symm ▸ h.keys
  · rcases mem_users_withCredentials huser hc with ⟨rfl, old, rfl⟩ | ⟨hne, hold⟩
    · refine ⟨hcounted, fun hmany => ?_⟩
      obtain ⟨t, ht, rfl⟩ := hlocked (hmany.trans hcounted)
      exact ⟨t + lockout, rfl, Nat.add_le_add_right (htimed t ht) _⟩
    · refine (h.shown user hold c hc fun k missed hk he => ?_).congr rfl rfl
      by_cases hkj : k = j
      · subst hkj
        rw [view_eq hj, hmissed] at hk
        cases hk
        exact hne he.symm
      · exact hfresh k missed ((view_of_ne hkj).trans hk) he
  · exact (h.knows k t ht).restart rfl (fun _ => .inl rfl) rfl
  · cases ht
    exact ⟨hknows.time, fun _ _ hx => (by cases hx), fun u hu => ⟨(hknows.matched u hu).1, rfl⟩⟩
  · rw [Option.bind_some, Stage.open, hnone]
    rfl

theorem kept_reset (h : Kept w st) (hzero : w.misses userId = 0) :
    Kept (w.effect (.reset userId)) st where
  keys := (keys_map (id_withCredentials _ _)).symm ▸ h.keys
  past := h.past
  shown user huser c hc hfresh := by
    rcases mem_users_withCredentials huser hc with ⟨hid, -⟩ | ⟨-, hold⟩
    · exact recorded_of_zero (hid ▸ hzero)
    · exact (h.shown user hold c hc hfresh).congr rfl rfl
  knows k t ht := (h.knows k t ht).restart rfl (fun _ => .inl rfl) rfl
  apart := h.apart

theorem Kept.release (h : Kept w st) (hmissed : view Stage.missed st j = none) {t : Option Stage}
    (hnone : t.bind Stage.missed = none) (hopen : t.bind Stage.open = none)
    (ht : ∀ s, t = some s → Knows w s) : Kept w (Function.update st j t) where
  keys := h.keys
  past := h.past
  shown := by
    have hsame : view Stage.missed (Function.update st j t) = view Stage.missed st :=
      view_keep (hmissed.trans hnone.symm)
    unfold Shown
    rw [hsame]
    exact h.shown
  knows := knows_update (fun k t _ ht => h.knows k t ht) ht
  apart := apart_release h.apart hopen

theorem call_reset (h : Kept w st) (hj : st j = some s) (hallowed : Allowed s (.reset userId)) :
    Kept (w.after (.reset userId) o)
      (Function.update st j (some (next s (.reset userId) (w.reply (.reset userId) o)))) := by
  have hknows := h.knows j s hj
  obtain ⟨hzero, hmissed⟩ := hknows.matched userId hallowed
  have hstage : next s (.reset userId) (w.reply (.reset userId) o) =
      { s with matched := none } := by
    unfold next
    split <;> simp_all
  have hkept : Kept (w.after (.reset userId) o) st := by
    by_cases happlied : o.delivery.applied = true
    · rw [show w.after (.reset userId) o = w.effect (.reset userId) from if_pos happlied]
      exact kept_reset h hzero
    · rw [show w.after (.reset userId) o = w from if_neg happlied]
      exact h
  rw [hstage]
  refine hkept.release ((view_eq hj).trans hmissed) hmissed ?_ fun t ht => ?_
  · rw [Option.bind_some, Stage.open, hmissed]
    rfl
  · cases ht
    exact ⟨(hkept.knows j s hj).time, (hkept.knows j s hj).missed, fun _ hx => (by cases hx)⟩

theorem call_kept (h : Kept w st) (hj : st j = some s) (hallowed : Allowed s i)
    (hcompare : ∀ userId password passwordHash, i = .compare userId password passwordHash →
      o.delivery = .done → s.credentials = (w.findById userId).bind User.credentials ∧
        ∀ k, k ≠ j → view Stage.open st k ≠ some userId)
    (hrecord : ∀ userId failedAttempts lockedUntil,
      i = .recordFailure userId failedAttempts lockedUntil → o.delivery.applied = true) :
    Kept (w.after i o) (Function.update st j (some (next s i (w.reply i o)))) := by
  cases i with
  | findUser email => exact call_findUser h hj
  | now => exact call_now h hj
  | compare userId password passwordHash =>
    exact call_compare h hj hallowed (hcompare userId password passwordHash rfl)
  | recordFailure userId failedAttempts lockedUntil =>
    exact call_recordFailure h hj hallowed (hrecord userId failedAttempts lockedUntil rfl)
  | reset userId => exact call_reset h hj hallowed
  | createSession userId email role => exact call_createSession h hj

/-! ### What happens outside -/

theorem Recorded.zero_or {credentials : Credential} (h : Recorded w userId credentials)
    (hlast : w'.lastMiss = w.lastMiss)
    (hmisses : w'.misses userId = w.misses userId ∨ w'.misses userId = 0) :
    Recorded w' userId credentials :=
  hmisses.elim (fun he => h.congr he (congrFun hlast userId)) recorded_of_zero

theorem outside_setPassword (h : Kept w st) {passwordHash : String} :
    Kept { w with
      users := w.users.map fun user => if user.id = userId then fresh passwordHash user else user
      misses := Function.update w.misses userId 0 } st := by
  have hid (user : User) : (if user.id = userId then fresh passwordHash user else user).id =
      user.id := by
    split <;> rfl
  refine ⟨(keys_map hid).symm ▸ h.keys, h.past, fun user huser c hc hfresh => ?_,
    fun k t ht => (h.knows k t ht).restart rfl (update_zero w.misses userId) rfl, h.apart⟩
  obtain ⟨old, hold, rfl⟩ := List.mem_map.mp huser
  by_cases he : old.id = userId
  · refine recorded_of_zero ?_
    rw [hid, he]
    exact Function.update_self _ _ _
  · rw [if_neg he] at hc hfresh ⊢
    exact (h.shown old hold c hc hfresh).zero_or rfl (update_zero w.misses userId old.id)

theorem mem_upsert (hkeys : (w.users.map User.id).Nodup) {row user : User}
    (huser : user ∈ upsert User.id w.users row) :
    user = row ∨ user.id ≠ row.id ∧ user ∈ w.users := by
  have hlook := lookup_of_mem (nodup_upsert (x := row) hkeys) huser
  rw [lookup_upsert] at hlook
  split at hlook
  · exact .inl (Option.some.inj hlook).symm
  · exact .inr ⟨Ne.symm ‹_›, mem_of_lookup hlook⟩

theorem outside_amend (h : Kept w st) {row old : User} (hold : w.findById row.id = some old)
    (hcredentials : row.credentials = old.credentials ∨ row.credentials = none) :
    Kept { w with users := upsert User.id w.users row } st := by
  refine ⟨nodup_upsert h.keys, h.past, fun user huser c hc hfresh => ?_,
    fun k t ht => (h.knows k t ht).restart rfl (fun _ => .inl rfl) rfl, h.apart⟩
  rcases mem_upsert h.keys huser with rfl | ⟨-, hmem⟩
  · have hsame : old.id = user.id := key_of_lookup hold
    rcases hcredentials with he | he
    · rw [he] at hc
      have hshown := h.shown old (mem_of_lookup hold) c hc (hsame ▸ hfresh)
      rw [hsame] at hshown
      exact hshown.congr rfl rfl
    · rw [he] at hc
      cases hc
  · exact (h.shown user hmem c hc hfresh).congr rfl rfl

theorem outside_create (h : Kept w st) {row : User} :
    Kept { w with
      users := upsert User.id w.users row
      misses := Function.update w.misses row.id 0 } st := by
  refine ⟨nodup_upsert h.keys, h.past, fun user huser c hc hfresh => ?_,
    fun k t ht => (h.knows k t ht).restart rfl (update_zero w.misses row.id) rfl, h.apart⟩
  rcases mem_upsert h.keys huser with rfl | ⟨-, hmem⟩
  · exact recorded_of_zero (Function.update_self _ _ _)
  · exact (h.shown user hmem c hc hfresh).zero_or rfl (update_zero w.misses row.id user.id)

theorem outside_pass (h : Kept w st) (ms : ℕ) : Kept { w with now := w.now + ms } st where
  keys := h.keys
  past u := (h.past u).trans (Nat.le_add_right _ _)
  shown user huser c hc hfresh := (h.shown user huser c hc hfresh).congr rfl rfl
  knows k t ht :=
    ⟨fun x hx => ((h.knows k t ht).time x hx).trans (Nat.le_add_right _ _), (h.knows k t ht).missed,
      (h.knows k t ht).matched⟩
  apart := h.apart

theorem outside_kept (h : Kept w st) {d : Outside} (hw : outside w d = some w') : Kept w' st := by
  cases d with
  | pass ms =>
    cases hw
    exact outside_pass h ms
  | setPassword userId passwordHash =>
    cases hw
    exact outside_setPassword h
  | amend row =>
    unfold outside at hw
    cases hold : w.findById row.id with
    | some old =>
      simp only [hold] at hw
      split at hw
      · cases hw
        exact outside_amend h hold ‹_›
      · cases hw
    | none =>
      simp only [hold] at hw
      split at hw
      · cases hw
        exact outside_create h
      · cases hw

/-! ### Runs -/

theorem knows_first (w : World) : Knows w .first :=
  ⟨fun _ hx => (by cases hx), fun _ _ hx => (by cases hx), fun _ hx => (by cases hx)⟩

theorem kept_start (h : Kept w st) (hj : st j = none) :
    Kept w (Function.update st j (some .first)) := by
  have hnone : view Stage.missed st j = none := by
    rw [view, hj]
    rfl
  refine h.release hnone rfl rfl fun s hs => ?_
  cases hs
  exact knows_first w

theorem run_kept {sign : String → String → Role → String} {c c' : Race} {es : List RaceEvent}
    (hd : (system sign).Disciplined c) (h : Kept c.world (stages c))
    (hfirm : Along (system sign).step Firmly c es) (hrun : run (system sign).step c es = some c') :
    Kept c'.world (stages c') := by
  refine run_stages (follows_program sign) (fun w st j h hj => kept_start h hj)
    (fun c j o s i h hj hi hallowed hfirm => ?_) (fun c j h hfirm => ?_)
    (fun c d w h _ hw => outside_kept h hw) hd h hfirm hrun
  · have hcall := hfirm i hi
    refine call_kept h hj hallowed (fun userId password passwordHash he hdone => ?_)
      fun userId failedAttempts lockedUntil he => ?_
    · subst he
      exact ⟨(hcall hdone).1 s hj, (hcall hdone).2⟩
    · subst he
      exact hcall
  · exact h.release hfirm rfl rfl fun s hs => (by cases hs)

structure Untried (w : World) : Prop where
  keys : (w.users.map User.id).Nodup
  misses : ∀ userId, w.misses userId = 0
  past : ∀ userId, w.lastMiss userId ≤ w.now

theorem kept_quiescent (h : Untried w) : Kept w (stages (quiescent w)) where
  keys := h.keys
  past := h.past
  shown user _ _ _ _ := recorded_of_zero (h.misses user.id)
  knows _ _ hj := by cases hj
  apart _ _ _ hi := by cases hi

/-- A password is compared only where the account is not locked out, and a session is made only
after a comparison that succeeded. -/
theorem guesses_limited (sign : String → String → Role → String) {w : World} (hw : Untried w)
    {es : List RaceEvent} {c : Race} {j : ℕ} {o : Outcome}
    (hfirm : Along (system sign).step Firmly (quiescent w) (es ++ [.advance j o]))
    (hrun : run (system sign).step (quiescent w) es = some c) :
    (∀ userId password passwordHash, pending c j = some (.compare userId password passwordHash) →
      o.delivery = .done → Admitted c.world userId) ∧
    (∀ userId email role, pending c j = some (.createSession userId email role) →
      ∃ s, stages c j = some s ∧ s.entered = true) := by
  obtain ⟨hbefore, hlast⟩ := along_append hfirm
  have hd : (system sign).Disciplined (quiescent w) := fun _ _ h => by cases h
  have hkept := run_kept hd (kept_quiescent hw) hbefore hrun
  have hdc : (system sign).Disciplined c := run_ends (follows_program sign) hd hrun
  have hallowed {i : Op} (hi : pending c j = some i) : ∃ s, stages c j = some s ∧ Allowed s i := by
    obtain ⟨s, hs⟩ := stage_of_pending hi
    exact ⟨s, hs, allowed_pending hdc hs hi⟩
  constructor
  · intro userId password passwordHash hi hdone
    obtain ⟨s, hs, hmissed, hmatched, user, credentials, hfound, hcredentials, -, hunlocked⟩ :=
      hallowed hi
    obtain ⟨hread, hothers⟩ := (hlast c hrun).1 _ hi hdone
    have hcurrent : s.credentials = some credentials := by
      rw [Stage.credentials, hfound, Option.bind_some, hcredentials]
    have hfree (k : ℕ) : view Stage.open (stages c) k ≠ some userId := by
      by_cases hk : k = j
      · subst hk
        rw [view_eq hs, Stage.open, hmissed, hmatched]
        exact fun he => (by cases he)
      · exact hothers k hk
    exact admitted_of_recorded (recorded_of_read hkept ((hread s hs).symm.trans hcurrent) hfree)
      (hkept.knows j s hs) hunlocked
  · intro userId email role hi
    obtain ⟨s, hs, -, -, hentered⟩ := hallowed hi
    exact ⟨s, hs, hentered⟩

/-! ### Attempts at once -/

def sign (userId email : String) (_ : Role) : String := userId ++ email

def guess (j : ℕ) (password : String) : RaceEvent := .start j ⟨"ana@example.org", password⟩

def answered (isMatch : Bool) : Outcome := ⟨.done, isMatch, "token"⟩

def oneAccount : World where
  users := [⟨"ana", "ana@example.org", .hogar, none, none, true, none, some ⟨"hash", 0, none⟩⟩]
  now := 0
  misses := fun _ => 0
  lastMiss := fun _ => 0

theorem oneAccount_untried : Untried oneAccount :=
  ⟨by decide, fun _ => rfl, fun _ => Nat.zero_le _⟩

/-- `Firmly` as a test, where one program runs. -/
def firmly (c : Race) : RaceEvent → Bool
  | .advance j o =>
    match pending c j with
    | some (.compare userId _ _) =>
      (stages c j).all fun s =>
        decide (s.credentials = (c.world.findById userId).bind User.credentials)
    | some (.recordFailure _ _ _) => o.delivery.applied
    | _ => true
  | .stop _ => false
  | _ => true

theorem firmly_of_test {c : Race} {e : RaceEvent} (hc : Below 1 c) (h : firmly c e = true) :
    Firmly c e := by
  cases e with
  | advance j o =>
    intro i hi
    simp only [firmly, hi] at h
    cases i with
    | compare userId password passwordHash =>
      intro _
      obtain ⟨s, hs⟩ := stage_of_pending hi
      have hj : j = 0 := by
        by_contra hne
        rw [stages, hc j (Nat.one_le_iff_ne_zero.mpr hne)] at hs
        cases hs
      refine ⟨fun s hs => ?_, fun k hk => ?_⟩
      · rw [hs] at h
        exact of_decide_eq_true h
      · rw [view, stages, hc k (Nat.one_le_iff_ne_zero.mpr (hj ▸ hk))]
        exact fun he => (by cases he)
    | recordFailure userId failedAttempts lockedUntil =>
      have happlied : o.delivery.applied = true := h
      exact happlied
    | _ => trivial
  | stop j => cases h
  | _ => trivial

theorem guesses_limited_wrong : ∃ c,
    run (system sign).step (quiescent oneAccount) [guess 0 "wrong", .advance 0 (answered false)] =
      some c ∧
      (∀ userId password passwordHash, pending c 0 = some (.compare userId password passwordHash) →
        (answered false).delivery = .done → Admitted c.world userId) ∧
      (∀ userId email role, pending c 0 = some (.createSession userId email role) →
        ∃ s, stages c 0 = some s ∧ s.entered = true) := by
  obtain ⟨c, hc⟩ := Option.isSome_iff_exists.mp (show (run (system sign).step (quiescent oneAccount)
    [guess 0 "wrong", .advance 0 (answered false)]).isSome = true by decide +kernel)
  have hfirm : Along (system sign).step Firmly (quiescent oneAccount)
      ([guess 0 "wrong", .advance 0 (answered false)] ++ [.advance 0 (answered false)]) :=
    along_of_below (n := 1) (fun _ _ hc h => firmly_of_test hc h) (fun _ _ => rfl)
      (by decide +kernel)
  exact ⟨c, hc, guesses_limited sign oneAccount_untried hfirm hc⟩

def sixAtOnce : List RaceEvent :=
  (List.range 6).map (fun j => guess j "wrong") ++
    (List.range 6).map (fun j => .advance j (answered false)) ++
      (List.range 5).map fun j => .advance j (answered false)

def comparing (c : Race) (j : ℕ) : Option String :=
  match pending c j with
  | some (.compare userId _ _) => some userId
  | _ => none

def entered (c : Race) (j : ℕ) : Option LoginResult :=
  match c.tasks j with
  | some ⟨_, .done (.ok result)⟩ => some result
  | _ => none

/-- The failures counted, the time of the last, the time, and what the sixth program is to
compare. -/
def seen (c : Race) : ℕ × ℕ × ℕ × Option String :=
  (c.world.misses "ana", c.world.lastMiss "ana", c.world.now, comparing c 5)

/-- After five failures in a row a sixth password is compared, and it lets its sender in. -/
theorem guesses_at_once : Untried oneAccount ∧
    (∃ c, run (system sign).step (quiescent oneAccount) sixAtOnce = some c ∧
      comparing c 5 = some "ana" ∧ ¬Admitted c.world "ana") ∧
    ∃ c, run (system sign).step (quiescent oneAccount)
        (sixAtOnce ++ List.replicate 2 (.advance 5 (answered true))) = some c ∧
      entered c 5 = some ⟨"anaana@example.org", "token", 3600, "bearer", "ana",
        "ana@example.org", .hogar,
        none, "UNVERIFIED"⟩ := by
  refine ⟨oneAccount_untried, ?_, ?_⟩
  · have hrun : (run (system sign).step (quiescent oneAccount) sixAtOnce).map seen =
        some (5, 0, 0, some "ana") := by decide +kernel
    obtain ⟨c, hc, hseen⟩ := Option.map_eq_some_iff.mp hrun
    simp only [seen, Prod.mk.injEq] at hseen
    obtain ⟨hmisses, hlast, hnow, hcomparing⟩ := hseen
    refine ⟨c, hc, hcomparing, ?_⟩
    unfold Admitted
    rw [hmisses, hlast, hnow]
    decide
  · have hrun : (run (system sign).step (quiescent oneAccount)
        (sixAtOnce ++ List.replicate 2 (.advance 5 (answered true)))).map (entered · 5) =
          some (some ⟨"anaana@example.org", "token", 3600, "bearer", "ana",
            "ana@example.org", .hogar, none, "UNVERIFIED"⟩) := by decide +kernel
    exact Option.map_eq_some_iff.mp hrun

end Livora.LoginRaces
