import Livora.ProgramPools
import Livora.UserCaches

/-! Lookups, guarded requests and changes of accounts by any number of processes, in any order of
their calls and of the commands to Redis. A lookup answers with what it has read. -/

namespace Livora.UserCacheStages

open EffectPrograms EffectPrograms.Action ProgramPools AuthBooks UserCaches

/-! ### Calls and answers -/

inductive Call where
  | findById (p : ℕ) (id : String)
  | canActivate (p : ℕ) (userId : String)
  | proxyUpdate (p : ℕ) (id : String) (data : UserData)
  | proxyUpdateFcmToken (p : ℕ) (id fcmToken : String)
  | update (p : ℕ) (id : String) (dto : UpdateUserDto)
  | updateFcmToken (p : ℕ) (id fcmToken : String)
  | cancelAccountARCO (p : ℕ) (id : String)
  | updateUserStatus (userId : String) (dto : UpdateUserStatusDto)
  | updateUserKycStatus (userId : String) (dto : UpdateKycStatusDto)

inductive Answer where
  | found (id : String) (r : Except Failure (Option User))
  | guarded (userId : String) (r : Except Failure User)
  | changed (r : Except Failure Unit)
deriving DecidableEq

def Answer.ShowsActive (u : String) : Answer → Prop
  | .found id (.ok (some user)) => id = u ∧ user.active = true
  | .guarded userId (.ok _) => userId = u
  | _ => False

def answering {β : Type} (f : Except Failure β → Answer) (a : Work β) :
    Prog Op (fun i => Except Failure (Reply i)) Answer :=
  a.run >>= fun r => pure (f r)

def handle : Call → Prog Op (fun i => Except Failure (Reply i)) Answer
  | .findById p id => answering (.found id) (findById p id)
  | .canActivate p userId => answering (.guarded userId) (canActivate p userId)
  | .proxyUpdate p id data => answering .changed (proxyUpdate p id data)
  | .proxyUpdateFcmToken p id fcmToken => answering .changed (proxyUpdateFcmToken p id fcmToken)
  | .update p id dto => answering .changed (update p id dto)
  | .updateFcmToken p id fcmToken => answering .changed (updateFcmToken p id fcmToken)
  | .cancelAccountARCO p id => answering .changed (cancelAccountARCO p id)
  | .updateUserStatus userId dto => answering .changed (updateUserStatus userId dto)
  | .updateUserKycStatus userId dto => answering .changed (updateUserKycStatus userId dto)

/-! ### Stages -/

inductive Stage where
  | first
  | missed (p : ℕ) (id : String)
  /-- A copy that the lookup has read and not yet kept. -/
  | fetched (p : ℕ) (id : String) (user : User)
  | told (id : String) (found : Option User)
  /-- A change of an account, or a lookup that threw. -/
  | quiet
deriving DecidableEq

def Allowed (s : Stage) : Op → Prop
  | .lookMemory _ _ => s = .first
  | .getCached p id => s = .missed p id
  | .remember p id user _ => s = .fetched p id user
  | .store p id user _ => s = .fetched p id user
  | .findUser id => s = .first ∨ s = .quiet ∨ ∃ p, s = .missed p id
  | _ => s = .first ∨ s = .quiet

def next (s : Stage) (i : Op) (r : Except Failure (Reply i)) : Stage :=
  match i, r with
  | .lookMemory _ id, .ok (_, some user) => .told id (some user)
  | .lookMemory p id, .ok (_, none) => .missed p id
  | .getCached p id, .ok (some user) => .fetched p id user
  | .getCached p id, _ => .missed p id
  | .findUser _, r =>
    match s, r with
    | .missed _ id, .ok none => .told id none
    | .missed p id, .ok (some user) => .fetched p id user
    | _, _ => .quiet
  | .remember _ id user _, .ok () => .told id (some user)
  | .store _ id user _, .ok () => .told id (some user)
  | _, _ => .quiet

def protocol : Protocol Stage Op fun i => Except Failure (Reply i) where
  Allowed := Allowed
  next := next

def Done : Stage → Answer → Prop
  | .told id found, x => x = .found id (.ok found) ∨ x = .guarded id (admitted found)
  | .quiet, x => ∀ u, ¬x.ShowsActive u
  | _, _ => False

section Programs

variable {β : Type} {f : Except Failure β → Answer} {a : Work β} {s : Stage} {p : ℕ} {id : String}

theorem keeps_answering (h : Obeys protocol (fun t x => Done t (f x)) s a) :
    Keeps protocol Done s (answering f a) :=
  keeps_bind.mpr h

def Looked (id : String) (s : Stage) (x : Except Failure (Option User)) : Prop :=
  (∃ found, s = .told id found ∧ x = .ok found) ∨ s = .quiet ∧ ∃ e, x = .error e

theorem obeys_keep {i : Op} {user : User} (hallowed : Allowed s i)
    {f : Reply i → Work (Option User)} (hok : ∀ r, next s i (.ok r) = .told id (some user))
    (herror : ∀ e, next s i (.error e) = .quiet)
    (hf : ∀ r, f r = pure (some user)) : Obeys protocol (Looked id) s (perform i >>= f) := by
  refine obeys_call.mpr ⟨hallowed, fun r => ?_, fun e => .inr ⟨herror e, e, rfl⟩⟩
  rw [hf r]
  exact .inl ⟨some user, hok r, rfl⟩

theorem obeys_loadUser (now : ℕ) : Obeys protocol (Looked id) (.missed p id)
    (loadUser p id now) := by
  refine obeys_call.mpr ⟨.inr (.inr ⟨p, rfl⟩), fun found => ?_, fun e => .inr ⟨rfl, e, rfl⟩⟩
  cases found with
  | none => exact .inl ⟨none, rfl, rfl⟩
  | some user =>
    exact obeys_keep (i := .store p id user now) rfl (fun _ => rfl) (fun _ => rfl) fun _ => rfl

theorem obeys_fetchUser (now : ℕ) : Obeys protocol (Looked id) (.missed p id)
    (fetchUser p id now) := by
  refine obeys_bind.mpr (obeys_recover.mpr (obeys_perform.mpr ⟨rfl, fun cached => ?_, fun e => ?_⟩))
  · cases cached with
    | none => exact obeys_loadUser now
    | some user =>
      exact obeys_keep (i := .remember p id user (now + defaultTtl)) rfl (fun _ => rfl)
        (fun _ => rfl)
        fun _ => rfl
  · exact obeys_loadUser now

theorem obeys_findById : Obeys protocol (Looked id) .first (findById p id) := by
  refine obeys_call.mpr ⟨rfl, fun found => ?_, fun e => .inr ⟨rfl, e, rfl⟩⟩
  obtain ⟨now, _ | user⟩ := found
  · exact obeys_fetchUser now
  · exact .inl ⟨some user, rfl, rfl⟩

theorem keeps_findById : Keeps protocol Done .first (handle (.findById p id)) := by
  refine keeps_answering (Keeps.mono (fun t x hx => ?_) obeys_findById)
  obtain ⟨found, rfl, rfl⟩ | ⟨rfl, e, rfl⟩ := hx
  · exact .inl rfl
  · exact fun u h => h

theorem keeps_canActivate : Keeps protocol Done .first (handle (.canActivate p id)) := by
  refine keeps_answering (obeys_bind.mpr (Keeps.mono (fun t x hx => ?_) obeys_findById))
  obtain ⟨found, rfl, rfl⟩ | ⟨rfl, e, rfl⟩ := hx
  · dsimp only
    cases hadmitted : admitted found with
    | ok safeUser => exact .inr (congrArg _ hadmitted.symm)
    | error e => exact .inr (congrArg _ hadmitted.symm)
  · exact fun u h => h

def Silent (s : Stage) (a : Work β) : Prop := Obeys protocol (fun t _ => t = .quiet) s a

theorem keeps_changed {a : Work Unit} (h : Silent .first a) :
    Keeps protocol Done .first (answering .changed a) := by
  refine keeps_answering (Keeps.mono (fun t x ht => ?_) h)
  subst ht
  exact fun u hu => hu

theorem silent_call {i : Op} {f : Reply i → Work β} (hallowed : Allowed s i)
    (hnext : ∀ r, next s i r = .quiet) (hf : ∀ r, Silent .quiet (f r)) :
    Silent s (perform i >>= f) := by
  refine obeys_call.mpr ⟨hallowed, fun r => ?_, fun e => hnext (.error e)⟩
  rw [show protocol.next s i (.ok r) = .quiet from hnext (.ok r)]
  exact hf r

theorem silent_last {i : Op} (hallowed : Allowed s i) (hnext : ∀ r, next s i r = .quiet) :
    Silent s (perform i : Work (Reply i)) :=
  obeys_perform.mpr ⟨hallowed, fun r => hnext (.ok r), fun e => hnext (.error e)⟩

theorem silent_elsewhere (hs : s = .first ∨ s = .quiet) :
    Silent s (recover (call .elsewhere) ()) :=
  obeys_recover.mpr ((silent_last (i := .elsewhere) hs fun _ => rfl).mono (fun _ _ h => h)
    fun _ _ h => h)

theorem silent_bind {γ : Type} {a : Work γ} {f : γ → Work β} (ha : Silent s a)
    (hf : ∀ x, Silent .quiet (f x)) :
    Silent s (a >>= f) := by
  refine obeys_bind.mpr (ha.mono (fun t x ht => ?_) fun _ _ ht => ht)
  subst ht
  exact hf x

theorem silent_proxyUpdate (data : UserData) :
    Silent .first (proxyUpdate p id data) :=
  silent_call (.inl rfl) (fun _ => rfl) fun _ => silent_last (.inr rfl) fun _ => rfl

theorem silent_update (dto : UpdateUserDto) :
    Silent .first (update p id dto) := by
  refine silent_call (.inl rfl) (fun _ => rfl) fun found => ?_
  cases found with
  | none => exact rfl
  | some user =>
    dsimp only
    split
    · have hrecord : Silent .quiet (recordConsent user dto.marketingAccepted) := by
        unfold recordConsent
        split
        · exact silent_last (.inr rfl) fun _ => rfl
        · exact rfl
      have hmirror : Silent .quiet (mirrorStore user) := by
        unfold mirrorStore
        split
        · exact silent_elsewhere (.inr rfl)
        · exact rfl
      refine silent_bind hrecord fun _ => silent_bind hmirror fun _ => ?_
      exact silent_call (.inr rfl) (fun _ => rfl) fun _ => silent_last (.inr rfl) fun _ => rfl
    · exact rfl

theorem silent_updateFcmToken (fcmToken : String) :
    Silent .first (updateFcmToken p id fcmToken) := by
  refine silent_bind (silent_elsewhere (.inl rfl)) fun _ => ?_
  exact silent_call (.inr rfl) (fun _ => rfl) fun _ => silent_last (.inr rfl) fun _ => rfl

theorem silent_cancelAccountARCO :
    Silent .first (cancelAccountARCO p id) := by
  refine silent_call (.inl rfl) (fun _ => rfl) fun found => ?_
  split
  · exact silent_call (.inr rfl) (fun _ => rfl) fun _ => silent_last (.inr rfl) fun _ => rfl
  · exact rfl

theorem silent_updateUserStatus (dto : UpdateUserStatusDto) :
    Silent .first (updateUserStatus id dto) := by
  refine silent_call (.inl rfl) (fun _ => rfl) fun found => ?_
  cases found with
  | none => exact rfl
  | some user =>
    dsimp only
    split
    · exact rfl
    · exact silent_last (.inr rfl) fun _ => rfl

theorem silent_applyKyc (user : User) (dto : UpdateKycStatusDto) (status : KycStatus) :
    Silent .quiet (applyKyc user dto status) := by
  cases status with
  | approved =>
    exact silent_bind (silent_elsewhere (.inr rfl)) fun _ => silent_last (.inr rfl) fun _ => rfl
  | rejected => exact silent_last (.inr rfl) fun _ => rfl
  | observed => exact silent_last (.inr rfl) fun _ => rfl
  | unverified | pending | inReview | expired => exact rfl

theorem silent_writeApplication (user : User) (retries : Option ℕ) :
    Silent .quiet (writeApplication user retries) := by
  cases retries with
  | some n => exact silent_last (.inr rfl) fun _ => rfl
  | none =>
    simp only [writeApplication]
    split
    · exact silent_call (.inr rfl) (fun _ => rfl) fun _ => silent_elsewhere (.inr rfl)
    · exact rfl

theorem silent_updateUserKycStatus (dto : UpdateKycStatusDto) :
    Silent .first (updateUserKycStatus id dto) := by
  refine silent_call (.inl rfl) (fun _ => rfl) fun retries => ?_
  refine silent_call (.inr (.inl rfl)) (fun _ => rfl) fun found => ?_
  cases found with
  | none => exact rfl
  | some user =>
    exact silent_bind (silent_writeApplication user retries) fun _ => silent_applyKyc user dto _

theorem keeps_handle : ∀ c, Keeps protocol Done .first (handle c)
  | .findById _ _ => keeps_findById
  | .canActivate _ _ => keeps_canActivate
  | .proxyUpdate _ _ data => keeps_changed (silent_proxyUpdate data)
  | .proxyUpdateFcmToken _ _ _ => keeps_changed (silent_proxyUpdate _)
  | .update _ _ dto => keeps_changed (silent_update dto)
  | .updateFcmToken _ _ fcmToken => keeps_changed (silent_updateFcmToken fcmToken)
  | .cancelAccountARCO _ _ => keeps_changed silent_cancelAccountARCO
  | .updateUserStatus _ dto => keeps_changed (silent_updateUserStatus dto)
  | .updateUserKycStatus _ dto => keeps_changed (silent_updateUserKycStatus dto)

theorem calls_handle (c : Call) (x : Answer) : handle c ≠ .done x := by
  cases c <;> exact fun h => (by cases h)

end Programs

/-! ### The system -/

inductive Outside where
  | pass (ms : ℕ)
  /-- The next command of a process is carried out, or is lost. -/
  | deliver (p : ℕ)
  | lose (p : ℕ)
  | restart (p : ℕ)
  | signUp (user : User)
  /-- What the other services write into an account. -/
  | edit (id : String) (data : UserData)

def outside (w : World) : Outside → Option World
  | .pass ms => some { w with now := w.now + ms }
  | .deliver p =>
    match w.sent p with
    | [] => none
    | command :: sent => some ({ w with sent := Function.update w.sent p sent }.execute command)
  | .lose p =>
    match w.sent p with
    | [] => none
    | _ :: sent => some { w with sent := Function.update w.sent p sent }
  | .restart p => some { w with
      memory := Function.update w.memory p ∅
      sent := Function.update w.sent p [] }
  | .signUp user =>
    if (w.find user.id).isNone then some { w with users := w.users ++ [user] } else none
  | .edit id data =>
    if data.isActive = none ∧ data.deletedAt = none then some (w.updateUser id data) else none

def system :
    System Call World Outcome Outside Stage Op (fun i => Except Failure (Reply i)) Answer where
  program := handle
  serve := World.serve
  outside := outside
  protocol := protocol
  first := .first

abbrev Race := Pool World (Task Stage Op (fun i => Except Failure (Reply i)) Answer)

abbrev RaceEvent := Event Call Outcome Outside

def empty (users : List User) : Race :=
  ⟨⟨users, fun _ => ∅, fun _ => none, fun _ => [], 0⟩, fun _ => none⟩

end Livora.UserCacheStages
