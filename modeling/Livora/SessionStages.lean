import Livora.PoolAnswers
import Livora.SessionTokens
import Livora.StageViews

/-! Sessions of any number of users against one Redis, in any order of their commands. What is
stored under a token was issued under it once, and the sessions of a family are all of one user,
along every run. -/

namespace Livora.SessionStages

open TransitionRuns EffectPrograms EffectPrograms.Action ProgramPools ProgramPools.System StageViews
open PoolAnswers AuthBooks SessionTokens
open PinVerification (Delivery)

/-! ### Stages -/

structure Stage where
  /-- A token that was drawn and not stored. -/
  token : Option Uuid
  /-- The family in which the program is to store a token. -/
  family : Option Uuid
  /-- What a rotation has read. -/
  fetched : Option (Uuid × SessionData)
  /-- What a rotation has deleted. -/
  spent : Option Uuid
  /-- The tokens of a user that are to be deleted. -/
  remaining : Option (String × List Uuid)
deriving DecidableEq

def Stage.first : Stage := ⟨none, none, none, none, none⟩

def Stage.fresh (s : Stage) : Option Uuid := if s.fetched = none then s.family else none

/-- A token that is stored for the first time of its family, or in place of the one that was
deleted. -/
def Inherits (s : Stage) (session : SessionData) : Option Uuid → Prop
  | none => s.fetched = none
  | some old => ∃ read, s.fetched = some (old, read) ∧ s.spent = some old ∧
      session.userId = read.userId ∧ session.familyId = read.familyId

def Allowed (s : Stage) : Op → Prop
  | .randomUUID => s.token = none ∨ s.family = none ∧ s.fetched = none
  | .get .rotation _ => s = .first
  | .del .rotation refreshToken => s.token = none ∧ s.family = none ∧ s.spent = none ∧
      ∃ session, s.fetched = some (refreshToken, session)
  | .del .sweep refreshToken => ∃ userId tokens, s.remaining = some (userId, refreshToken :: tokens)
  | .set refreshToken session replaces => s.token = some refreshToken ∧
      s.family = some session.familyId ∧ Inherits s session replaces
  | .smembers _ => s = .first
  | _ => True

def drew (s : Stage) (n : Uuid) : Stage :=
  if s.token = none then { s with token := some n } else { s with family := some n }

def next (s : Stage) (i : Op) (r : Except Failure (Reply i)) : Stage :=
  match i, r with
  | .randomUUID, .ok n => drew s n
  | .get .rotation refreshToken, .ok found =>
    { s with fetched := found.map fun d => (refreshToken, d) }
  | .del .rotation refreshToken, .ok () =>
    { s with spent := some refreshToken, family := s.fetched.map fun read => read.2.familyId }
  | .del .sweep _, _ => { s with remaining := s.remaining.map fun r => (r.1, r.2.tail) }
  | .set _ _ _, _ => { s with token := none, family := none }
  | .smembers userId, .ok tokens => { s with remaining := some (userId, tokens) }
  | _, _ => s

def protocol : Protocol Stage Op fun i => Except Failure (Reply i) where
  Allowed := Allowed
  next := next

def Done (s : Stage) : Except Failure Answer → Prop
  | .ok (.rotated oldRefreshToken _ _) => s.spent = some oldRefreshToken ∧
      ∃ session, s.fetched = some (oldRefreshToken, session)
  | .ok (.swept userId) => s.remaining = some (userId, [])
  | _ => True

section Programs

variable {s : Stage} {userId : String} {refreshToken : Uuid} {session : SessionData}

theorem keeps_create (data : Login) : Keeps protocol Done .first (handle (.create data)).run := by
  refine obeys_bind.mpr (Obeys.mono (Q := fun _ _ => True) ?_ (fun _ _ _ => trivial) fun _ _ _ =>
    trivial)
  refine follows_call (.inl rfl) fun token => ?_
  refine follows_call (.inr ⟨rfl, rfl⟩) fun family => ?_
  refine follows_call (i := Op.now) trivial fun now => ?_
  refine follows_call ⟨rfl, rfl, rfl⟩ fun _ => ?_
  refine follows_call (i := Op.sadd _ _) trivial fun _ => ?_
  exact follows_call (i := Op.expire _) trivial fun _ => follows_pure _

def Renewed (refreshToken : Uuid) (s : Stage) (x : Except Failure (Uuid × SessionData)) : Prop :=
  ∀ renewed, x = .ok renewed → s.spent = some refreshToken ∧
    ∃ session, s.fetched = some (refreshToken, session)

theorem renewed_error {e : Failure} : Renewed refreshToken s (.error e) := fun _ h => by cases h

theorem obeys_renew (hs : s = { Stage.first with fetched := some (refreshToken, session) }) :
    Obeys protocol (Renewed refreshToken) s (renew refreshToken session) := by
  subst hs
  refine obeys_call.mpr ⟨⟨rfl, rfl, rfl, session, rfl⟩, fun _ => ?_, fun _ => renewed_error⟩
  refine (obeys_call (i := Op.srem _ _)).mpr ⟨trivial, fun _ => ?_, fun _ => renewed_error⟩
  refine obeys_call.mpr ⟨.inl rfl, fun token => ?_, fun _ => renewed_error⟩
  refine (obeys_call (i := Op.now)).mpr ⟨trivial, fun now => ?_, fun _ => renewed_error⟩
  refine obeys_call.mpr ⟨⟨rfl, rfl, session, rfl, rfl, rfl, rfl⟩, fun _ => ?_, fun _ =>
    renewed_error⟩
  refine (obeys_call (i := Op.sadd _ _)).mpr ⟨trivial, fun _ => ?_, fun _ => renewed_error⟩
  exact fun _ _ => ⟨rfl, session, rfl⟩

theorem keeps_rotate (refreshToken : Uuid) :
    Keeps protocol Done .first (handle (.rotate refreshToken)).run := by
  have hrotate : Obeys protocol (Renewed refreshToken) .first (rotateSession refreshToken) := by
    refine obeys_call.mpr ⟨rfl, fun found => ?_, fun _ => renewed_error⟩
    cases found with
    | none => exact renewed_error
    | some session => exact obeys_renew rfl
  exact obeys_bind.mpr (hrotate.mono (fun t renewed h => h renewed rfl) fun _ _ _ => trivial)

theorem keeps_invalidate (refreshToken : Uuid) :
    Keeps protocol Done .first (handle (.invalidate refreshToken)).run := by
  refine obeys_bind.mpr (Obeys.mono (Q := fun _ _ => True) ?_ (fun _ _ _ => trivial) fun _ _ _ =>
    trivial)
  refine follows_call (i := Op.get .logout _) trivial fun found => ?_
  refine follows_bind ?_ fun _ t => follows_perform (i := Op.del .logout _) trivial
  cases found with
  | none => exact follows_pure _
  | some session => exact follows_recover (follows_perform (i := Op.srem _ _) trivial)

theorem obeys_sweep {tokens : List Uuid} (hs : s.remaining = some (userId, tokens)) :
    Obeys protocol (fun t _ => t.remaining = some (userId, [])) s (sweep userId tokens) := by
  induction tokens generalizing s with
  | nil =>
    refine obeys_recover.mpr ((obeys_perform (i := Op.delUser _)).mpr
      ⟨trivial, fun _ => hs, fun _ => hs⟩)
  | cons token tokens ih =>
    have htail (r : Except Failure Unit) :
        (next s (.del .sweep token) r).remaining = some (userId, tokens) := by
      change s.remaining.map _ = _
      rw [hs]
      rfl
    refine obeys_bind.mpr (obeys_recover.mpr (obeys_perform.mpr
      ⟨⟨userId, tokens, hs⟩, fun _ => ih (htail (.ok ())), fun e => ih (htail (.error e))⟩))

theorem keeps_sweep (userId : String) :
    Keeps protocol Done .first (handle (.invalidateAll userId)).run := by
  refine obeys_bind.mpr (obeys_call.mpr ⟨rfl, fun tokens => ?_, fun _ => trivial⟩)
  unfold sweepAny
  split
  · rename_i hnone
    subst hnone
    exact rfl
  · exact (obeys_sweep rfl).mono (fun _ _ h => h) fun _ _ _ => trivial

theorem keeps_program : ∀ request, Keeps protocol Done .first (handle request).run
  | .create data => keeps_create data
  | .rotate refreshToken => keeps_rotate refreshToken
  | .invalidate refreshToken => keeps_invalidate refreshToken
  | .invalidateAll userId => keeps_sweep userId

theorem calls_program (request : Request) (x : Except Failure Answer) :
    (handle request).run ≠ .done x := by
  cases request <;> exact fun h => (by cases h)

end Programs

/-! ### The system -/

inductive Outside where
  | pass (ms : ℕ)

def outside (w : World) : Outside → Option World
  | .pass ms => some { w with now := w.now + ms }

def system : System Request World Delivery Outside Stage Op (fun i => Except Failure (Reply i))
    (Except Failure Answer) where
  program request := (handle request).run
  serve := World.serve
  outside := outside
  protocol := protocol
  first := .first

abbrev Race := Pool World
  (Task Stage Op (fun i => Except Failure (Reply i)) (Except Failure Answer))

abbrev RaceEvent := Event Request Delivery Outside

def empty : Race :=
  ⟨⟨fun _ => none, fun _ => none, 0, 0, fun _ => none, fun _ => false⟩, fun _ => none⟩

end Livora.SessionStages
