import Livora.AuthBooks
import Mathlib.Data.List.Basic

/-! `SessionService`: the refresh tokens that Redis keeps, and the set of tokens of each user, each
with an expiry of its own. -/

namespace Livora.SessionTokens

open EffectPrograms EffectPrograms.Action AuthBooks
open PinVerification (Delivery)

/-- A UUID, by the order in which it was drawn. -/
abbrev Uuid := ℕ

structure SessionData where
  userId : String
  email : String
  role : String
  familyId : Uuid
  createdAt : ℕ
deriving DecidableEq

def refreshTtlSeconds : ℕ := 30 * 24 * 60 * 60

/-! ### The calls -/

/-- On whose behalf a token is read or deleted, kept for statements only. -/
inductive Caller where
  | rotation
  | logout
  | sweep
deriving DecidableEq

inductive Op where
  | randomUUID
  | now
  | get (caller : Caller) (refreshToken : Uuid)
  | del (caller : Caller) (refreshToken : Uuid)
  /-- The token that a new one replaces is kept for statements only. -/
  | set (refreshToken : Uuid) (session : SessionData) (replaces : Option Uuid)
  | sadd (userId : String) (refreshToken : Uuid)
  | expire (userId : String)
  | srem (userId : String) (refreshToken : Uuid)
  | smembers (userId : String)
  | delUser (userId : String)
deriving DecidableEq

abbrev Reply : Op → Type
  | .randomUUID => Uuid
  | .now => ℕ
  | .get _ _ => Option SessionData
  | .smembers _ => List Uuid
  | .del _ _ | .set _ _ _ | .sadd _ _ | .expire _ | .srem _ _ | .delUser _ => Unit

abbrev Work (α : Type) := Action Op Reply Failure α

def call (i : Op) : Work (Reply i) := perform i

/-! ### Redis -/

structure Entry where
  session : SessionData
  expiresAt : ℕ
deriving DecidableEq

/-- A set of tokens; it expires where it was told to. -/
structure Members where
  tokens : List Uuid
  expiresAt : Option ℕ
deriving DecidableEq

structure World where
  sessions : Uuid → Option Entry
  users : String → Option Members
  now : ℕ
  drawn : Uuid
  /-- What was stored under each token, the token it replaced, and the tokens that a rotation has
  deleted; kept for statements only. -/
  issued : Uuid → Option (SessionData × Option Uuid)
  spent : Uuid → Bool

namespace World

/-- What `GET` finds. -/
def live (w : World) (refreshToken : Uuid) : Option SessionData :=
  ((w.sessions refreshToken).filter fun entry => w.now < entry.expiresAt).map Entry.session

def members (w : World) (userId : String) : Option Members :=
  (w.users userId).filter fun set => set.expiresAt.all fun expiresAt => w.now < expiresAt

/-- A set without members is no key. -/
def nonempty (set : Members) : Option Members := if set.tokens = [] then none else some set

def effect (w : World) : Op → World
  | .randomUUID => { w with drawn := w.drawn + 1 }
  | .del caller refreshToken =>
    { w with
      sessions := Function.update w.sessions refreshToken none
      spent := if caller = .rotation then Function.update w.spent refreshToken true else w.spent }
  | .set refreshToken session replaces =>
    { w with
      sessions := Function.update w.sessions refreshToken
        (some ⟨session, w.now + seconds refreshTtlSeconds⟩)
      issued := Function.update w.issued refreshToken (some (session, replaces)) }
  | .sadd userId refreshToken =>
    { w with users := Function.update w.users userId (match w.members userId with
      | some set => some { set with tokens := set.tokens.insert refreshToken }
      | none => some ⟨[refreshToken], none⟩) }
  | .expire userId =>
    { w with users := Function.update w.users userId ((w.members userId).map fun set =>
      { set with expiresAt := some (w.now + seconds refreshTtlSeconds) }) }
  | .srem userId refreshToken =>
    { w with users := Function.update w.users userId ((w.members userId).bind fun set =>
      nonempty { set with tokens := set.tokens.filter (· ≠ refreshToken) }) }
  | .delUser userId => { w with users := Function.update w.users userId none }
  | _ => w

def after (w : World) (i : Op) (d : Delivery) : World :=
  match i with
  | .randomUUID => w.effect .randomUUID
  | i => if d.applied then w.effect i else w

def reply (w : World) (i : Op) (d : Delivery) : Except Failure (Reply i) :=
  match i with
  | .randomUUID => .ok w.drawn
  | .now => .ok w.now
  | .get _ refreshToken => d.answer .outside (w.live refreshToken)
  | .smembers userId => d.answer .outside ((w.members userId).elim [] Members.tokens)
  | .del _ _ | .set _ _ _ | .sadd _ _ | .expire _ | .srem _ _ | .delUser _ => d.answer .outside ()

def serve (w : World) (i : Op) (d : Delivery) : Except Failure (Reply i) × World :=
  (w.reply i d, w.after i d)

end World

/-! ### The service -/

structure Login where
  userId : String
  email : String
  role : String
deriving DecidableEq

def createSession (data : Login) : Work Uuid := do
  let refreshToken ← call .randomUUID
  let familyId ← call .randomUUID
  let now ← call .now
  call (.set refreshToken ⟨data.userId, data.email, data.role, familyId, now⟩ none)
  call (.sadd data.userId refreshToken)
  call (.expire data.userId)
  pure refreshToken

/-- The new token is stored before it is tracked. -/
def renew (oldRefreshToken : Uuid) (session : SessionData) : Work (Uuid × SessionData) := do
  call (.del .rotation oldRefreshToken)
  call (.srem session.userId oldRefreshToken)
  let newRefreshToken ← call .randomUUID
  let now ← call .now
  let updatedSession := { session with createdAt := now }
  call (.set newRefreshToken updatedSession (some oldRefreshToken))
  call (.sadd session.userId newRefreshToken)
  pure (newRefreshToken, updatedSession)

def rotateSession (oldRefreshToken : Uuid) : Work (Uuid × SessionData) := do
  match ← call (.get .rotation oldRefreshToken) with
  | none => throw (.unauthorized "Sesión expirada o refresh token inválido")
  | some session => renew oldRefreshToken session

/-- `try { srem } catch {}` where there is a session. -/
def forget (refreshToken : Uuid) : Option SessionData → Work Unit
  | none => pure ()
  | some session => recover (call (.srem session.userId refreshToken)) ()

def invalidateSession (refreshToken : Uuid) : Work Unit := do
  let session ← call (.get .logout refreshToken)
  forget refreshToken session
  call (.del .logout refreshToken)

/-- The commands of a pipeline are run one by one, whatever becomes of each. -/
def sweep (userId : String) : List Uuid → Work Unit
  | [] => recover (call (.delUser userId)) ()
  | token :: tokens => do
    recover (call (.del .sweep token)) ()
    sweep userId tokens

def sweepAny (userId : String) (tokens : List Uuid) : Work Unit :=
  if tokens = [] then pure () else sweep userId tokens

def invalidateAllUserSessions (userId : String) : Work Unit := do
  let tokens ← call (.smembers userId)
  sweepAny userId tokens

/-! ### Requests -/

inductive Request where
  | create (data : Login)
  | rotate (oldRefreshToken : Uuid)
  | invalidate (refreshToken : Uuid)
  | invalidateAll (userId : String)
deriving DecidableEq

inductive Answer where
  | created (refreshToken : Uuid)
  /-- With the token that was presented. -/
  | rotated (oldRefreshToken newRefreshToken : Uuid) (session : SessionData)
  | invalidated
  | swept (userId : String)
deriving DecidableEq

def handle : Request → Work Answer
  | .create data => do
    let refreshToken ← createSession data
    pure (.created refreshToken)
  | .rotate oldRefreshToken => do
    let renewed ← rotateSession oldRefreshToken
    pure (.rotated oldRefreshToken renewed.1 renewed.2)
  | .invalidate refreshToken => do
    invalidateSession refreshToken
    pure .invalidated
  | .invalidateAll userId => do
    invalidateAllUserSessions userId
    pure (.swept userId)

end Livora.SessionTokens
