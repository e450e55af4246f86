import Livora.AuthBooks
import Livora.KeyedRows

/-! `login`: the password is compared where the account is not locked, and the count of failed
attempts, read before, is written afterwards. -/

namespace Livora.LoginAttempts

open EffectPrograms EffectPrograms.Action KeyedRows AuthBooks
open BackOffice (Role)
open PinVerification (Delivery)

/-! ### The tables -/

structure Credential where
  passwordHash : String
  failedAttempts : ℕ
  lockedUntil : Option ℕ
deriving DecidableEq

structure User where
  id : String
  email : String
  role : Role
  walletAddress : Option String
  kycStatus : Option String
  isActive : Bool
  deletedAt : Option ℕ
  credentials : Option Credential
deriving DecidableEq

structure LoginDto where
  email : String
  password : String

structure LoginResult where
  accessToken : String
  refreshToken : String
  expiresIn : ℕ
  tokenType : String
  id : String
  email : String
  role : Role
  walletAddress : Option String
  kycStatus : String
deriving DecidableEq

/-! ### The calls -/

inductive Op where
  | findUser (email : String)
  | now
  /-- Whose password it is, is kept for statements only. -/
  | compare (userId password passwordHash : String)
  | recordFailure (userId : String) (failedAttempts : ℕ) (lockedUntil : Option ℕ)
  | reset (userId : String)
  | createSession (userId email : String) (role : Role)

abbrev Reply : Op → Type
  | .findUser _ => Option User
  | .now => ℕ
  | .compare _ _ _ => Bool
  | .recordFailure _ _ _ => Unit
  | .reset _ => Unit
  | .createSession _ _ _ => String

abbrev Work (α : Type) := Action Op Reply Failure α

def call (i : Op) : Work (Reply i) := perform i

/-! ### The world -/

structure World where
  users : List User
  now : ℕ
  /-- The comparisons that failed since the last that succeeded, or since a new password, and the
  time of the last of them; kept for statements only. -/
  misses : String → ℕ
  lastMiss : String → ℕ

/-- How the answer of a call arrives, whether a password is the right one, and a new token. -/
structure Outcome where
  delivery : Delivery
  isMatch : Bool
  token : String

namespace World

def findUser (w : World) (email : String) : Option User :=
  w.users.find? fun user => user.email == email

def findById (w : World) (userId : String) : Option User := lookup User.id w.users userId

def withCredentials (userId : String) (f : Credential → Credential) (user : User) : User :=
  if user.id = userId then { user with credentials := user.credentials.map f } else user

def hasCredentials (w : World) (userId : String) : Bool :=
  (w.findById userId).any fun user => user.credentials.isSome

def failedAs (failedAttempts : ℕ) (lockedUntil : Option ℕ) (c : Credential) : Credential :=
  { c with failedAttempts := failedAttempts, lockedUntil := lockedUntil.or c.lockedUntil }

def resetAs (c : Credential) : Credential := { c with failedAttempts := 0, lockedUntil := none }

def effect (w : World) : Op → World
  | .recordFailure userId failedAttempts lockedUntil =>
    { w with users := w.users.map (withCredentials userId (failedAs failedAttempts lockedUntil)) }
  | .reset userId => { w with users := w.users.map (withCredentials userId resetAs) }
  | _ => w

def compared (w : World) (userId : String) (isMatch : Bool) : World :=
  if isMatch then { w with misses := Function.update w.misses userId 0 }
  else { w with
    misses := Function.update w.misses userId (w.misses userId + 1)
    lastMiss := Function.update w.lastMiss userId w.now }

def after (w : World) (i : Op) (o : Outcome) : World :=
  match i with
  | .compare userId _ _ => if o.delivery = .done then w.compared userId o.isMatch else w
  | i => if o.delivery.applied then w.effect i else w

def updated (w : World) (userId : String) (d : Delivery) : Except Failure Unit :=
  if w.hasCredentials userId then d.answer .outside () else .error .outside

def reply (w : World) (i : Op) (o : Outcome) : Except Failure (Reply i) :=
  match i with
  | .findUser email => o.delivery.answer .outside (w.findUser email)
  | .now => .ok w.now
  | .compare _ _ _ => o.delivery.answer .outside o.isMatch
  | .recordFailure userId _ _ => w.updated userId o.delivery
  | .reset userId => w.updated userId o.delivery
  | .createSession _ _ _ => o.delivery.answer .outside o.token

def serve (w : World) (i : Op) (o : Outcome) : Except Failure (Reply i) × World :=
  (w.reply i o, w.after i o)

end World

/-! ### The service -/

def credentialsRefused : Failure := .unauthorized "Credenciales inválidas"

def maxFailures : ℕ := 5

def lockout : ℕ := minutes 15

/-- `Math.ceil(ms / 60000)` -/
def minutesLeft (ms : ℤ) : ℤ := -(-ms / 60000)

def lockedText (ms : ℤ) : String :=
  "Cuenta bloqueada temporalmente por demasiados intentos fallidos. Intenta nuevamente en " ++
    toString (minutesLeft ms) ++ " minutos."

def refuseLocked (lockedUntil : ℕ) : Work LoginResult := do
  let now ← call .now
  throw (.unauthorized (lockedText ((lockedUntil : ℤ) - now)))

/-- The time until which the account is locked, where it is. -/
def lockFor (failedAttempts : ℕ) : Work (Option ℕ) :=
  if maxFailures ≤ failedAttempts then do
    let now ← call .now
    pure (some (now + lockout))
  else pure none

def loginFailed (userId : String) (credentials : Credential) : Work LoginResult := do
  let failedAttempts := credentials.failedAttempts + 1
  let lockedUntil ← lockFor failedAttempts
  call (.recordFailure userId failedAttempts lockedUntil)
  throw credentialsRefused

/-- `failedAttempts > 0 || lockedUntil !== null` -/
def resetAttempts (userId : String) (credentials : Credential) : Work Unit :=
  if 0 < credentials.failedAttempts ∨
    credentials.lockedUntil.isSome = true then call (.reset userId)
  else pure ()

def loginMatched (generateAccessToken : String → String → Role → String) (user : User)
    (credentials : Credential) : Work LoginResult := do
  resetAttempts user.id credentials
  let refreshToken ← call (.createSession user.id user.email user.role)
  pure ⟨generateAccessToken user.id user.email user.role, refreshToken, 3600, "bearer", user.id,
    user.email, user.role, user.walletAddress,
    (user.kycStatus.filter (· ≠ "")).getD "UNVERIFIED"⟩

def loginUnlocked (generateAccessToken : String → String → Role → String) (user : User)
    (credentials : Credential) (password : String) : Work LoginResult := do
  let isMatch ← call (.compare user.id password credentials.passwordHash)
  if isMatch then loginMatched generateAccessToken user credentials
  else loginFailed user.id credentials

def loginWith (generateAccessToken : String → String → Role → String) (user : User)
    (credentials : Credential) (password : String) : Work LoginResult :=
  match credentials.lockedUntil with
  | none => loginUnlocked generateAccessToken user credentials password
  | some lockedUntil => do
    let now ← call .now
    if now < lockedUntil then refuseLocked lockedUntil
    else loginUnlocked generateAccessToken user credentials password

def login (generateAccessToken : String → String → Role → String) (dto : LoginDto) :
    Work LoginResult := do
  match ← call (.findUser dto.email) with
  | none => throw credentialsRefused
  | some user =>
    if user.isActive = true ∧ user.deletedAt = none then
      match user.credentials with
      | none => throw credentialsRefused
      | some credentials => loginWith generateAccessToken user credentials dto.password
    else throw credentialsRefused

end Livora.LoginAttempts
