import Livora.KeyedRows
import Livora.LoginAttempts
import Livora.NumberTexts

/-! The services that set a password: by a link that was mailed, by the user, and by an
administrator. -/

namespace Livora.PasswordServices

open EffectPrograms EffectPrograms.Action KeyedRows AuthBooks
open PinVerification (Delivery)
open LoginAttempts (User Credential)

/-! ### Links -/

structure Environment where
  FRONTEND_URL : Option String
  NODE_ENV : Option String
  DOMAIN : Option String

/-- `value?.trim()`, where that is not empty. -/
def trimmed (value : Option String) : Option String :=
  (value.map fun text => String.ofList (NumberTexts.trim text.toList)).filter (· ≠ "")

/-- `url.replace(/\/+$/, '')` -/
def withoutSlashes (url : String) : String := String.ofList (url.toList.rdropWhile (· = '/'))

/-- `url.includes(part)` -/
def mentions (url part : String) : Bool :=
  url.toList.tails.any fun rest => part.toList.isPrefixOf rest

def getFrontendUrl (env : Environment) : String :=
  let isProd : Bool := env.NODE_ENV = some "production"
  match trimmed env.FRONTEND_URL with
  | some configuredUrl =>
    if isProd && mentions configuredUrl "localhost" then
      "https://" ++ (trimmed env.DOMAIN).getD "grupolivoralabs.com"
    else withoutSlashes configuredUrl
  | none =>
    match trimmed env.DOMAIN with
    | some domain => "https://" ++ domain
    | none => if isProd then "https://grupolivoralabs.com" else "http://localhost:3000"

/-- A token, by the order in which it was drawn. -/
abbrev Token := ℕ

/-- What the services are given: the environment, the digits of the tokens, and whether the
administrators' service has the other one at hand. -/
structure Services where
  env : Environment
  hex : Token → String
  authService : Bool

def resetLink (svc : Services) (token : Token) : String :=
  getFrontendUrl svc.env ++ "/restablecer-contrasena?token=" ++ svc.hex token

/-! ### The calls -/

inductive Op where
  | findByEmail (email : String)
  | findById (id : String)
  | randomBytes
  | storeToken (token : Token) (email : String)
  | sendPasswordRecoveryEmail (email resetLink : String)
  | getToken (token : Token)
  | hash (password : String)
  | compare (password passwordHash : String)
  | upsertPassword (userId passwordHash : String)
  | updatePassword (userId passwordHash : String)
  | invalidateAllUserSessions (userId : String)
  | deleteToken (token : Token)

abbrev Reply : Op → Type
  | .findByEmail _ | .findById _ => Option User
  | .randomBytes => Token
  | .getToken _ => Option String
  | .hash _ => String
  | .compare _ _ => Bool
  | .storeToken _ _ | .sendPasswordRecoveryEmail _ _ | .upsertPassword _ _ | .updatePassword _ _
  | .invalidateAllUserSessions _ | .deleteToken _ => Unit

abbrev Work (α : Type) := Action Op Reply Failure α

def call (i : Op) : Work (Reply i) := perform i

/-! ### The world -/

structure Entry where
  email : String
  expiresAt : ℕ

structure World where
  users : List User
  now : ℕ
  /-- `auth:password-reset:token:` in Redis. -/
  tokens : Token → Option Entry
  drawn : Token

/-- How the answer of a call arrives, whether a password is the right one, and a hash. -/
structure Outcome where
  delivery : Delivery
  isMatch : Bool
  hash : String

def linkTtl : ℕ := seconds 3600

namespace World

def findByEmail (w : World) (email : String) : Option User :=
  w.users.find? fun user => user.email == email

def findById (w : World) (id : String) : Option User := lookup User.id w.users id

/-- What `GET` finds. -/
def live (w : World) (token : Token) : Option String :=
  ((w.tokens token).filter fun entry => w.now < entry.expiresAt).map Entry.email

def fresh (passwordHash : String) : Credential := ⟨passwordHash, 0, none⟩

def withPassword (userId passwordHash : String) (user : User) : User :=
  if user.id = userId then { user with credentials := some (fresh passwordHash) } else user

def hasCredentials (w : World) (userId : String) : Bool :=
  (w.findById userId).any fun user => user.credentials.isSome

/-- Where the write of a password finds the rows it needs. -/
def writable (w : World) : Op → Bool
  | .upsertPassword userId _ => (w.findById userId).isSome
  | .updatePassword userId _ => w.hasCredentials userId
  | _ => true

def effect (w : World) : Op → World
  | .randomBytes => { w with drawn := w.drawn + 1 }
  | .storeToken token email =>
    { w with tokens := Function.update w.tokens token (some ⟨email, w.now + linkTtl⟩) }
  | .deleteToken token => { w with tokens := Function.update w.tokens token none }
  | .upsertPassword userId passwordHash | .updatePassword userId passwordHash =>
    { w with users := w.users.map (withPassword userId passwordHash) }
  | _ => w

/-- A draw is made by the process itself. -/
def after (w : World) (i : Op) (d : Delivery) : World :=
  match i with
  | .randomBytes => w.effect .randomBytes
  | i => if d.applied && w.writable i then w.effect i else w

def reply (w : World) (i : Op) (o : Outcome) : Except Failure (Reply i) :=
  match i with
  | .randomBytes => .ok w.drawn
  | .findByEmail email => o.delivery.answer .outside (w.findByEmail email)
  | .findById id => o.delivery.answer .outside (w.findById id)
  | .getToken token => o.delivery.answer .outside (w.live token)
  | .hash _ => o.delivery.answer .outside o.hash
  | .compare _ _ => o.delivery.answer .outside o.isMatch
  | .upsertPassword userId passwordHash =>
    if w.writable (.upsertPassword userId passwordHash) then o.delivery.answer .outside
      () else .error .outside
  | .updatePassword userId passwordHash =>
    if w.writable (.updatePassword userId passwordHash) then o.delivery.answer .outside
      () else .error .outside
  | .storeToken _ _ | .sendPasswordRecoveryEmail _ _ | .invalidateAllUserSessions _ | .deleteToken _ =>
    o.delivery.answer .outside ()

def serve (w : World) (i : Op) (o : Outcome) : Except Failure (Reply i) × World :=
  (w.reply i o, w.after i o.delivery)

end World

/-! ### `AuthService` -/

def forgotPassword (svc : Services) (email : String) : Work String := do
  match ← call (.findByEmail email) with
  | none => throw (.badRequest "El correo electrónico no se encuentra registrado")
  | some _ =>
    let token ← call .randomBytes
    call (.storeToken token email)
    call (.sendPasswordRecoveryEmail email (resetLink svc token))
    pure "Enlace de recuperación enviado exitosamente al correo electrónico"

def resetFor (token : Token) (password email : String) : Work String := do
  match ← call (.findByEmail email) with
  | none => throw (.badRequest "No se pudo encontrar el usuario asociado a este token")
  | some user =>
    let passwordHash ← call (.hash password)
    call (.upsertPassword user.id passwordHash)
    call (.invalidateAllUserSessions user.id)
    call (.deleteToken token)
    pure "Contraseña restablecida exitosamente"

def resetPassword (token : Token) (password : String) : Work String := do
  let found ← call (.getToken token)
  match found.filter (· ≠ "") with
  | none => throw (.badRequest "El enlace de recuperación es inválido o ha expirado")
  | some email => resetFor token password email

/-- `PasswordService.compare` -/
def comparePassword (password passwordHash : String) : Work Bool :=
  if password = "" ∨ passwordHash = "" then pure false else call (.compare password passwordHash)

def refuse {α : Type} (failure : Failure) : Work α := throw failure

def isCurrent (user : User) : Bool := user.isActive && user.deletedAt.isNone

def changeMatched (userId newPassword : String) : Work String := do
  let passwordHash ← call (.hash newPassword)
  call (.updatePassword userId passwordHash)
  call (.invalidateAllUserSessions userId)
  pure "Contraseña actualizada exitosamente"

def changeOf (userId currentPassword newPassword : String) (credentials : Credential) :
    Work String := do
  let isMatch ← comparePassword currentPassword credentials.passwordHash
  if isMatch then changeMatched userId newPassword
  else refuse (.badRequest "La contraseña actual es incorrecta")

def changeFound (userId currentPassword newPassword : String) (user : User) : Work String :=
  if isCurrent user then
    match user.credentials with
    | none => refuse (.badRequest "El usuario no posee credenciales registradas")
    | some credentials => changeOf userId currentPassword newPassword credentials
  else refuse (.notFound "Usuario no encontrado")

def changePassword (userId currentPassword newPassword : String) : Work String :=
  if currentPassword = newPassword then
    refuse (.badRequest "La nueva contraseña debe ser diferente a la contraseña actual")
  else do
    match ← call (.findById userId) with
    | none => refuse (.notFound "Usuario no encontrado")
    | some user => changeFound userId currentPassword newPassword user

/-! ### `UsersService` -/

def setOwn (id newPassword : String) : Work String := do
  let passwordHash ← call (.hash newPassword)
  call (.upsertPassword id passwordHash)
  pure "Contraseña actualizada con éxito"

def setOwnOf (id newPassword currentPassword : String) (credentials : Credential) :
    Work String := do
  let isMatch ← call (.compare currentPassword credentials.passwordHash)
  if isMatch then setOwn id newPassword
  else refuse (.badRequest "La contraseña actual es incorrecta.")

def setOwnFound (id newPassword : String) (user : User) : Option String → Work String
  | none => setOwn id newPassword
  | some currentPassword =>
    if currentPassword = newPassword then
      refuse (.badRequest "La nueva contraseña debe ser diferente a la contraseña actual")
    else
      match user.credentials with
      | none => refuse (.badRequest "El usuario no posee credenciales registradas")
      | some credentials => setOwnOf id newPassword currentPassword credentials

/-- The current password is asked for where one is given. -/
def changeOwnPassword (id newPassword : String) (currentPassword : Option String) :
    Work String := do
  match ← call (.findById id) with
  | none => refuse (.notFound "Usuario no encontrado")
  | some user =>
    if isCurrent user then setOwnFound id newPassword user (currentPassword.filter (· ≠ ""))
    else refuse (.notFound "Usuario no encontrado")

/-! ### `AdminService` -/

def setByAdmin (userId : String) : Option String → Work Unit
  | none => pure ()
  | some newPassword => do
    let passwordHash ← call (.hash newPassword)
    call (.upsertPassword userId passwordHash)

def mailByAdmin (svc : Services) (email : String) : Work Unit :=
  if svc.authService then do
    let _ ← forgotPassword svc email
    pure ()
  else refuse (.badRequest "Servicio de correo de recuperación no disponible")

def regularizedText (email : String) (passwordUpdated emailSent : Bool) : String :=
  if passwordUpdated && emailSent then
    "Contraseña actualizada manualmente y correo de recuperación enviado a " ++ email
  else if passwordUpdated then "Contraseña actualizada exitosamente para " ++ email
  else "Correo de recuperación de contraseña enviado exitosamente a " ++ email

def regularizeFound (svc : Services) (userId : String) (newPassword : Option String)
    (sendResetEmail : Bool) (user : User) : Work String :=
  if newPassword = none ∧ sendResetEmail = false then
    refuse (.badRequest
      "Debes proporcionar una nueva contraseña o solicitar el envío de correo de recuperación.")
  else do
    setByAdmin userId newPassword
    if sendResetEmail then mailByAdmin svc user.email
    pure (regularizedText user.email newPassword.isSome sendResetEmail)

def regularizeUserPassword (svc : Services) (userId : String) (newPassword : Option String)
    (sendResetEmail : Bool) : Work String := do
  match ← call (.findById userId) with
  | none => refuse (.notFound "Usuario no encontrado")
  | some user => regularizeFound svc userId (newPassword.filter (· ≠ "")) sendResetEmail user

/-! ### Requests -/

inductive Request where
  | forgot (email : String)
  | reset (token : Token) (password : String)
  | change (userId currentPassword newPassword : String)
  | changeOwn (id newPassword : String) (currentPassword : Option String)
  | regularize (userId : String) (newPassword : Option String) (sendResetEmail : Bool)
deriving DecidableEq

def handle (svc : Services) : Request → Work String
  | .forgot email => forgotPassword svc email
  | .reset token password => resetPassword token password
  | .change userId currentPassword newPassword => changePassword userId currentPassword newPassword
  | .changeOwn id newPassword currentPassword => changeOwnPassword id newPassword currentPassword
  | .regularize userId newPassword sendResetEmail =>
    regularizeUserPassword svc userId newPassword sendResetEmail

end Livora.PasswordServices
