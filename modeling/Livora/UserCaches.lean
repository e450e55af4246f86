import Livora.AuthBooks
import Livora.KeyedRows
import Livora.OtpCodes
import Mathlib.Data.List.AList

/-! `UserCacheProxy`: every process keeps the users it found for ten seconds, and Redis for thirty.
The commands to Redis that nobody waits for are carried out later or get lost; the services that
change an account go around the proxy. -/

namespace Livora.UserCaches

open EffectPrograms EffectPrograms.Action KeyedRows AuthBooks
open OtpCodes (Timed live)
open BackOffice (Role)
open PinVerification (Delivery)

/-! ### The tables -/

inductive UserStatus where
  | pendingEmailVerification
  | active
  | lockedPinAttempts
  | suspendedDebt
  | suspendedFraud
  | deletionRequested
  | deletedArco
deriving DecidableEq

inductive KycStatus where
  | unverified
  | pending
  | observed
  | inReview
  | approved
  | rejected
  | expired
deriving DecidableEq

structure User where
  id : String
  email : String
  role : Role
  userStatus : UserStatus
  kycStatus : KycStatus
  kycRejectionReason : Option String
  encryptedPrivateKey : Option String
  fcmToken : Option String
  receptionPin : Option String
  isActive : Bool
  deletedAt : Option ℕ
  name : Option String
  phone : Option String
  address : Option String
  marketingAccepted : Bool
deriving DecidableEq

/-- The fields of `data` in an update; one that is not there is left as it is. -/
structure UserData where
  email : Option String := none
  userStatus : Option UserStatus := none
  kycStatus : Option KycStatus := none
  kycRejectionReason : Option (Option String) := none
  encryptedPrivateKey : Option (Option String) := none
  fcmToken : Option (Option String) := none
  receptionPin : Option (Option String) := none
  isActive : Option Bool := none
  deletedAt : Option (Option ℕ) := none
  name : Option (Option String) := none
  phone : Option (Option String) := none
  address : Option (Option String) := none
  marketingAccepted : Option Bool := none

namespace User

def set (user : User) (data : UserData) : User where
  id := user.id
  email := data.email.getD user.email
  role := user.role
  userStatus := data.userStatus.getD user.userStatus
  kycStatus := data.kycStatus.getD user.kycStatus
  kycRejectionReason := data.kycRejectionReason.getD user.kycRejectionReason
  encryptedPrivateKey := data.encryptedPrivateKey.getD user.encryptedPrivateKey
  fcmToken := data.fcmToken.getD user.fcmToken
  receptionPin := data.receptionPin.getD user.receptionPin
  isActive := data.isActive.getD user.isActive
  deletedAt := data.deletedAt.getD user.deletedAt
  name := data.name.getD user.name
  phone := data.phone.getD user.phone
  address := data.address.getD user.address
  marketingAccepted := data.marketingAccepted.getD user.marketingAccepted

def active (user : User) : Bool := user.isActive && user.deletedAt.isNone

end User

/-- `{ user, expires }` -/
structure Entry where
  user : User
  expires : ℕ
deriving DecidableEq

abbrev MemoryCache := AList fun _ : String => Entry

/-- A command to Redis that nobody waits for. -/
inductive Command where
  | set (id : String) (user : User)
  | del (id : String)
deriving DecidableEq

/-! ### The calls -/

/-- Calls of process `p`, or of the database. -/
inductive Op where
  /-- `Date.now()` and `memoryCache.get(id)` -/
  | lookMemory (p : ℕ) (id : String)
  | getCached (p : ℕ) (id : String)
  | remember (p : ℕ) (id : String) (user : User) (expires : ℕ)
  /-- What follows a read of the database: the entry, the sweep and the command to Redis. -/
  | store (p : ℕ) (id : String) (user : User) (now : ℕ)
  | evict (p : ℕ) (id : String)
  | findUser (id : String)
  | updateUser (id : String) (data : UserData)
  /-- The transaction of `cancelAccountARCO`. -/
  | anonymize (id : String)
  /-- The retries of the last application. -/
  | findRetries (userId : String)
  /-- A write to the other tables, or to the chain. -/
  | elsewhere

abbrev Reply : Op → Type
  | .lookMemory _ _ => ℕ × Option User
  | .getCached _ _ => Option User
  | .remember _ _ _ _ => Unit
  | .store _ _ _ _ => Unit
  | .evict _ _ => Unit
  | .findUser _ => Option User
  | .updateUser _ _ => Unit
  | .anonymize _ => Unit
  | .findRetries _ => Option ℕ
  | .elsewhere => Unit

abbrev Work (α : Type) := Action Op Reply Failure α

def call (i : Op) : Work (Reply i) := perform i

/-! ### The world -/

structure World where
  users : List User
  memory : ℕ → MemoryCache
  /-- `user:cache:<id>` -/
  redis : String → Option (Timed User)
  /-- The commands of a process on their way, in the order in which it sent them. -/
  sent : ℕ → List Command
  now : ℕ

structure Outcome where
  delivery : Delivery
  retries : Option ℕ

/-- `DEFAULT_TTL_MS` -/
def defaultTtl : ℕ := 10000

namespace World

def find (w : World) (id : String) : Option User := lookup User.id w.users id

def execute (w : World) : Command → World
  | .set id user => { w with redis := Function.update w.redis id (some ⟨user, w.now + seconds 30⟩) }
  | .del id => { w with redis := Function.update w.redis id none }

/-- Redis carries out the commands of a connection in their order, before the next one that is
waited for. -/
def flush (w : World) (p : ℕ) : World :=
  (w.sent p).foldl execute { w with sent := Function.update w.sent p [] }

/-- `if (inMemory && inMemory.expires > now)` -/
def look (w : World) (p : ℕ) (id : String) : Option User :=
  (((w.memory p).lookup id).filter fun e => w.now < e.expires).map Entry.user

def remember (w : World) (p : ℕ) (id : String) (e : Entry) : World :=
  { w with memory := Function.update w.memory p ((w.memory p).insert id e) }

def sweep (now : ℕ) (m : MemoryCache) : MemoryCache :=
  (m.entries.filter fun e => e.2.expires ≤ now).foldl (fun m e => m.erase e.1) m

def send (w : World) (p : ℕ) (command : Command) : World :=
  { w with sent := Function.update w.sent p (w.sent p ++ [command]) }

def tidy (w : World) (p now : ℕ) : World :=
  if 2000 < (w.memory p).entries.length then
    { w with memory := Function.update w.memory p (sweep now (w.memory p)) }
  else w

/-- `evictCache` -/
def evict (w : World) (p : ℕ) (id : String) : World :=
  ({ w with memory := Function.update w.memory p ((w.memory p).erase id) } : World).send p (.del id)

def updateUser (w : World) (id : String) (data : UserData) : World :=
  { w with users := w.users.map fun user => if user.id = id then user.set data else user }

/-- What the transaction writes into the row of the user. -/
def anonymous (id : String) (now : ℕ) : UserData where
  email := some ("deleted_" ++ id ++ "_" ++ toString now ++ "@anon.livora.pe")
  encryptedPrivateKey := some none
  fcmToken := some none
  receptionPin := some none
  isActive := some false
  deletedAt := some (some now)
  name := some (some "ANONIMO")
  phone := some none
  address := some none
  marketingAccepted := some false

def after (w : World) (i : Op) (o : Outcome) : World :=
  match i with
  | .getCached p _ => if o.delivery = .done then w.flush p else w
  | .remember p id user expires => w.remember p id ⟨user, expires⟩
  | .store p id user now =>
    ((w.remember p id ⟨user, now + defaultTtl⟩).tidy p now).send p (.set id user)
  | .evict p id => w.evict p id
  | .updateUser id data => if o.delivery.applied then w.updateUser id data else w
  | .anonymize id => if o.delivery.applied then w.updateUser id (anonymous id w.now) else w
  | _ => w

def updated (w : World) (id : String) (d : Delivery) : Except Failure Unit :=
  if (w.find id).isSome then d.answer .outside () else .error .outside

def reply (w : World) (i : Op) (o : Outcome) : Except Failure (Reply i) :=
  match i with
  | .lookMemory p id => .ok (w.now, w.look p id)
  | .getCached p id => o.delivery.answer .outside (live w.now ((w.flush p).redis id))
  | .remember _ _ _ _ => .ok ()
  | .store _ _ _ _ => .ok ()
  | .evict _ _ => .ok ()
  | .findUser id => o.delivery.answer .outside (w.find id)
  | .updateUser id _ => w.updated id o.delivery
  | .anonymize id => w.updated id o.delivery
  | .findRetries _ => o.delivery.answer .outside o.retries
  | .elsewhere => o.delivery.answer .outside ()

def serve (w : World) (i : Op) (o : Outcome) : Except Failure (Reply i) × World :=
  (w.reply i o, w.after i o)

end World

/-! ### The proxy -/

def loadUser (p : ℕ) (id : String) (now : ℕ) : Work (Option User) := do
  match ← call (.findUser id) with
  | none => pure none
  | some user =>
    call (.store p id user now)
    pure (some user)

def fetchUser (p : ℕ) (id : String) (now : ℕ) : Work (Option User) := do
  match ← recover (call (.getCached p id)) none with
  | some user =>
    call (.remember p id user (now + defaultTtl))
    pure (some user)
  | none => loadUser p id now

def findById (p : ℕ) (id : String) : Work (Option User) := do
  match ← call (.lookMemory p id) with
  | (_, some user) => pure (some user)
  | (now, none) => fetchUser p id now

/-- `update` of the proxy: the entry goes before the row changes. -/
def proxyUpdate (p : ℕ) (id : String) (data : UserData) : Work Unit := do
  call (.evict p id)
  call (.updateUser id data)

def proxyUpdateFcmToken (p : ℕ) (id fcmToken : String) : Work Unit :=
  proxyUpdate p id { fcmToken := some (some fcmToken) }

/-! ### The guard -/

/-- What `JwtAuthGuard` makes of the user of a token: `request.user`, without the secrets. -/
def admitted : Option User → Except Failure User
  | none => .error (.unauthorized "Usuario autenticado pero sin perfil local en la base de datos")
  | some user =>
    if user.deletedAt ≠ none ∨ user.isActive = false then
      .error (.unauthorized "Cuenta desactivada o eliminada")
    else .ok { user with encryptedPrivateKey := none }

def canActivate (p : ℕ) (userId : String) : Work User := do
  let user ← findById p userId
  match admitted user with
  | .ok safeUser => pure safeUser
  | .error e => throw e

/-! ### The services -/

def present (found : Option User) : Bool := found.any User.active

structure UpdateUserDto where
  name : Option (Option String)
  phone : Option (Option String)
  address : Option (Option String)
  marketingAccepted : Option Bool

def UpdateUserDto.data (dto : UpdateUserDto) : UserData where
  name := dto.name
  phone := dto.phone
  address := dto.address
  marketingAccepted := dto.marketingAccepted

def recordConsent (user : User) (marketingAccepted : Option Bool) : Work Unit :=
  if marketingAccepted.any fun accepted => accepted != user.marketingAccepted then call .elsewhere
  else pure ()

def mirrorStore (user : User) : Work Unit :=
  if user.role = .tienda then recover (call .elsewhere) () else pure ()

/-- `update` of `UsersService` -/
def update (p : ℕ) (id : String) (dto : UpdateUserDto) : Work Unit := do
  match ← call (.findUser id) with
  | none => throw (.notFound "Usuario no encontrado")
  | some user =>
    if user.active then do
      recordConsent user dto.marketingAccepted
      mirrorStore user
      call (.updateUser id dto.data)
      call (.evict p id)
    else throw (.notFound "Usuario no encontrado")

def updateFcmToken (p : ℕ) (id fcmToken : String) : Work Unit := do
  recover (call .elsewhere) ()
  call (.updateUser id { fcmToken := some (some fcmToken) })
  call (.evict p id)

def cancelAccountARCO (p : ℕ) (id : String) : Work Unit := do
  let user ← call (.findUser id)
  if present user then do
    call (.anonymize id)
    call (.evict p id)
  else throw (.notFound "Usuario no encontrado o ya cancelado")

structure UpdateUserStatusDto where
  isActive : Option Bool
  userStatus : Option UserStatus

/-- The status that goes with a change of `isActive`. -/
def impliedStatus (user : User) (isActive : Option Bool) : Option UserStatus :=
  if isActive = some false ∧ user.userStatus = .active then some .suspendedFraud
  else if isActive = some true ∧ user.userStatus ≠ .active then some .active
  else none

/-- `dataToUpdate` -/
def UpdateUserStatusDto.data (dto : UpdateUserStatusDto) (user : User) : UserData where
  isActive := dto.isActive
  userStatus := dto.userStatus.or (impliedStatus user dto.isActive)

/-- `updateUserStatus` of `AdminService` -/
def updateUserStatus (userId : String) (dto : UpdateUserStatusDto) : Work Unit := do
  match ← call (.findUser userId) with
  | none => throw (.notFound "Usuario no encontrado")
  | some user =>
    if user.role = .admin ∧ dto.isActive = some false then
      throw (.badRequest "No es posible suspender una cuenta con rol de Administrador.")
    else
      call (.updateUser userId (dto.data user))

structure UpdateKycStatusDto where
  status : KycStatus
  observationNotes : Option String

/-- The fourth observation is a rejection. -/
def newStatus (dto : UpdateKycStatusDto) (retries : Option ℕ) : KycStatus :=
  if dto.status = .observed ∧ 3 < retries.getD 0 + 1 then .rejected else dto.status

/-- `dto.observationNotes || text` -/
def noted (dto : UpdateKycStatusDto) (text : String) : String :=
  (dto.observationNotes.filter (· ≠ "")).getD text

def applyKyc (user : User) (dto : UpdateKycStatusDto) : KycStatus → Work Unit
  | .approved => do
    recover (call .elsewhere) ()
    call (.updateUser user.id { isActive := some true, kycStatus := some .approved })
  | .rejected =>
    call (.updateUser user.id {
      isActive := some (if user.role = .recolector then false else user.isActive)
      kycStatus := some .rejected
      kycRejectionReason := some (some (noted dto "Rechazado en revisión administrativa")) })
  | .observed =>
    call (.updateUser user.id {
      kycStatus := some .observed
      kycRejectionReason := some (some (noted dto "Observado en revisión administrativa")) })
  | _ => pure ()

/-- The last application, or the first one of a shop. -/
def writeApplication (user : User) : Option ℕ → Work Unit
  | some _ => call .elsewhere
  | none =>
    if user.role = .tienda then do
      call .elsewhere
      recover (call .elsewhere) ()
    else pure ()

/-- `updateUserKycStatus` of `AdminKycService` -/
def updateUserKycStatus (userId : String) (dto : UpdateKycStatusDto) : Work Unit := do
  let retries ← call (.findRetries userId)
  match ← call (.findUser userId) with
  | none => throw (.notFound "Usuario no encontrado")
  | some user =>
    writeApplication user retries
    applyKyc user dto (newStatus dto retries)

end Livora.UserCaches
