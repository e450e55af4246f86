import Livora.CustodyKeys
import Livora.OtpCodes
import Livora.TimedStores

/-! The registration of an account: the data and a code wait in Redis, under two schemes of keys,
until the code that was mailed comes back; then the account, the record of consent and a session are
made. -/

namespace Livora.RegistrationServices

open EffectPrograms EffectPrograms.Action TimedStores
open BackOffice (Role)
open AuthBooks (minutes seconds)
open PinVerification (Delivery truthy)
open OtpCodes (Hashing Drawn isReviewerBypass)

inductive Failure where
  | badRequest (message : String)
  | forbidden (message : String)
  | conflict (message : String)
  /-- The wallet key is not configured. -/
  | fatal (message : String)
  /-- Whatever a call outside threw. -/
  | outside
deriving DecidableEq

/-! ### The data -/

structure RegisterDto where
  email : String
  password : String
  role : Role
  termsVersion : Option String
  privacyVersion : Option String
  documentHash : Option String
  ipAddress : Option String
  userAgent : Option String
  marketingAccepted : Option Bool
deriving DecidableEq

structure HttpRequest where
  ip : Option String
  forwardedFor : Option String
  userAgent : Option String
deriving DecidableEq

/-- `rawIp.split(',')[0].trim()` -/
def firstAddress (rawIp : String) : String :=
  CustodyKeys.trimmed (String.ofList (rawIp.toList.takeWhile (· ≠ ',')))

/-- `AuthController.register`: the address and the agent are those of the connection. -/
def cleaned (dto : RegisterDto) (req : HttpRequest) : RegisterDto :=
  { dto with
    ipAddress :=
      some (firstAddress (((truthy req.ip).or (truthy req.forwardedFor)).getD "127.0.0.1"))
    userAgent := some ((truthy req.userAgent).getD "unknown") }

structure Colleague where
  registerDto : RegisterDto
  otpHash : String
  otpExpiresAt : ℕ
deriving DecidableEq

inductive Scheme where
  | canonical
  | dual
deriving DecidableEq

inductive Key where
  /-- `auth:register:payload:` -/
  | payload (email : String)
  /-- `auth:otp:code:` -/
  | code (email : String)
  /-- `otp:register:` -/
  | register (email : String)
  | cooldown (scheme : Scheme) (email : String)
deriving DecidableEq

abbrev Value : Key → Type
  | .payload _ => RegisterDto
  | .code _ => String
  | .register _ => Colleague
  | .cooldown _ _ => Unit

/-- A new user with the rows that are made with it: the credential, the vault and, for a store, its
profile. -/
structure Account where
  id : String
  email : String
  role : Role
  walletAddress : String
  encryptedPrivateKey : Option String
  marketingAccepted : Bool
  passwordHash : Option String
  walletVault : Option String
  storeProfile : Option String
deriving DecidableEq

structure ConsentAudit where
  userId : String
  ipAddress : String
  userAgent : String
  termsVersion : String
  privacyVersion : String
  marketingAccepted : Bool
  documentHash : String
deriving DecidableEq

/-- `Keypair.random()`, with the salt and the vector that its secret is sealed with. -/
structure Keypair where
  publicKey : String
  secret : String
  salt : CustodyKeys.Hex 16
  iv : CustodyKeys.Hex 12

structure Services where
  hashing : Hashing
  crypto : CustodyKeys.NodeCrypto
  env : CustodyKeys.Env

/-! ### The calls -/

inductive Op where
  | findByEmail (email : String)
  | randomInt
  | hashCode (code : String)
  | dateNow
  | set (key : Key) (value : Value key) (ttlSeconds : ℕ)
  | get (key : Key)
  | ttl (key : Key)
  | del (key : Key)
  | getAttempts (scheme : Scheme) (email : String)
  | incrAttempts (scheme : Scheme) (email : String)
  | expireAttempts (scheme : Scheme) (email : String) (seconds : ℕ)
  | delAttempts (scheme : Scheme) (email : String)
  | sendOtpEmail (email code : String)
  | randomUUID
  | hashPassword (password : String)
  | randomKeypair
  | createUser (account : Account)
  | createConsentAudit (consent : ConsentAudit)
  | createSession (userId email : String) (role : Role)

abbrev Reply : Op → Type
  | .findByEmail _ => Option Account
  | .randomInt => String
  | .hashCode _ | .randomUUID | .hashPassword _ | .createSession _ _ _ => String
  | .dateNow | .getAttempts _ _ | .incrAttempts _ _ => ℕ
  | .get key => Option (Value key)
  | .ttl _ => ℤ
  | .randomKeypair => Keypair
  | .set _ _ _ | .del _ | .expireAttempts _ _ _ | .delAttempts _ _ | .sendOtpEmail _ _ | .createUser _
  | .createConsentAudit _ => Unit

abbrev Work (α : Type) := Action Op Reply Failure α

def call (i : Op) : Work (Reply i) := perform i

/-! ### The world -/

structure Counter where
  value : ℕ
  expiresAt : Option ℕ

structure World where
  accounts : List Account
  consents : List ConsentAudit
  now : ℕ
  redis : Store Key Value
  attempts : Scheme × String → Option Counter

/-- How the answer of a call arrives, and what is drawn for it. -/
structure Outcome where
  delivery : Delivery
  drawn : Drawn
  salt : ℕ
  text : String
  keypair : Keypair

namespace World

def findByEmail (w : World) (email : String) : Option Account :=
  w.accounts.find? fun account => account.email == email

def liveAttempts (w : World) (scheme : Scheme) (email : String) : Option Counter :=
  (w.attempts (scheme, email)).filter fun counter => counter.expiresAt.all fun t => w.now < t

/-- `attemptsRaw ? parseInt(attemptsRaw, 10) : 0` -/
def attemptsOf (w : World) (scheme : Scheme) (email : String) : ℕ :=
  ((w.liveAttempts scheme email).map Counter.value).getD 0

/-- `TTL`: the seconds left, rounded. -/
def ttl (w : World) (key : Key) : ℤ :=
  ((w.redis.left w.now key).map fun left => (((left + 500) / 1000 : ℕ) : ℤ)).getD (-2)

/-- The columns `id`, `email` and `walletAddress` are unique. -/
def insertable (w : World) (account : Account) : Bool :=
  w.accounts.all fun other => other.id ≠ account.id && other.email ≠ account.email &&
    other.walletAddress ≠ account.walletAddress

def setAttempts (w : World) (scheme : Scheme) (email : String) (counter : Option Counter) : World :=
  { w with attempts := Function.update w.attempts (scheme, email) counter }

def effect (w : World) : Op → World
  | .set key value ttlSeconds =>
    { w with redis := Function.update w.redis key (some ⟨value, w.now + seconds ttlSeconds⟩) }
  | .del key => { w with redis := Function.update w.redis key none }
  | .incrAttempts scheme email => w.setAttempts scheme email
      (some ⟨w.attemptsOf scheme email + 1, (w.liveAttempts scheme email).bind Counter.expiresAt⟩)
  | .expireAttempts scheme email n => w.setAttempts scheme email
      ((w.liveAttempts scheme email).map fun counter => ⟨counter.value, some (w.now + seconds n)⟩)
  | .delAttempts scheme email => w.setAttempts scheme email none
  | .createUser account =>
    if w.insertable account then { w with accounts := w.accounts ++ [account] } else w
  | .createConsentAudit consent => { w with consents := w.consents ++ [consent] }
  | _ => w

def after (w : World) (i : Op) (d : Delivery) : World := if d.applied then w.effect i else w

/-- What the process draws by itself always arrives. -/
def reply (svc : Services) (w : World) (i : Op) (o : Outcome) : Except Failure (Reply i) :=
  match i with
  | .randomInt => .ok o.drawn.code
  | .randomUUID => .ok o.text
  | .randomKeypair => .ok o.keypair
  | .dateNow => .ok w.now
  | .hashCode code => o.delivery.answer .outside (svc.hashing.bcryptHash code o.salt)
  | .hashPassword _ | .createSession _ _ _ => o.delivery.answer .outside o.text
  | .findByEmail email => o.delivery.answer .outside (w.findByEmail email)
  | .get key => o.delivery.answer .outside (w.redis.get w.now key)
  | .ttl key => o.delivery.answer .outside (w.ttl key)
  | .getAttempts scheme email => o.delivery.answer .outside (w.attemptsOf scheme email)
  | .incrAttempts scheme email => o.delivery.answer .outside (w.attemptsOf scheme email + 1)
  | .createUser account =>
    if w.insertable account then o.delivery.answer .outside () else .error .outside
  | .set _ _ _ | .del _ | .expireAttempts _ _ _ | .delAttempts _ _ | .sendOtpEmail _ _
  | .createConsentAudit _ => o.delivery.answer .outside ()

def serve (svc : Services) (w : World) (i : Op) (o : Outcome) : Except Failure (Reply i) × World :=
  (w.reply svc i o, w.after i o.delivery)

end World

/-! ### `OtpService` -/

def otpExpiresAt : Work ℕ := do
  let now ← call .dateNow
  pure (now + minutes 10)

def generateAndStoreRegistrationOtp (svc : Services) (registerDto : RegisterDto) : Work String := do
  let code ← call .randomInt
  let otpHash ← call (.hashCode code)
  let expiresAt ← otpExpiresAt
  let email := registerDto.email
  call (.set (.register email) ⟨registerDto, svc.hashing.sha256 code, expiresAt⟩ 1800)
  call (.delAttempts .dual email)
  call (.set (.cooldown .dual email) () 60)
  call (.set (.payload email) registerDto 1800)
  call (.set (.code email) otpHash 600)
  call (.delAttempts .canonical email)
  call (.set (.cooldown .canonical email) () 60)
  pure code

def reviewerDto : RegisterDto :=
  ⟨"playstore.review@livora.pe", "LivoraReview2026!", .hogar, none, none, none, none, none, none⟩

def refuse {α : Type} (failure : Failure) : Work α := throw failure

def expired : Failure := .badRequest "El código OTP ha expirado o no existe"

def blocked : Failure :=
  .badRequest "Demasiados intentos fallidos. El código OTP ha sido bloqueado."

def incorrect : Failure := .badRequest "El código de verificación es incorrecto"

inductive Found where
  | canonical (registerDto : RegisterDto)
  | dual (parsed : Colleague)
  | none

def Found.registerDto : Found → Option RegisterDto
  | .canonical registerDto => some registerDto
  | .dual parsed => some parsed.registerDto
  | .none => Option.none

def findRegistration (email : String) : Work Found := do
  match ← call (.get (.payload email)) with
  | some registerDto => pure (.canonical registerDto)
  | none =>
    match ← call (.get (.register email)) with
    | some parsed => pure (.dual parsed)
    | none => pure .none

/-- The fifth miss deletes what the code was compared with. -/
def block (key : Key) (newAttempts : ℕ) : Work RegisterDto :=
  if 5 ≤ newAttempts then do
    call (.del key)
    refuse blocked
  else refuse incorrect

def extendAttempts (email : String) (remainingTtl : ℤ) : Work Unit :=
  if 0 < remainingTtl then call (.expireAttempts .canonical email remainingTtl.toNat) else pure ()

def missCanonical (email : String) : Work RegisterDto := do
  let newAttempts ← call (.incrAttempts .canonical email)
  let remainingTtl ← call (.ttl (.payload email))
  extendAttempts email remainingTtl
  block (.code email) newAttempts

def compareCanonical (svc : Services) (email code storedOtpHash : String)
    (registerDto : RegisterDto) :
    Work RegisterDto := do
  let attempts ← call (.getAttempts .canonical email)
  if isReviewerBypass email code then pure registerDto
  else if 5 ≤ attempts then
    call (.del (.code email))
    refuse blocked
  else if OtpCodes.isValid svc.hashing code storedOtpHash then pure registerDto
  else missCanonical email

def verifyCanonical (svc : Services) (email code : String) (registerDto : RegisterDto) :
    Work RegisterDto := do
  let stored ← call (.get (.code email))
  match truthy stored with
  | some storedOtpHash => compareCanonical svc email code storedOtpHash registerDto
  | none =>
    if isReviewerBypass email code then compareCanonical svc email code "" registerDto
    else refuse expired

def missDual (email : String) : Work RegisterDto := do
  let newAttempts ← call (.incrAttempts .dual email)
  call (.expireAttempts .dual email 1800)
  block (.register email) newAttempts

/-- With the expiry that is stored in the value itself. -/
def compareDual (svc : Services) (email code : String) (parsed : Colleague) : Work RegisterDto := do
  let now ← call .dateNow
  if parsed.otpExpiresAt <
    now then refuse (.badRequest "El código ha expirado. Solicita un reenvío.")
  else if OtpCodes.isValid svc.hashing code parsed.otpHash then pure parsed.registerDto
  else missDual email

def compareAllowed (svc : Services) (email code : String) (parsed : Colleague) :
    Work RegisterDto := do
  let attempts ← call (.getAttempts .dual email)
  if isReviewerBypass email code then pure parsed.registerDto
  else if 5 ≤ attempts then
    call (.del (.register email))
    call (.delAttempts .dual email)
    refuse blocked
  else compareDual svc email code parsed

def verifyDual (svc : Services) (email code : String) (parsed : Colleague) : Work RegisterDto :=
  if parsed.otpHash = "" ∧ isReviewerBypass email code = false then refuse expired
  else compareAllowed svc email code parsed

/-- The reviewer's own registration, where there is none. -/
def verifyNone (email code : String) : Work RegisterDto :=
  if isReviewerBypass email code then do
    let _ ← call (.getAttempts .canonical email)
    pure reviewerDto
  else refuse expired

def verifyRegistrationOtp (svc : Services) (email code : String) : Work RegisterDto := do
  match ← findRegistration email with
  | .canonical registerDto => verifyCanonical svc email code registerDto
  | .dual parsed => verifyDual svc email code parsed
  | .none => verifyNone email code

/-- A new code, for as long as the registration is there. -/
def renew (svc : Services) (email : String) (registerDto : RegisterDto) (remainingTtl : ℕ) :
    Work String := do
  let code ← call .randomInt
  let bcryptOtpHash ← call (.hashCode code)
  call (.set (.code email) bcryptOtpHash remainingTtl)
  call (.delAttempts .canonical email)
  call (.set (.cooldown .canonical email) () 60)
  let expiresAt ← otpExpiresAt
  call (.set (.register email) ⟨registerDto, svc.hashing.sha256 code, expiresAt⟩ 1800)
  call (.delAttempts .dual email)
  call (.set (.cooldown .dual email) () 60)
  pure code

def gone : Failure :=
  .badRequest "El registro temporal no existe o ha expirado. Por favor regístrate de nuevo."

def renewOf (svc : Services) (email : String) (key : Key) (registerDto : RegisterDto) :
    Work String := do
  let remainingTtl ← call (.ttl key)
  if remainingTtl ≤ 0 then refuse gone else renew svc email registerDto remainingTtl.toNat

def hasCooldown (email : String) : Work Bool := do
  match ← call (.get (.cooldown .canonical email)) with
  | some _ => pure true
  | none =>
    let other ← call (.get (.cooldown .dual email))
    pure other.isSome

def resendRegistrationOtp (svc : Services) (email : String) : Work String := do
  if ← hasCooldown email then
    refuse (.badRequest "Debes esperar 60 segundos antes de reenviar otro código")
  else
    match ← findRegistration email with
    | .canonical registerDto => renewOf svc email (.payload email) registerDto
    | .dual parsed => renewOf svc email (.register email) parsed.registerDto
    | .none => refuse gone

def clearRegistrationOtp (email : String) : Work Unit := do
  call (.del (.payload email))
  call (.del (.code email))
  call (.delAttempts .canonical email)
  call (.del (.cooldown .canonical email))
  call (.del (.register email))
  call (.delAttempts .dual email)
  call (.del (.cooldown .dual email))

/-! ### `UsersService.create` -/

/-- `email.split('@')[0]` -/
def localPart (email : String) : String := String.ofList (email.toList.takeWhile (· ≠ '@'))

def accountOf (userId : String) (registerDto : RegisterDto)
    (passwordHash walletAddress encryptedPrivateKey : String) :
    Account where
  id := userId
  email := registerDto.email
  role := registerDto.role
  walletAddress := walletAddress
  encryptedPrivateKey := some encryptedPrivateKey
  marketingAccepted := registerDto.marketingAccepted.getD false
  passwordHash := truthy (some passwordHash)
  walletVault := truthy (some encryptedPrivateKey)
  storeProfile := if registerDto.role = .tienda then some (localPart registerDto.email) else none

def createSealed (svc : Services) (userId : String) (registerDto : RegisterDto)
    (passwordHash : String) (pair : Keypair) : Work Account :=
  match CustodyKeys.register svc.crypto svc.env pair.salt pair.iv pair.secret with
  | .error message => refuse (.fatal message)
  | .ok encryptedPrivateKey => do
    let account := accountOf userId registerDto passwordHash pair.publicKey encryptedPrivateKey
    call (.createUser account)
    pure account

def create (svc : Services) (userId : String) (registerDto : RegisterDto) (passwordHash : String) :
    Work Account := do
  match ← call (.findByEmail registerDto.email) with
  | some _ => refuse (.conflict "El correo electrónico ya se encuentra registrado")
  | none =>
    let pair ← call .randomKeypair
    createSealed svc userId registerDto passwordHash pair

/-! ### `AuthService` -/

def register (svc : Services) (registerDto : RegisterDto) : Work Unit :=
  if registerDto.role = .admin then
    refuse (.forbidden "El rol ADMINISTRADOR no admite autoregistro público")
  else do
    match ← call (.findByEmail registerDto.email) with
    | some _ => refuse (.conflict "El correo electrónico ya se encuentra registrado")
    | none =>
      let code ← generateAndStoreRegistrationOtp svc registerDto
      call (.sendOtpEmail registerDto.email code)

def consentOf (svc : Services) (userId : String) (registerDto : RegisterDto) : ConsentAudit :=
  let termsVersion := (truthy registerDto.termsVersion).getD "1.0.0"
  let privacyVersion := (truthy registerDto.privacyVersion).getD "1.0.0"
  { userId := userId
    ipAddress := (truthy registerDto.ipAddress).getD "127.0.0.1"
    userAgent := (truthy registerDto.userAgent).getD "unknown"
    termsVersion := termsVersion
    privacyVersion := privacyVersion
    marketingAccepted := registerDto.marketingAccepted.getD false
    documentHash := (truthy registerDto.documentHash).getD
      (svc.hashing.sha256 ("Livora-Terms-" ++ termsVersion ++ "-Privacy-" ++ privacyVersion)) }

structure Verified where
  account : Account
  refreshToken : String

/-- The account, the consent and the session, in this order. -/
def openAccount (svc : Services) (registerDto : RegisterDto) : Work Verified := do
  let userId ← call .randomUUID
  let passwordHash ← call (.hashPassword registerDto.password)
  let user ← create svc userId registerDto passwordHash
  call (.createConsentAudit (consentOf svc user.id registerDto))
  let refreshToken ← call (.createSession user.id user.email user.role)
  pure ⟨user, refreshToken⟩

def verifyEmail (svc : Services) (email code : String) : Work Verified := do
  let registerDto ← verifyRegistrationOtp svc email code
  let verified ← openAccount svc registerDto
  clearRegistrationOtp email
  pure verified

def resendOtp (svc : Services) (email : String) : Work Unit := do
  let code ← resendRegistrationOtp svc email
  call (.sendOtpEmail email code)

/-! ### Requests -/

inductive Request where
  | register (registerDto : RegisterDto) (req : HttpRequest)
  | resend (email : String)
  | verify (email code : String)
deriving DecidableEq

def handle (svc : Services) : Request → Work (Option Verified)
  | .register registerDto req => do
    register svc (cleaned registerDto req)
    pure none
  | .resend email => do
    resendOtp svc email
    pure none
  | .verify email code => do
    let verified ← verifyEmail svc email code
    pure (some verified)

end Livora.RegistrationServices
