import Livora.AuthBooks

/-! `OtpService`: the codes of a registration, which Redis keeps under two schemes of keys with
expiries and counts of their own. Verification goes by the first scheme while its registration is
there, and by the second one afterwards. -/

namespace Livora.OtpCodes

open AuthBooks (minutes seconds)

structure RegisterDto where
  email : String
  password : String
  role : String
  termsAccepted : Bool
  privacyAccepted : Bool
deriving DecidableEq

/-- `bcrypt`, which may throw, and SHA-256 in hexadecimal digits. -/
structure Hashing where
  bcryptHash : String → ℕ → String
  bcryptCompare : String → String → Option Bool
  sha256 : String → String

/-- A hash matches the text it was made from and no other, nor a hash of the other kind. -/
structure Hashing.Faithful (h : Hashing) : Prop where
  compare_hash : ∀ text other salt, h.bcryptCompare text (h.bcryptHash other salt) = some true →
    text = other
  compare_sha256 : ∀ text other, h.bcryptCompare text (h.sha256 other) ≠ some true
  sha256_hash : ∀ text other salt, h.sha256 text ≠ h.bcryptHash other salt
  sha256_inj : ∀ text other, h.sha256 text = h.sha256 other → text = other

/-! ### Redis -/

structure Timed (α : Type) where
  value : α
  expiresAt : ℕ
deriving DecidableEq

/-- A count that `INCR` makes has no expiry until it is given one. -/
structure Counter where
  value : ℕ
  expiresAt : Option ℕ
deriving DecidableEq

structure Colleague where
  registerDto : RegisterDto
  otpHash : String
  otpExpiresAt : ℕ
deriving DecidableEq

structure Issue where
  code : String
  issuedAt : ℕ
deriving DecidableEq

structure Keys where
  payload : Option (Timed RegisterDto)
  code : Option (Timed String)
  attempts : Option Counter
  cooldown : Option (Timed Unit)
  colleague : Option (Timed Colleague)
  colleagueAttempts : Option Counter
  colleagueCooldown : Option (Timed Unit)
  /-- The last code, the wrong ones submitted since, and those of them submitted while the
  registration of the first scheme was there; kept for statements only. -/
  issue : Option Issue
  wrong : ℕ
  wrongLocal : ℕ
deriving DecidableEq

def noKeys : Keys := ⟨none, none, none, none, none, none, none, none, 0, 0⟩

/-- `GET` -/
def live {α : Type} (now : ℕ) (entry : Option (Timed α)) : Option α :=
  (entry.filter fun e => now < e.expiresAt).map Timed.value

theorem live_eq_some {α : Type} {now : ℕ} {entry : Option (Timed α)} {value : α} :
    live now entry = some value ↔ ∃ e, entry = some e ∧ e.value = value ∧ now < e.expiresAt := by
  simp [live, Option.filter_eq_some_iff, and_assoc, and_comm]

theorem expired_of_live {α : Type} {now : ℕ} {e : Timed α} (h : live now (some e) = none) :
    e.expiresAt ≤ now := by
  by_contra hlater
  rw [live_eq_some.mpr ⟨e, rfl, rfl, Nat.lt_of_not_le hlater⟩] at h
  cases h

def liveCounter (now : ℕ) (counter : Option Counter) : Option Counter :=
  counter.filter fun c => c.expiresAt.all fun t => now < t

/-- `attemptsRaw ? parseInt(attemptsRaw, 10) : 0` -/
def attemptsOf (now : ℕ) (counter : Option Counter) : ℕ :=
  (liveCounter now counter).elim 0 Counter.value

/-- `TTL`: the seconds left, rounded. -/
def ttl {α : Type} (now : ℕ) (entry : Option (Timed α)) : ℤ :=
  match entry.filter fun e => now < e.expiresAt with
  | some e => ((e.expiresAt - now + 500) / 1000 : ℕ)
  | none => -2

/-- `SET key value EX seconds` -/
def setEx {α : Type} (now : ℕ) (value : α) (ttlSeconds : ℕ) : Option (Timed α) :=
  some ⟨value, now + seconds ttlSeconds⟩

/-- `INCR`, and `EXPIRE` where there are seconds to give. -/
def incr (now : ℕ) (counter : Option Counter) (expire : ℤ) : Counter where
  value := attemptsOf now counter + 1
  expiresAt :=
    if 0 < expire then some (now + seconds expire.toNat) else
      (liveCounter now counter).bind Counter.expiresAt

/-! ### The service -/

/-- A code of six digits, as `randomInt(100000, 999999)` draws it. -/
structure Drawn where
  number : ℕ
  least : 100000 ≤ number
  below : number < 999999

def Drawn.code (d : Drawn) : String := toString d.number

variable (hashing : Hashing)

def generateAndStoreRegistrationOtp (now : ℕ) (registerDto : RegisterDto) (drawn : Drawn)
    (salt : ℕ) : Keys where
  payload := setEx now registerDto 1800
  code := setEx now (hashing.bcryptHash drawn.code salt) 600
  attempts := none
  cooldown := setEx now () 60
  colleague := setEx now ⟨registerDto, hashing.sha256 drawn.code, now + minutes 10⟩ 1800
  colleagueAttempts := none
  colleagueCooldown := setEx now () 60
  issue := some ⟨drawn.code, now⟩
  wrong := 0
  wrongLocal := 0

def isReviewerBypass (email code : String) : Bool :=
  email.toLower == "playstore.review@livora.pe" && code == "123456"

def reviewerDto : RegisterDto :=
  ⟨"playstore.review@livora.pe", "LivoraReview2026!", "HOGAR", true, true⟩

structure VerifyOtpResult where
  registerDto : RegisterDto
  isReviewerBypass : Bool
deriving DecidableEq

def expired : String := "El código OTP ha expirado o no existe"

def blocked : String := "Demasiados intentos fallidos. El código OTP ha sido bloqueado."

def incorrect : String := "El código de verificación es incorrecto"

/-- By either of the hashes. -/
def isValid (code storedOtpHash : String) : Bool :=
  (hashing.bcryptCompare code storedOtpHash).getD false || storedOtpHash == hashing.sha256 code

def missLocal (now : ℕ) (k : Keys) : Except String VerifyOtpResult × Keys :=
  let counter := incr now k.attempts (ttl now k.payload)
  if 5 ≤ counter.value then (.error blocked, { k with attempts := some counter, code := none })
  else (.error incorrect, { k with attempts := some counter })

def verifyLocal (now : ℕ) (k : Keys) (registerDto : RegisterDto) (code : String) :
    Except String VerifyOtpResult × Keys :=
  match live now k.code with
  | none => (.error expired, k)
  | some storedOtpHash =>
    if 5 ≤ attemptsOf now k.attempts then (.error blocked, { k with code := none })
    else if isValid hashing code storedOtpHash then (.ok ⟨registerDto, false⟩, k)
    else missLocal now k

def missColleague (now : ℕ) (k : Keys) : Except String VerifyOtpResult × Keys :=
  let counter := incr now k.colleagueAttempts 1800
  if 5 ≤ counter.value then
    (.error blocked, { k with colleagueAttempts := some counter, colleague := none })
  else (.error incorrect, { k with colleagueAttempts := some counter })

def verifyColleague (now : ℕ) (k : Keys) (parsed : Colleague) (code : String) :
    Except String VerifyOtpResult × Keys :=
  if 5 ≤ attemptsOf now k.colleagueAttempts then
    (.error blocked, { k with colleague := none, colleagueAttempts := none })
  else if parsed.otpExpiresAt < now then (.error "El código ha expirado. Solicita un reenvío.", k)
  else if isValid hashing code parsed.otpHash then (.ok ⟨parsed.registerDto, false⟩, k)
  else missColleague now k

/-- The registration that is there, of the first scheme or of the second. -/
def registered (now : ℕ) (k : Keys) : Option RegisterDto :=
  (live now k.payload).or ((live now k.colleague).map Colleague.registerDto)

def verifyRegistrationOtp (now : ℕ) (k : Keys) (email code : String) :
    Except String VerifyOtpResult × Keys :=
  if isReviewerBypass email code then (.ok ⟨(registered now k).getD reviewerDto, true⟩, k)
  else
    match live now k.payload, live now k.colleague with
    | some registerDto, _ => verifyLocal hashing now k registerDto code
    | none, some parsed => verifyColleague hashing now k parsed code
    | none, none => (.error expired, k)

/-- The new code is stored for as long as the registration is there. -/
def renew (now : ℕ) (k : Keys) (registerDto : RegisterDto) (remainingTtl : ℕ) (drawn : Drawn)
    (salt : ℕ) :
    Keys :=
  { k with
    code := setEx now (hashing.bcryptHash drawn.code salt) remainingTtl
    attempts := none
    cooldown := setEx now () 60
    colleague := setEx now ⟨registerDto, hashing.sha256 drawn.code, now + minutes 10⟩ 1800
    colleagueAttempts := none
    colleagueCooldown := setEx now () 60
    issue := some ⟨drawn.code, now⟩
    wrong := 0
    wrongLocal := 0 }

def remaining (now : ℕ) (k : Keys) : Option (RegisterDto × ℤ) :=
  match live now k.payload, live now k.colleague with
  | some registerDto, _ => some (registerDto, ttl now k.payload)
  | none, some parsed => some (parsed.registerDto, ttl now k.colleague)
  | none, none => none

def cooling (now : ℕ) (k : Keys) : Bool :=
  (live now k.cooldown).isSome || (live now k.colleagueCooldown).isSome

def resendRegistrationOtp (now : ℕ) (k : Keys) (drawn : Drawn) (salt : ℕ) :
    Except String String × Keys :=
  if cooling now k then
    (.error "Debes esperar 60 segundos antes de reenviar otro código", k)
  else
    match remaining now k with
    | none =>
      (.error "El registro temporal no existe o ha expirado. Por favor regístrate de nuevo.", k)
    | some (registerDto, remainingTtl) =>
      if remainingTtl ≤ 0 then
        (.error "El registro temporal no existe o ha expirado. Por favor regístrate de nuevo.", k)
      else (.ok drawn.code, renew hashing now k registerDto remainingTtl.toNat drawn salt)

def clearRegistrationOtp (k : Keys) : Keys :=
  { noKeys with issue := k.issue, wrong := k.wrong, wrongLocal := k.wrongLocal }

/-! ### Timed sequences of calls -/

structure World where
  now : ℕ
  keys : String → Keys

inductive Event where
  | pass (ms : ℕ)
  | register (registerDto : RegisterDto) (drawn : Drawn) (salt : ℕ)
  | resend (email : String) (drawn : Drawn) (salt : ℕ)
  | verify (email code : String)
  | clear (email : String)

/-- A wrong code is one that is not the last issued. -/
def submitted (now : ℕ) (k : Keys) (code : String) : Keys :=
  if k.issue.map Issue.code = some code then k
  else { k with
    wrong := k.wrong + 1
    wrongLocal := if (live now k.payload).isSome then k.wrongLocal + 1 else k.wrongLocal }

def World.update (w : World) (email : String) (k : Keys) : World :=
  { w with keys := Function.update w.keys email k }

def step (w : World) : Event → Option World
  | .pass ms => some { w with now := w.now + ms }
  | .register registerDto drawn salt =>
    some (w.update registerDto.email
      (generateAndStoreRegistrationOtp hashing w.now registerDto drawn salt))
  | .resend email drawn salt =>
    some (w.update email (resendRegistrationOtp hashing w.now (w.keys email) drawn salt).2)
  | .verify email code =>
    some (w.update email
      (verifyRegistrationOtp hashing w.now (submitted w.now (w.keys email) code) email
      code).2)
  | .clear email => some (w.update email (clearRegistrationOtp (w.keys email)))

def initial : World := ⟨0, fun _ => noKeys⟩

def accepts (w : World) (email code : String) : Bool :=
  (verifyRegistrationOtp hashing w.now (w.keys email) email code).1.isOk

end Livora.OtpCodes
