import Livora.CallTraces
import Livora.NamedPools
import Livora.RegistrationServices

/-! What a request has to have called before it stores a registration or a code, mails a code, or
makes an account, a record of consent and a session. The services keep to it. -/

namespace Livora.RegistrationRequests

open EffectPrograms EffectPrograms.Action NamedPools CallTraces RegistrationServices
open AuthBooks (minutes)
open OtpCodes (isReviewerBypass isValid)
open PinVerification (truthy)

abbrev Answered := Call (Request × Op) fun i => Except Failure (Reply i.2)

/-! ### What a request has to have shown -/

def addressOf : Request → Option String
  | .register asked _ => some asked.email
  | .resend email => some email
  | .verify _ _ => none

def Coined (own : List Answered) (request : Request) (code otpHash : String) : Prop :=
  said request .randomInt (.ok code) ∈ own ∧ said request (.hashCode code) (.ok otpHash) ∈ own

def Read (own : List Answered) (request : Request) (email : String) (registerDto : RegisterDto) :
    Prop :=
  said request (.get (.payload email)) (.ok (some registerDto)) ∈ own ∨
    ∃ parsed, said request (.get (.register email)) (.ok (some parsed)) ∈ own ∧
      parsed.registerDto = registerDto

/-- The registration that a request stores is its own, or one that it has found. -/
def Holds (own : List Answered) (request : Request) (email : String) (registerDto : RegisterDto) :
    Prop :=
  match request with
  | .register asked req =>
    asked.role ≠ .admin ∧ asked.email = email ∧ cleaned asked req = registerDto
  | .resend address => address = email ∧ Read own request email registerDto
  | .verify _ _ => False

/-- The code that was shown is the one whose hash was found with the registration. -/
def Shown (svc : Services) (own : List Answered) (request : Request) (email code : String)
    (registerDto : RegisterDto) : Prop :=
  (said request (.get (.payload email)) (.ok (some registerDto)) ∈ own ∧ ∃ otpHash,
    said request (.get (.code email)) (.ok (some otpHash)) ∈ own ∧
      isValid svc.hashing code otpHash = true) ∨
  ∃ parsed now, said request (.get (.register email)) (.ok (some parsed)) ∈ own ∧
    parsed.registerDto = registerDto ∧ said request .dateNow (.ok now) ∈ own ∧
      now ≤ parsed.otpExpiresAt ∧
    isValid svc.hashing code parsed.otpHash = true

/-- The registration that a request may make an account of: by its code, or the reviewer's. -/
def Proven (svc : Services) (own : List Answered) (request : Request) (registerDto : RegisterDto) :
    Prop :=
  match request with
  | .verify email code => Shown svc own request email code registerDto ∨
      isReviewerBypass email code = true ∧
        (registerDto = reviewerDto ∨ Read own request email registerDto)
  | _ => False

/-- The account is made of the registration, with a wallet whose secret is sealed. -/
def Opens (svc : Services) (own : List Answered) (request : Request) (account : Account)
    (registerDto : RegisterDto) : Prop :=
  Proven svc own request registerDto ∧
    ∃ (userId passwordHash encryptedPrivateKey : String) (pair : Keypair),
    said request (.hashPassword registerDto.password) (.ok passwordHash) ∈ own ∧
    CustodyKeys.register svc.crypto svc.env pair.salt pair.iv pair.secret =
      .ok encryptedPrivateKey ∧
    account = accountOf userId registerDto passwordHash pair.publicKey encryptedPrivateKey

/-- The account was made, and so was its record of consent. -/
def Consented (svc : Services) (own : List Answered) (request : Request)
    (account : Account) : Prop :=
  ∃ registerDto, Opens svc own request account registerDto ∧
    said request (.createUser account) (.ok ()) ∈ own ∧
    said request (.createConsentAudit (consentOf svc account.id registerDto)) (.ok ()) ∈ own

def Allowed (svc : Services) (own : List Answered) : Request × Op → Prop
  | (request, .set (.payload email) registerDto ttl) =>
    Holds own request email registerDto ∧ ttl = 1800
  | (request, .set (.code email) otpHash ttl) => addressOf request = some email ∧
      (∃ code, Coined own request code otpHash) ∧
      (ttl = 600 ∨ ∃ key left, said request (.ttl key) (.ok left) ∈ own ∧ ttl = left.toNat)
  | (request, .set (.register email) parsed ttl) => Holds own request email parsed.registerDto ∧
      addressOf request = some email ∧ ttl = 1800 ∧
      (∃ code otpHash, Coined own request code otpHash ∧ parsed.otpHash = svc.hashing.sha256 code) ∧
      ∃ now, said request .dateNow (.ok now) ∈ own ∧ parsed.otpExpiresAt = now + minutes 10
  | (_, .set (.cooldown _ _) _ ttl) => ttl = 60
  | (request, .sendOtpEmail email code) => addressOf request = some email ∧ ∃ otpHash ttl,
      Coined own request code otpHash ∧ said request (.set (.code email) otpHash ttl) (.ok ()) ∈ own
  | (request, .createUser account) => ∃ registerDto, Opens svc own request account registerDto
  | (request, .createConsentAudit consent) => ∃ account registerDto,
      Opens svc own request account registerDto ∧ said request (.createUser account)
      (.ok ()) ∈ own ∧
      consent = consentOf svc account.id registerDto
  | (request, .createSession userId email role) => ∃ account, Consented svc own request account ∧
      userId = account.id ∧ email = account.email ∧ role = account.role
  | _ => True

/-- Who is answered with an account has it, with the consent and the session. -/
def Ended (svc : Services) (own : List Answered) : Request × Except Failure (Option Verified) → Prop
  | (request, .ok (some verified)) => Consented svc own request verified.account ∧
      said request (.createSession verified.account.id verified.account.email verified.account.role)
        (.ok verified.refreshToken) ∈ own
  | _ => True

/-! ### More calls -/

section Growth

variable {svc : Services} {own known : List Answered} {request : Request} {email code : String}
  {registerDto : RegisterDto} {account : Account}

theorem Coined.mono {otpHash : String} (hown : own ⊆ known) (h : Coined own request code otpHash) :
    Coined known request code otpHash := ⟨hown h.1, hown h.2⟩

theorem Read.mono (hown : own ⊆ known) (h : Read own request email registerDto) :
    Read known request email registerDto :=
  h.imp (fun hread => hown hread) fun ⟨parsed, hread, hsame⟩ => ⟨parsed, hown hread, hsame⟩

theorem Shown.mono (hown : own ⊆ known) (h : Shown svc own request email code registerDto) :
    Shown svc known request email code registerDto := by
  rcases h with ⟨hread, otpHash, hcode, hvalid⟩ | ⟨parsed, now, hread, hsame, hnow, hrest⟩
  · exact .inl ⟨hown hread, otpHash, hown hcode, hvalid⟩
  · exact .inr ⟨parsed, now, hown hread, hsame, hown hnow, hrest⟩

theorem proven_mono (hown : own ⊆ known) (h : Proven svc own request registerDto) :
    Proven svc known request registerDto := by
  cases request with
  | verify email code =>
    exact h.imp (fun hshown => hshown.mono hown) fun hreviewer =>
      ⟨hreviewer.1, hreviewer.2.imp_right fun hread => hread.mono hown⟩
  | _ => exact h

theorem opens_mono (hown : own ⊆ known) (h : Opens svc own request account registerDto) :
    Opens svc known request account registerDto := by
  obtain ⟨hproven, userId, passwordHash, sealed, pair, hhashed, hrest⟩ := h
  exact ⟨proven_mono hown hproven, userId, passwordHash, sealed, pair, hown hhashed, hrest⟩

theorem Consented.mono (hown : own ⊆ known) (h : Consented svc own request account) :
    Consented svc known request account := by
  obtain ⟨registerDto, hopens, hcreated, hconsented⟩ := h
  exact ⟨registerDto, opens_mono hown hopens, hown hcreated, hown hconsented⟩

end Growth

/-! ### The services keep to it -/

section Programs

variable {svc : Services} {own : List Answered} {request : Request} {email code : String}
  {registerDto : RegisterDto}

theorem said_last {i : Op} {r : Except Failure (Reply i)} :
    said request i r ∈ own ++ [said request i r] :=
  List.mem_append_right _ List.mem_cons_self

theorem said_earlier {c d : Answered} (h : c ∈ own) : c ∈ own ++ [d] := List.mem_append_left _ h

/-! #### Finding a registration -/

def FoundAs (own : List Answered) (request : Request) (email : String) : Found → Prop
  | .canonical registerDto => said request (.get (.payload email)) (.ok (some registerDto)) ∈ own
  | .dual parsed => said request (.get (.register email)) (.ok (some parsed)) ∈ own
  | .none => True

theorem gives_findRegistration :
    Gives (Allowed svc) request own (fun t found => FoundAs t request email found)
    (findRegistration email) := by
  refine gives_call trivial fun payload => ?_
  cases payload with
  | some registerDto => exact gives_pure said_last
  | none =>
    refine gives_call trivial fun stored => ?_
    cases stored with
    | some parsed => exact gives_pure said_last
    | none => exact gives_pure trivial

/-! #### Verification -/

theorem gives_block {Q : List Answered → RegisterDto → Prop} {key : Key} {newAttempts : ℕ} :
    Gives (Allowed svc) request own Q (block key newAttempts) := by
  unfold block
  split
  · exact gives_call trivial fun _ => gives_throw _
  · exact gives_throw _

theorem gives_extendAttempts {remainingTtl : ℤ} :
    Gives (Allowed svc) request own (fun _ _ => True) (extendAttempts email remainingTtl) := by
  unfold extendAttempts
  split
  · exact gives_perform trivial fun _ => trivial
  · exact gives_pure trivial

theorem gives_missCanonical {Q : List Answered → RegisterDto → Prop} :
    Gives (Allowed svc) request own Q (missCanonical email) :=
  gives_call trivial fun _ => gives_call trivial fun _ =>
    gives_bind gives_extendAttempts fun _ _ _ _ => gives_block

theorem gives_missDual {Q : List Answered → RegisterDto → Prop} :
    Gives (Allowed svc) request own Q (missDual email) :=
  gives_call trivial fun _ => gives_call trivial fun _ => gives_block

theorem gives_compareCanonical {otpHash : String}
    (hread : said (.verify email code) (.get (.payload email)) (.ok (some registerDto)) ∈ own)
    (hcode : isReviewerBypass email code = true ∨
      said (.verify email code) (.get (.code email)) (.ok (some otpHash)) ∈ own) :
    Gives (Allowed svc) (.verify email code) own (fun t dto => Proven svc t (.verify email code) dto)
      (compareCanonical svc email code otpHash registerDto) := by
  refine gives_call trivial fun attempts => ?_
  split
  · rename_i hbypass
    exact gives_pure (.inr ⟨hbypass, .inr (.inl (said_earlier hread))⟩)
  · rename_i hbypass
    split
    · exact gives_call trivial fun _ => gives_throw _
    · split
      · rename_i hvalid
        exact gives_pure (.inl (.inl ⟨said_earlier hread, otpHash,
          said_earlier (hcode.resolve_left hbypass), hvalid⟩))
      · exact gives_missCanonical

theorem gives_verifyCanonical
    (hread : said (.verify email code) (.get (.payload email)) (.ok (some registerDto)) ∈ own) :
    Gives (Allowed svc) (.verify email code) own (fun t dto => Proven svc t (.verify email code) dto)
      (verifyCanonical svc email code registerDto) := by
  refine gives_call trivial fun stored => ?_
  cases hstored : truthy stored with
  | some otpHash =>
    obtain rfl := (Option.filter_eq_some_iff.mp hstored).1
    exact gives_compareCanonical (said_earlier hread) (.inr said_last)
  | none =>
    simp only
    split
    · rename_i hbypass
      exact gives_compareCanonical (said_earlier hread) (.inl hbypass)
    · exact gives_throw _

theorem gives_verifyDual {parsed : Colleague}
    (hread : said (.verify email code) (.get (.register email)) (.ok (some parsed)) ∈ own) :
    Gives (Allowed svc) (.verify email code) own (fun t dto => Proven svc t (.verify email code) dto)
      (verifyDual svc email code parsed) := by
  unfold verifyDual
  split
  · exact gives_throw _
  refine gives_call trivial fun attempts => ?_
  split
  · rename_i hbypass
    exact gives_pure (.inr ⟨hbypass, .inr (.inr ⟨parsed, said_earlier hread, rfl⟩)⟩)
  split
  · exact gives_call trivial fun _ => gives_call trivial fun _ => gives_throw _
  refine gives_call trivial fun now => ?_
  split
  · exact gives_throw _
  rename_i hnow
  split
  · rename_i hvalid
    exact gives_pure (.inl (.inr ⟨parsed, now, said_earlier (said_earlier hread), rfl, said_last,
      Nat.le_of_not_lt hnow, hvalid⟩))
  · exact gives_missDual

theorem gives_verifyRegistrationOtp :
    Gives (Allowed svc) (.verify email code) own (fun t dto => Proven svc t (.verify email code) dto)
      (verifyRegistrationOtp svc email code) := by
  refine gives_bind gives_findRegistration fun found t _ hfound => ?_
  cases found with
  | canonical registerDto => exact gives_verifyCanonical hfound
  | dual parsed => exact gives_verifyDual hfound
  | none =>
    simp only
    unfold verifyNone
    split
    · rename_i hbypass
      exact gives_call trivial fun _ => gives_pure (.inr ⟨hbypass, .inl rfl⟩)
    · exact gives_throw _

/-! #### Codes -/

def Mailable (own : List Answered) (request : Request) (email code : String) : Prop :=
  ∃ otpHash ttl, Coined own request code otpHash ∧
    said request (.set (.code email) otpHash ttl) (.ok ()) ∈ own

theorem gives_generate {asked : RegisterDto} {req : HttpRequest} (hrole : asked.role ≠ .admin) :
    Gives (Allowed svc) (.register asked req) own
      (fun t code => Mailable t (.register asked req) asked.email code)
      (generateAndStoreRegistrationOtp svc (cleaned asked req)) := by
  refine gives_call trivial fun code => gives_call trivial fun otpHash => ?_
  refine gives_bind (P := fun t expiresAt =>
    ∃ now, said (.register asked req) .dateNow (.ok now) ∈ t ∧
    expiresAt = now + minutes 10) ?_ fun expiresAt t hown hnow => ?_
  · exact gives_call trivial fun now => gives_pure ⟨now, said_last, rfl⟩
  have hcoined : Coined t (.register asked req) code otpHash :=
    ⟨hown (said_earlier said_last), hown said_last⟩
  have hholds : ∀ u, Holds u (.register asked req) asked.email (cleaned asked req) :=
    fun u => ⟨hrole, rfl, rfl⟩
  refine gives_call ⟨hholds _, rfl, rfl, ⟨code, otpHash, hcoined, rfl⟩, hnow⟩ fun _ => ?_
  refine gives_call trivial fun _ => gives_call rfl fun _ => gives_call ⟨hholds _, rfl⟩ fun _ => ?_
  refine gives_call ⟨rfl, ⟨code, ?_⟩, .inl rfl⟩ fun _ => gives_call trivial fun _ =>
    gives_call rfl fun _ =>
    gives_pure ⟨otpHash, 600, ?_, ?_⟩
  · exact hcoined.mono (by simp)
  · exact hcoined.mono (by simp)
  · exact said_earlier (said_earlier said_last)

theorem gives_renew {remainingTtl : ℤ} {key : Key}
    (hread : Read own (.resend email) email registerDto)
    (hleft : said (.resend email) (.ttl key) (.ok remainingTtl) ∈ own) :
    Gives (Allowed svc) (.resend email) own (fun t code => Mailable t (.resend email) email code)
      (renew svc email registerDto remainingTtl.toNat) := by
  refine gives_call trivial fun code => gives_call trivial fun otpHash => ?_
  have hcoined : ∀ {t}, own ++ [said (.resend email) .randomInt (.ok code)] ++
      [said (.resend email) (.hashCode code) (.ok otpHash)] ⊆ t →
        Coined t (.resend email) code otpHash :=
    fun ht => ⟨ht (said_earlier said_last), ht said_last⟩
  refine gives_call ⟨rfl, ⟨code, hcoined (List.Subset.refl _)⟩,
    .inr ⟨key, remainingTtl, said_earlier (said_earlier hleft), rfl⟩⟩ fun _ => ?_
  refine gives_call trivial fun _ => gives_call rfl fun _ => ?_
  refine gives_bind (P := fun t expiresAt => ∃ now, said (.resend email) .dateNow (.ok now) ∈ t ∧
    expiresAt = now + minutes 10) ?_ fun expiresAt t hown hnow => ?_
  · exact gives_call trivial fun now => gives_pure ⟨now, said_last, rfl⟩
  have hsub : own ++ [said (.resend email) .randomInt (.ok code)] ++
      [said (.resend email) (.hashCode code) (.ok otpHash)] ⊆ t := List.Subset.trans (by simp) hown
  refine gives_call ⟨⟨rfl, hread.mono (List.Subset.trans (by simp) hsub)⟩, rfl, rfl,
    ⟨code, otpHash, hcoined hsub, rfl⟩, hnow⟩ fun _ => ?_
  refine gives_call trivial fun _ => gives_call rfl fun _ =>
    gives_pure ⟨otpHash, remainingTtl.toNat, hcoined ?_, ?_⟩
  · exact List.Subset.trans hsub (by simp)
  · have hset := hown (said_earlier (said_earlier said_last))
    exact said_earlier (said_earlier (said_earlier hset))

theorem gives_renewOf {key : Key} (hread : Read own (.resend email) email registerDto) :
    Gives (Allowed svc) (.resend email) own (fun t code => Mailable t (.resend email) email code)
      (renewOf svc email key registerDto) := by
  refine gives_call trivial fun remainingTtl => ?_
  split
  · exact gives_throw _
  · exact gives_renew (hread.mono fun c hc => said_earlier hc) said_last

theorem gives_resendRegistrationOtp :
    Gives (Allowed svc) (.resend email) own (fun t code => Mailable t (.resend email) email code)
      (resendRegistrationOtp svc email) := by
  refine gives_bind (P := fun _ _ => True) ?_ fun cooling t _ _ => ?_
  · refine gives_call trivial fun first => ?_
    cases first with
    | some _ => exact gives_pure trivial
    | none => exact gives_call trivial fun other => gives_pure trivial
  split
  · exact gives_throw _
  refine gives_bind gives_findRegistration fun found t _ hfound => ?_
  cases found with
  | canonical registerDto => exact gives_renewOf (.inl hfound)
  | dual parsed => exact gives_renewOf (.inr ⟨parsed, hfound, rfl⟩)
  | none => exact gives_throw _

/-! #### Accounts -/

theorem gives_create {userId passwordHash : String} (hproven : Proven svc own request registerDto)
    (hhashed : said request (.hashPassword registerDto.password) (.ok passwordHash) ∈ own) :
    Gives (Allowed svc) request own (fun t account => Opens svc t request account registerDto ∧
        said request (.createUser account) (.ok ()) ∈ t)
      (create svc userId registerDto passwordHash) := by
  refine gives_call trivial fun other => ?_
  cases other with
  | some _ => exact gives_throw _
  | none =>
    refine gives_call trivial fun pair => ?_
    unfold createSealed
    cases hsealed : CustodyKeys.register svc.crypto svc.env pair.salt pair.iv pair.secret with
    | error message => exact gives_throw _
    | ok encryptedPrivateKey =>
      have hopens : ∀ {t}, own ⊆ t → Opens svc t request
          (accountOf userId registerDto passwordHash pair.publicKey encryptedPrivateKey) registerDto :=
        fun ht => ⟨proven_mono ht hproven, userId, passwordHash, encryptedPrivateKey, pair,
          ht hhashed, hsealed, rfl⟩
      refine gives_call ⟨registerDto, hopens fun c hc => said_earlier (said_earlier hc)⟩ fun _ =>
        gives_pure ⟨hopens fun c hc => said_earlier (said_earlier (said_earlier hc)), said_last⟩

theorem gives_openAccount (hproven : Proven svc own request registerDto) :
    Gives (Allowed svc) request own (fun t verified => Ended svc t (request, .ok (some verified)))
      (openAccount svc registerDto) := by
  refine gives_call trivial fun userId => gives_call trivial fun passwordHash => ?_
  refine gives_bind
    (gives_create (proven_mono (fun c hc => said_earlier (said_earlier hc)) hproven) said_last)
    fun user t _ hcreated => ?_
  refine gives_call ⟨user, registerDto, hcreated.1, hcreated.2, rfl⟩ fun _ => ?_
  have hconsented : Consented svc
    (t ++ [said request (.createConsentAudit (consentOf svc user.id registerDto))
      (.ok ())]) request user :=
    ⟨registerDto, opens_mono (fun c hc => said_earlier hc) hcreated.1, said_earlier hcreated.2,
      said_last⟩
  exact gives_call ⟨user, hconsented, rfl, rfl, rfl⟩ fun refreshToken =>
    gives_pure ⟨hconsented.mono fun c hc => said_earlier hc, said_last⟩

theorem ended_mono {known : List Answered} {verified : Verified} (hown : own ⊆ known)
    (h : Ended svc own (request, .ok (some verified))) :
    Ended svc known (request, .ok (some verified)) :=
  ⟨h.1.mono hown, hown h.2⟩

theorem gives_clearRegistrationOtp :
    Gives (Allowed svc) request own (fun _ _ => True) (clearRegistrationOtp email) := by
  refine gives_call trivial fun _ => gives_call trivial fun _ => gives_call trivial fun _ => ?_
  refine gives_call trivial fun _ => gives_call trivial fun _ => gives_call trivial fun _ => ?_
  exact gives_perform trivial fun _ => trivial

theorem gives_verifyEmail :
    Gives (Allowed svc) (.verify email code) own (fun t verified =>
      Ended svc t (.verify email code, .ok (some verified)))
      (verifyEmail svc email code) := by
  refine gives_bind gives_verifyRegistrationOtp fun registerDto t _ hproven => ?_
  refine gives_bind (gives_openAccount hproven) fun verified u _ hended => ?_
  exact gives_bind gives_clearRegistrationOtp fun _ v hv _ => gives_pure (ended_mono hv hended)

theorem gives_register {asked : RegisterDto} {req : HttpRequest} :
    Gives (Allowed svc) (.register asked req) own (fun _ _ => True)
    (register svc (cleaned asked req)) := by
  unfold register
  split
  · exact gives_throw _
  rename_i hrole
  refine gives_call trivial fun other => ?_
  cases other with
  | some _ => exact gives_throw _
  | none =>
    refine gives_bind (gives_generate hrole) fun code t _ hmailable => ?_
    exact gives_perform ⟨rfl, hmailable⟩ fun _ => trivial

theorem gives_resendOtp : Gives (Allowed svc) (.resend email) own (fun _ _ => True)
    (resendOtp svc email) :=
  gives_bind gives_resendRegistrationOtp fun _ _ _ hmailable =>
    gives_perform ⟨rfl, hmailable⟩ fun _ => trivial

theorem keeps_program (svc : Services) (request : Request) :
    Keeps (remembering (Allowed svc)) (Ended svc) [] (inName request (handle svc request).run) := by
  refine (keeps_inName (ρ := fun i => Except Failure (Reply i))).mpr ?_
  have hgives : Gives (Allowed svc) request [] (fun t answer => Ended svc t (request, .ok answer))
    (handle svc request) := by
    cases request with
    | register asked req => exact gives_bind gives_register fun _ _ _ _ => gives_pure trivial
    | resend email => exact gives_bind gives_resendOtp fun _ _ _ _ => gives_pure trivial
    | verify email code => exact gives_bind gives_verifyEmail fun _ _ _ hended => gives_pure hended
  refine Keeps.mono (fun t x hx => ?_) hgives
  cases x with
  | error e => trivial
  | ok answer => exact (hx answer rfl).2

end Programs

end Livora.RegistrationRequests
