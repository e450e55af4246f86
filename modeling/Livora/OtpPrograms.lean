import Livora.RegistrationServices

/-! `OtpService` by its programs and by its functions on the keys of an e-mail. Alone and with every
call answered, the programs answer what the functions do and leave the keys that they say. -/

namespace Livora.OtpPrograms

open EffectPrograms EffectPrograms.Action TimedStores RegistrationServices
open AuthBooks (seconds)
open OtpCodes (Keys isReviewerBypass isValid)

/-- Every call is answered. -/
def alone (svc : Services) (o : Outcome) (w : World) (i : Op) : Except Failure (Reply i) × World :=
  w.serve svc i { o with delivery := .done }

/-! ### The keys of an e-mail -/

def timed {α β : Type} (f : α → β) (entry : Entry α) : OtpCodes.Timed β :=
  ⟨f entry.value, entry.expiresAt⟩

def counted (counter : Counter) : OtpCodes.Counter := ⟨counter.value, counter.expiresAt⟩

section Views

variable (shown : RegisterDto → OtpCodes.RegisterDto)

def colleagueOf (parsed : Colleague) : OtpCodes.Colleague :=
  ⟨shown parsed.registerDto, parsed.otpHash, parsed.otpExpiresAt⟩

/-- Of the data of a registration, what the functions keep. -/
def keysOf (w : World) (email : String) : Keys where
  payload := (w.redis (.payload email)).map (timed shown)
  code := (w.redis (.code email)).map (timed id)
  attempts := (w.attempts (.canonical, email)).map counted
  cooldown := (w.redis (.cooldown .canonical email)).map (timed id)
  colleague := (w.redis (.register email)).map (timed (colleagueOf shown))
  colleagueAttempts := (w.attempts (.dual, email)).map counted
  colleagueCooldown := (w.redis (.cooldown .dual email)).map (timed id)
  issue := none
  wrong := 0
  wrongLocal := 0

/-- Without what is kept for statements only. -/
def bare (k : Keys) : Keys := { k with issue := none, wrong := 0, wrongLocal := 0 }

def told {α β : Type} (f : α → β) : Except Failure α → Except String β
  | .ok a => .ok (f a)
  | .error (.badRequest message) => .error message
  | .error _ => .error ""

end Views

section Reads

variable {svc : Services} {o : Outcome} {w : World} {email : String}
  {shown : RegisterDto → OtpCodes.RegisterDto} {α β : Type}

theorem live_timed (f : α → β) (now : ℕ) (entry : Option (Entry α)) :
    OtpCodes.live now (entry.map (timed f)) =
      ((entry.filter fun e => now < e.expiresAt).map Entry.value).map f := by
  cases entry with
  | none => rfl
  | some e => by_cases h : now < e.expiresAt <;> simp [OtpCodes.live, Option.filter, timed, h]

theorem live_payload :
    OtpCodes.live w.now (keysOf shown w email).payload =
      (w.redis.get w.now (.payload email)).map shown :=
  live_timed _ _ _

theorem live_code :
    OtpCodes.live w.now (keysOf shown w email).code = w.redis.get w.now (.code email) :=
  (live_timed _ _ _).trans (congrFun Option.map_id _)

theorem live_colleague : OtpCodes.live w.now (keysOf shown w email).colleague =
    (w.redis.get w.now (.register email)).map (colleagueOf shown) :=
  live_timed _ _ _

theorem ttl_timed (f : α → β) (now : ℕ) (entry : Option (Entry α)) :
    OtpCodes.ttl now (entry.map (timed f)) =
      (((entry.filter fun e => now < e.expiresAt).map fun e => e.expiresAt - now).map
        fun left => (((left + 500) / 1000 : ℕ) : ℤ)).getD (-2) := by
  cases entry with
  | none => rfl
  | some e => by_cases h : now < e.expiresAt <;> simp [OtpCodes.ttl, Option.filter, timed, h]

theorem liveCounter_counted (now : ℕ) (counter : Option Counter) :
    OtpCodes.liveCounter now (counter.map counted) =
      (counter.filter fun c => c.expiresAt.all fun t => now < t).map counted := by
  cases counter with
  | none => rfl
  | some c => by_cases h : c.expiresAt.all (fun t => decide (now < t)) = true <;>
      simp [OtpCodes.liveCounter, Option.filter, counted, h]

theorem ttl_payload : OtpCodes.ttl w.now (keysOf shown w email).payload = w.ttl (.payload email) :=
  ttl_timed _ _ _

theorem ttl_colleague :
    OtpCodes.ttl w.now (keysOf shown w email).colleague = w.ttl (.register email) :=
  ttl_timed _ _ _

theorem attemptsOf_counted (scheme : Scheme) :
    OtpCodes.attemptsOf w.now ((w.attempts (scheme, email)).map counted) =
      w.attemptsOf scheme email := by
  rw [OtpCodes.attemptsOf, liveCounter_counted, World.attemptsOf, World.liveAttempts]
  cases (w.attempts (scheme, email)).filter fun c => c.expiresAt.all fun t =>
    decide (w.now < t) <;> rfl

end Reads

section Programs

variable {svc : Services} {o : Outcome} {w : World} {shown : RegisterDto → OtpCodes.RegisterDto}
  {email code : String} {α β : Type} {view : α → β}

theorem exec_call {i : Op} {r : Reply i} {f : Reply i → Work α}
    (h : w.reply svc i { o with delivery := .done } = .ok r) :
    exec (alone svc o) w (call i >>= f) = exec (alone svc o) (w.effect i) (f r) :=
  exec_bind_of_ok (Prod.ext h rfl)

theorem exec_get {key : Key} {f : Option (Value key) → Work α} :
    exec (alone svc o) w (call (.get key) >>= f) =
      exec (alone svc o) w (f (w.redis.get w.now key)) :=
  exec_call rfl

/-- The program answers so, and leaves these keys of the address and those of every other. -/
def Agrees (shown : RegisterDto → OtpCodes.RegisterDto) (svc : Services) (o : Outcome) (w : World)
    (email : String) (view : α → β) (act : Work α) (expected : Except String β × Keys) : Prop :=
  told view (exec (alone svc o) w act).1 = expected.1 ∧
    ∀ e, keysOf shown (exec (alone svc o) w act).2 e =
      if e = email then expected.2 else keysOf shown w e

theorem agrees_pure {k : Keys} (hk : keysOf shown w email = k) (a : α) :
    Agrees shown svc o w email view (pure a) (.ok (view a), k) := by
  refine ⟨rfl, fun e => ?_⟩
  split
  · rw [‹e = email›, ← hk]
    rfl
  · rfl

theorem agrees_refuse {k : Keys} (hk : keysOf shown w email = k) (message : String) :
    Agrees shown svc o w email view (refuse (.badRequest message)) (.error message, k) := by
  refine ⟨rfl, fun e => ?_⟩
  split
  · rw [‹e = email›, ← hk]
    rfl
  · rfl

/-- What is left of a program answers for all of it, where the other addresses were left alone. -/
theorem agrees_after {w' : World} {act act' : Work α} {expected : Except String β × Keys}
    (h : exec (alone svc o) w act = exec (alone svc o) w' act')
    (hframe : ∀ e, e ≠ email → keysOf shown w' e = keysOf shown w e)
    (hf : Agrees shown svc o w' email view act' expected) :
    Agrees shown svc o w email view act expected := by
  unfold Agrees at hf ⊢
  rw [h]
  refine ⟨hf.1, fun e => ?_⟩
  rw [hf.2 e]
  split
  · rfl
  · exact hframe e ‹_›

theorem agrees_read {i : Op} {r : Reply i} {f : Reply i → Work α}
    {expected : Except String β × Keys}
    (h : w.reply svc i { o with delivery := .done } = .ok r) (hread : w.effect i = w)
    (hf : Agrees shown svc o w email view (f r) expected) :
    Agrees shown svc o w email view (call i >>= f) expected :=
  agrees_after ((exec_call h).trans (by rw [hread])) (fun _ _ => rfl) hf

theorem agrees_generate (registerDto : RegisterDto) :
    Agrees shown svc o w registerDto.email id (generateAndStoreRegistrationOtp svc registerDto)
      (.ok o.drawn.code, bare (OtpCodes.generateAndStoreRegistrationOtp svc.hashing w.now
        (shown registerDto) o.drawn o.salt)) := by
  unfold Agrees
  rw [generateAndStoreRegistrationOtp, exec_call rfl, exec_call rfl, otpExpiresAt,
    exec_bind_of_ok (exec_call rfl)]
  dsimp only
  rw [exec_call rfl, exec_call rfl, exec_call rfl, exec_call rfl, exec_call rfl, exec_call rfl,
    exec_call rfl, exec_pure]
  refine ⟨rfl, fun e => ?_⟩
  by_cases he : e = registerDto.email
  · subst he
    simp [keysOf, World.effect, World.setAttempts, bare, OtpCodes.generateAndStoreRegistrationOtp,
      OtpCodes.setEx, timed, colleagueOf]
  · simp [keysOf, World.effect, World.setAttempts, he]

theorem agrees_clear :
    Agrees shown svc o w email id (clearRegistrationOtp email)
      (.ok (), bare (OtpCodes.clearRegistrationOtp (keysOf shown w email))) := by
  unfold Agrees
  rw [clearRegistrationOtp, exec_call rfl, exec_call rfl, exec_call rfl, exec_call rfl,
    exec_call rfl,
    exec_call rfl]
  refine ⟨rfl, fun e => ?_⟩
  change keysOf shown (((((((w.effect (.del (.payload email))).effect (.del (.code email))).effect
    (.delAttempts .canonical email)).effect (.del (.cooldown .canonical email))).effect
    (.del (.register email))).effect (.delAttempts .dual email)).effect
    (.del (.cooldown .dual email))) e = _
  by_cases he : e = email
  · subst he
    simp [keysOf, World.effect, World.setAttempts, bare, OtpCodes.clearRegistrationOtp,
      OtpCodes.noKeys]
  · simp [keysOf, World.effect, World.setAttempts, he]

/-! ### The codes that are compared -/

/-- A count and its expiry, as the program makes them, are those that the functions make at once. -/
theorem counted_incr (scheme : Scheme) (n : ℤ) :
    OtpCodes.incr w.now ((w.attempts (scheme, email)).map counted) n =
      ⟨w.attemptsOf scheme email + 1, if 0 < n then some (w.now + seconds n.toNat) else
        (w.liveAttempts scheme email).bind Counter.expiresAt⟩ := by
  rw [OtpCodes.incr, attemptsOf_counted, liveCounter_counted]
  congr 1
  split
  · rfl
  · rw [World.liveAttempts]
    cases (w.attempts (scheme, email)).filter fun c => c.expiresAt.all fun t =>
      decide (w.now < t) <;> rfl

theorem live_incr (scheme : Scheme) :
    (w.effect (.incrAttempts scheme email)).liveAttempts scheme email =
      some ⟨w.attemptsOf scheme email + 1,
        (w.liveAttempts scheme email).bind Counter.expiresAt⟩ := by
  have hlive : ((w.liveAttempts scheme email).bind Counter.expiresAt).all fun t =>
    decide (w.now < t) := by
    cases h : w.liveAttempts scheme email with
    | none => rfl
    | some counter => exact (Option.filter_eq_some_iff.mp h).2
  simp only [World.liveAttempts, World.effect, World.setAttempts, Function.update_self]
  exact Option.filter_eq_some_iff.mpr ⟨rfl, hlive⟩

theorem expire_incr (scheme : Scheme) (n : ℕ) :
    ((w.effect (.incrAttempts scheme email)).effect (.expireAttempts scheme email n)).attempts =
      Function.update w.attempts (scheme, email)
        (some ⟨w.attemptsOf scheme email + 1, some (w.now + seconds n)⟩) := by
  change Function.update (Function.update w.attempts _ _) _
    (Option.map _ ((w.effect _).liveAttempts _ _)) = _
  rw [live_incr, Function.update_idem]
  rfl

theorem agrees_block {key : Key} {n : ℕ}
    (hframe : ∀ e, e ≠ email → keysOf shown (w.effect (.del key)) e = keysOf shown w e) :
    Agrees shown svc o w email shown (block key n)
      (if 5 ≤ n then (.error OtpCodes.blocked, keysOf shown (w.effect (.del key)) email)
        else (.error OtpCodes.incorrect, keysOf shown w email)) := by
  unfold block
  split
  · exact agrees_after (exec_call rfl) hframe (agrees_refuse rfl _)
  · exact agrees_refuse rfl _

/-- Of what the functions answer, the registration. -/
def verified (r : Except String OtpCodes.VerifyOtpResult × Keys) :
    Except String OtpCodes.RegisterDto × Keys :=
  (r.1.map OtpCodes.VerifyOtpResult.registerDto, r.2)

/-- The count goes up, and is kept as long as the registration. -/
theorem exec_extendAttempts (n : ℤ) :
    ∃ w', exec (alone svc o) (w.effect (.incrAttempts .canonical email)) (extendAttempts email n) =
        (.ok (), w') ∧ ∀ e, keysOf shown w' e = if e = email then
          { keysOf shown w email with
            attempts := some (OtpCodes.incr w.now (keysOf shown w email).attempts n) }
          else keysOf shown w e := by
  have hcount : OtpCodes.incr w.now (keysOf shown w email).attempts n = _ :=
    counted_incr .canonical n
  rw [extendAttempts, hcount]
  split
  · refine ⟨_, rfl, fun e => ?_⟩
    change keysOf shown ((w.effect (.incrAttempts .canonical email)).effect
      (.expireAttempts .canonical email n.toNat)) e = _
    rw [keysOf, expire_incr]
    by_cases he : e = email
    · subst he
      simp [keysOf, World.effect, World.setAttempts, counted]
    · simp [keysOf, World.effect, World.setAttempts, he]
  · refine ⟨_, rfl, fun e => ?_⟩
    by_cases he : e = email
    · subst he
      simp [keysOf, World.effect, World.setAttempts, counted]
    · simp [keysOf, World.effect, World.setAttempts, he]

theorem agrees_missCanonical :
    Agrees shown svc o w email shown (missCanonical email)
      (verified (OtpCodes.missLocal w.now (keysOf shown w email))) := by
  obtain ⟨w', hexec, hkeys⟩ := @exec_extendAttempts svc o w shown email (w.ttl (.payload email))
  have hmiss : exec (alone svc o) w (missCanonical email) =
      exec (alone svc o) w' (block (.code email) (w.attemptsOf .canonical email + 1)) := by
    rw [missCanonical, exec_call rfl, exec_call rfl]
    exact exec_bind_of_ok hexec
  have hcount : (OtpCodes.incr w.now (keysOf shown w email).attempts
    (w.ttl (.payload email))).value =
      w.attemptsOf .canonical email + 1 := congrArg (· + 1) (attemptsOf_counted .canonical)
  have hframe : ∀ e, e ≠ email →
      keysOf shown (w'.effect (.del (.code email))) e = keysOf shown w' e := fun e he => by
    simp [keysOf, World.effect, he]
  have hblocked : keysOf shown (w'.effect (.del (.code email))) email =
      { keysOf shown w' email with code := none } := by
    simp [keysOf, World.effect]
  have hagrees :=
    @agrees_block svc o w' shown email (.code email) (w.attemptsOf .canonical email + 1)
    hframe
  rw [hblocked, hkeys, if_pos rfl] at hagrees
  refine agrees_after hmiss (fun e he => by rw [hkeys, if_neg he]) ?_
  convert hagrees using 1
  rw [OtpCodes.missLocal, ttl_payload]
  dsimp only
  rw [hcount]
  split <;> rfl

theorem agrees_missDual :
    Agrees shown svc o w email shown (missDual email)
      (verified (OtpCodes.missColleague w.now (keysOf shown w email))) := by
  obtain ⟨w', hw'⟩ : ∃ w', w' = (w.effect (.incrAttempts .dual email)).effect
    (.expireAttempts .dual email 1800) := ⟨_, rfl⟩
  have hmiss : exec (alone svc o) w (missDual email) =
      exec (alone svc o) w' (block (.register email) (w.attemptsOf .dual email + 1)) := by
    rw [missDual, exec_call rfl, exec_call rfl, hw']
  have hcount : OtpCodes.incr w.now (keysOf shown w email).colleagueAttempts 1800 =
      ⟨w.attemptsOf .dual email + 1, some (w.now + seconds 1800)⟩ := counted_incr .dual 1800
  have hkeys : ∀ e, keysOf shown w' e = if e = email then
      { keysOf shown w email with
        colleagueAttempts := some ⟨w.attemptsOf .dual email + 1, some (w.now + seconds 1800)⟩ }
      else keysOf shown w e := fun e => by
    rw [hw', keysOf, expire_incr]
    by_cases he : e = email
    · subst he
      simp [keysOf, World.effect, World.setAttempts, counted]
    · simp [keysOf, World.effect, World.setAttempts, he]
  have hframe : ∀ e, e ≠ email →
      keysOf shown (w'.effect (.del (.register email))) e = keysOf shown w' e := fun e he => by
    simp [keysOf, World.effect, he]
  have hblocked : keysOf shown (w'.effect (.del (.register email))) email =
      { keysOf shown w' email with colleague := none } := by
    simp [keysOf, World.effect]
  have hagrees :=
    @agrees_block svc o w' shown email (.register email) (w.attemptsOf .dual email + 1)
    hframe
  rw [hblocked, hkeys, if_pos rfl] at hagrees
  refine agrees_after hmiss (fun e he => by rw [hkeys, if_neg he]) ?_
  convert hagrees using 1
  rw [OtpCodes.missColleague, hcount]
  dsimp only
  split <;> rfl

theorem agrees_found {f : Found → Work α} {expected : Except String β × Keys}
    (hcanonical : ∀ registerDto, w.redis.get w.now (.payload email) = some registerDto →
      Agrees shown svc o w email view (f (.canonical registerDto)) expected)
    (hdual : ∀ parsed, w.redis.get w.now (.payload email) = none →
      w.redis.get w.now (.register email) = some parsed →
      Agrees shown svc o w email view (f (.dual parsed)) expected)
    (hnone : w.redis.get w.now (.payload email) = none →
      w.redis.get w.now (.register email) = none →
      Agrees shown svc o w email view (f .none) expected) :
    Agrees shown svc o w email view (findRegistration email >>= f) expected := by
  have hfound (found : Found) (h : exec (alone svc o) w (findRegistration email) = (.ok found, w))
      (hf : Agrees shown svc o w email view (f found) expected) :
      Agrees shown svc o w email view (findRegistration email >>= f) expected :=
    agrees_after (exec_bind_of_ok h) (fun _ _ => rfl) hf
  cases hpayload : w.redis.get w.now (.payload email) with
  | some registerDto =>
    refine hfound _ ?_ (hcanonical registerDto hpayload)
    rw [findRegistration, exec_get, hpayload]
    rfl
  | none =>
    cases hregister : w.redis.get w.now (.register email) with
    | some parsed =>
      refine hfound _ ?_ (hdual parsed hpayload hregister)
      rw [findRegistration, exec_get, hpayload]
      dsimp only
      rw [exec_get, hregister]
      rfl
    | none =>
      refine hfound _ ?_ (hnone hpayload hregister)
      rw [findRegistration, exec_get, hpayload]
      dsimp only
      rw [exec_get, hregister]
      rfl

/-! ### Verification -/

/-- The hashes that are stored have characters. -/
structure Hashed (w : World) (email : String) : Prop where
  code : w.redis.get w.now (.code email) ≠ some ""
  register : ∀ parsed, w.redis.get w.now (.register email) = some parsed → parsed.otpHash ≠ ""

theorem agrees_verifyCanonical (hhashed : Hashed w email)
    (hcode : isReviewerBypass email code = false)
    (registerDto : RegisterDto) :
    Agrees shown svc o w email shown (verifyCanonical svc email code registerDto)
      (verified (OtpCodes.verifyLocal svc.hashing w.now (keysOf shown w email) (shown registerDto)
        code)) := by
  refine agrees_after exec_get (fun _ _ => rfl) ?_
  rw [OtpCodes.verifyLocal, live_code]
  cases hstored : w.redis.get w.now (.code email) with
  | none =>
    rw [show PinVerification.truthy (none : Option String) = none from rfl]
    dsimp only
    rw [if_neg (by simp [hcode])]
    exact agrees_refuse rfl _
  | some storedOtpHash =>
    rw [show PinVerification.truthy (some storedOtpHash) = some storedOtpHash from
      Option.filter_some_pos (by simpa [hstored] using hhashed.code)]
    dsimp only
    refine agrees_read rfl rfl ?_
    rw [if_neg (by simp [hcode]),
      show OtpCodes.attemptsOf w.now (keysOf shown w email).attempts = _ from
      attemptsOf_counted .canonical]
    split
    · refine agrees_after (exec_call rfl) (fun e he => ?_) (agrees_refuse ?_ _)
      · simp [keysOf, World.effect, he]
      · simp [keysOf, World.effect]
    · split
      · exact agrees_pure rfl _
      · exact agrees_missCanonical

theorem agrees_verifyDual {parsed : Colleague} (hstored : parsed.otpHash ≠ "")
    (hcode : isReviewerBypass email code = false) :
    Agrees shown svc o w email shown (verifyDual svc email code parsed)
      (verified (OtpCodes.verifyColleague svc.hashing w.now (keysOf shown w email)
        (colleagueOf shown parsed) code)) := by
  rw [verifyDual, if_neg fun h => hstored h.1, OtpCodes.verifyColleague]
  refine agrees_read rfl rfl ?_
  rw [if_neg (by simp [hcode]),
    show OtpCodes.attemptsOf w.now (keysOf shown w email).colleagueAttempts = _
    from attemptsOf_counted .dual]
  split
  · refine agrees_after ((exec_call rfl).trans (exec_call rfl)) (fun e he => ?_)
      (agrees_refuse ?_ _)
    · simp [keysOf, World.effect, World.setAttempts, he]
    · simp [keysOf, World.effect, World.setAttempts]
  · refine agrees_read rfl rfl ?_
    change Agrees shown svc o w email shown (if parsed.otpExpiresAt < w.now then _ else _)
      (verified (if parsed.otpExpiresAt < w.now then _ else _))
    split
    · exact agrees_refuse rfl _
    · change Agrees shown svc o w email shown
        (if OtpCodes.isValid svc.hashing code parsed.otpHash then _ else _)
        (verified (if OtpCodes.isValid svc.hashing code parsed.otpHash then _ else _))
      split
      · exact agrees_pure rfl _
      · exact agrees_missDual

/-- The reviewer's code is taken for whatever registration is there, or for the reviewer's own. -/
theorem agrees_bypass (hcode : isReviewerBypass email code = true)
    (hreviewer : shown reviewerDto = OtpCodes.reviewerDto) :
    Agrees shown svc o w email shown (verifyRegistrationOtp svc email code)
      (.ok ((OtpCodes.registered w.now (keysOf shown w email)).getD OtpCodes.reviewerDto),
        keysOf shown w email) := by
  rw [OtpCodes.registered, live_payload, live_colleague]
  refine agrees_found (fun registerDto hpayload => ?_) (fun parsed hpayload hregister => ?_)
    fun hpayload hregister => ?_
  · rw [hpayload]
    refine agrees_after exec_get (fun _ _ => rfl) ?_
    split
    · refine agrees_read rfl rfl ?_
      rw [if_pos hcode]
      exact agrees_pure rfl _
    · rw [if_pos hcode]
      refine agrees_read rfl rfl ?_
      rw [if_pos hcode]
      exact agrees_pure rfl _
  · rw [hpayload, hregister]
    dsimp only
    rw [verifyDual, if_neg (by simp [hcode])]
    refine agrees_read rfl rfl ?_
    rw [if_pos hcode]
    exact agrees_pure rfl _
  · rw [hpayload, hregister, ← hreviewer]
    dsimp only
    rw [verifyNone, if_pos hcode]
    refine agrees_read rfl rfl ?_
    exact agrees_pure rfl _

theorem agrees_verify (hhashed : Hashed w email)
    (hreviewer : shown reviewerDto = OtpCodes.reviewerDto) :
    Agrees shown svc o w email shown (verifyRegistrationOtp svc email code)
      (verified (OtpCodes.verifyRegistrationOtp svc.hashing w.now (keysOf shown w email) email
        code)) := by
  rw [OtpCodes.verifyRegistrationOtp]
  split
  · exact agrees_bypass ‹_› hreviewer
  · rename_i hcode
    have hcode : isReviewerBypass email code = false := by simpa using hcode
    rw [live_payload, live_colleague]
    refine agrees_found (fun registerDto hpayload => ?_) (fun parsed hpayload hregister => ?_)
      fun hpayload hregister => ?_
    · rw [hpayload]
      exact agrees_verifyCanonical hhashed hcode registerDto
    · rw [hpayload, hregister]
      exact agrees_verifyDual (hhashed.register parsed hregister) hcode
    · rw [hpayload, hregister]
      dsimp only
      rw [verifyNone, if_neg (by simp [hcode])]
      exact agrees_refuse rfl _

/-! ### A new code -/

theorem agrees_renew (registerDto : RegisterDto) (n : ℕ) :
    Agrees shown svc o w email id (renew svc email registerDto n)
      (.ok o.drawn.code, bare (OtpCodes.renew svc.hashing w.now (keysOf shown w email)
        (shown registerDto) n o.drawn o.salt)) := by
  unfold Agrees
  rw [renew, exec_call rfl, exec_call rfl, exec_call rfl, exec_call rfl, exec_call rfl,
    otpExpiresAt,
    exec_bind_of_ok (exec_call rfl)]
  dsimp only
  rw [exec_call rfl, exec_call rfl, exec_call rfl, exec_pure]
  refine ⟨rfl, fun e => ?_⟩
  by_cases he : e = email
  · subst he
    simp [keysOf, World.effect, World.setAttempts, bare, OtpCodes.renew, OtpCodes.setEx, timed,
      colleagueOf]
  · simp [keysOf, World.effect, World.setAttempts, he]

theorem exec_hasCooldown :
    exec (alone svc o) w (hasCooldown email) =
      (.ok (OtpCodes.cooling w.now (keysOf shown w email)), w) := by
  have hlive (scheme : Scheme) : OtpCodes.live w.now
      ((w.redis (.cooldown scheme email)).map (timed id)) =
        w.redis.get w.now (.cooldown scheme email) :=
    (live_timed _ _ _).trans (congrFun Option.map_id _)
  have hcooling : OtpCodes.cooling w.now (keysOf shown w email) =
      ((w.redis.get w.now (.cooldown .canonical email)).isSome ||
        (w.redis.get w.now (.cooldown .dual email)).isSome) := by
    rw [← hlive, ← hlive]
    rfl
  rw [hcooling, hasCooldown, exec_get]
  cases w.redis.get w.now (.cooldown .canonical email) with
  | some u => rfl
  | none => exact exec_get

theorem agrees_renewOf {key : Key} {ttl : ℤ} (hkey : w.ttl key = ttl) (registerDto : RegisterDto) :
    Agrees shown svc o w email id (renewOf svc email key registerDto)
      (if ttl ≤ 0 then
        (.error "El registro temporal no existe o ha expirado. Por favor regístrate de nuevo.",
          keysOf shown w email)
      else (.ok o.drawn.code, bare (OtpCodes.renew svc.hashing w.now (keysOf shown w email)
        (shown registerDto) ttl.toNat o.drawn o.salt))) := by
  subst hkey
  refine agrees_read rfl rfl ?_
  split
  · exact agrees_refuse rfl _
  · exact agrees_renew registerDto _

theorem agrees_resend :
    Agrees shown svc o w email id (resendRegistrationOtp svc email)
      ((OtpCodes.resendRegistrationOtp svc.hashing w.now (keysOf shown w email) o.drawn o.salt).1,
        bare (OtpCodes.resendRegistrationOtp svc.hashing w.now (keysOf shown w email) o.drawn
          o.salt).2) := by
  refine agrees_after (exec_bind_of_ok (@exec_hasCooldown svc o w shown email)) (fun _ _ => rfl) ?_
  rw [OtpCodes.resendRegistrationOtp]
  split
  · exact agrees_refuse rfl _
  · rw [OtpCodes.remaining, live_payload, live_colleague]
    refine agrees_found (fun registerDto hpayload => ?_) (fun parsed hpayload hregister => ?_)
      fun hpayload hregister => ?_
    · rw [hpayload]
      have hagrees := @agrees_renewOf svc o w shown email (.payload email) _ rfl registerDto
      rw [← @ttl_payload w email shown] at hagrees
      convert hagrees using 1
      simp only [Option.map_some]
      split <;> rfl
    · rw [hpayload, hregister]
      have hagrees := @agrees_renewOf svc o w shown email (.register email) _ rfl parsed.registerDto
      rw [← @ttl_colleague w email shown] at hagrees
      convert hagrees using 1
      simp only [Option.map_some, Option.map_none]
      split <;> rfl
    · rw [hpayload, hregister]
      exact agrees_refuse rfl _

end Programs

end Livora.OtpPrograms
