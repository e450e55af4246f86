import Livora.OtpRuns
import Livora.RegistrationBooks

/-! Accounts under any number of registrations, in any order of their calls. An account is made for
a code that was drawn for its address and mailed there, of data that somebody has asked to be
registered with. -/

namespace Livora.RegistrationGrounds

open TransitionRuns EffectPrograms ProgramPools ProgramPools.System CallTraces TimedStores
open RegistrationServices RegistrationRequests RegistrationBooks
open OtpCodes (Hashing isReviewerBypass isValid)

/-! ### What an account rests on -/

/-- The value is the hash of the code, under a key of the address. -/
def Carries (svc : Services) (email code : String) : (key : Key) → Value key → Prop
  | .code address, otpHash => address = email ∧ ∃ salt, otpHash = svc.hashing.bcryptHash code salt
  | .register address, parsed => address = email ∧ parsed.otpHash = svc.hashing.sha256 code
  | _, _ => False

def Issued (pre : Past) (email code : String) : Prop :=
  ∃ request, addressOf request = some email ∧ said request .randomInt (.ok code) ∈ pre.map Made.call

/-- When the request found its hash, the code was the last one stored for the address, within half
an hour before, and one that was drawn for it. -/
def CodeShown (svc : Services) (pre : Past) (request : Request) (email code : String) : Prop :=
  ∃ p m q key value, pre = p ++ m :: q ∧ m.call = said request (.get key) (.ok (some value)) ∧
    Carries svc email code key value ∧ ledger.Standing p m.before.now key value ∧
      Issued p email code

/-- The registration that an account is made of, for an address and a code. -/
def Grounded (svc : Services) (pre : Past) (email code : String) (registerDto : RegisterDto) :
    Prop :=
  Registered pre email registerDto ∧ CodeShown svc pre (.verify email code) email code ∨
    isReviewerBypass email code = true ∧
      (registerDto = reviewerDto ∨ Registered pre email registerDto)

/-- What stands before a call: a code is mailed by the request that has drawn and stored it, to the
address it was drawn for; an account is made on grounds, and consent and session are for an account
that was made. -/
def Supported (svc : Services) (pre : Past) : Request × Op → Prop
  | (request, .sendOtpEmail email code) => addressOf request = some email ∧ ∃ otpHash ttl,
      Coined (pre.map Made.call) request code otpHash ∧
      said request (.set (.code email) otpHash ttl) (.ok ()) ∈ pre.map Made.call
  | (request, .createUser account) => ∃ email code registerDto, request = .verify email code ∧
      Opens svc (pre.map Made.call) request account registerDto ∧
        Grounded svc pre email code registerDto
  | (request, .createConsentAudit consent) => ∃ account registerDto,
      Opens svc (pre.map Made.call) request account registerDto ∧
      said request (.createUser account) (.ok ()) ∈ pre.map Made.call ∧
        consent = consentOf svc account.id registerDto
  | (request, .createSession userId email role) => ∃ account,
      Consented svc (pre.map Made.call) request account ∧ userId = account.id ∧
        email = account.email ∧
      role = account.role
  | _ => True

section Results

variable {svc : Services} {w₀ w : World} {h pre p : Past} {own : List Answered} {request : Request}
    {i : Op}
  {email code : String} {registerDto : RegisterDto}

theorem code_of_bcrypt (hfaithful : svc.hashing.Faithful) {drawn : String} {salt : ℕ}
    (hvalid : isValid svc.hashing code (svc.hashing.bcryptHash drawn salt) = true) :
    drawn = code := by
  rw [isValid, Bool.or_eq_true, Option.getD_eq_iff, beq_iff_eq] at hvalid
  rcases hvalid with (hcompare | ⟨-, hfalse⟩) | hsame
  · exact (hfaithful.compare_hash code drawn salt hcompare).symm
  · cases hfalse
  · exact absurd hsame.symm (hfaithful.sha256_hash code drawn salt)

theorem code_of_sha256 (hfaithful : svc.hashing.Faithful) {drawn : String}
    (hvalid : isValid svc.hashing code (svc.hashing.sha256 drawn) = true) : drawn = code := by
  rw [isValid, Bool.or_eq_true, Option.getD_eq_iff, beq_iff_eq] at hvalid
  rcases hvalid with (hcompare | ⟨-, hfalse⟩) | hsame
  · exact absurd hcompare (hfaithful.compare_sha256 code drawn)
  · cases hfalse
  · exact hfaithful.sha256_inj drawn code hsame

theorem issued_of_standing (hb : Recorded svc h) (hjustified : Justified (Allowed svc) h)
    (hp : p <+: h) (hfaithful : svc.hashing.Faithful) {now : ℕ} {otpHash : String}
    (hstanding : ledger.Standing p now (.code email) otpHash)
    (hvalid : isValid svc.hashing code otpHash = true) :
    (∃ salt, otpHash = svc.hashing.bcryptHash code salt) ∧ Issued p email code := by
  obtain ⟨time, ttl, ⟨p', m, q, rfl, ⟨asked, n, r, hcall, -⟩, -⟩, -⟩ := hstanding
  obtain ⟨rest, rfl⟩ := hp
  obtain ⟨own, hown, hallowed⟩ :=
    hjustified p' m (q ++ rest) (by rw [List.append_assoc, List.cons_append])
  rw [hcall] at hallowed
  obtain ⟨haddress, ⟨drawn, hdrew, hhashed⟩, -⟩ := hallowed
  obtain ⟨m', hm', hcall'⟩ := List.mem_map.mp (hown hhashed)
  obtain ⟨salt, rfl⟩ :=
    hb.hashed m' (List.mem_append_left _ (List.mem_append_left _ hm')) asked drawn otpHash hcall'
  obtain rfl := code_of_bcrypt hfaithful hvalid
  refine ⟨⟨salt, rfl⟩, asked, haddress, ?_⟩
  rw [List.map_append]
  exact List.mem_append_left _ (hown hdrew)

theorem issued_of_standing_dual (hjustified : Justified (Allowed svc) h) (hp : p <+: h)
    (hfaithful : svc.hashing.Faithful) {now : ℕ} {parsed : Colleague}
    (hstanding : ledger.Standing p now (.register email) parsed)
    (hvalid : isValid svc.hashing code parsed.otpHash = true) :
    parsed.otpHash = svc.hashing.sha256 code ∧ Issued p email code := by
  obtain ⟨time, ttl, ⟨p', m, q, rfl, ⟨asked, n, r, hcall, -⟩, -⟩, -⟩ := hstanding
  obtain ⟨rest, rfl⟩ := hp
  obtain ⟨own, hown, hallowed⟩ :=
    hjustified p' m (q ++ rest) (by rw [List.append_assoc, List.cons_append])
  rw [hcall] at hallowed
  obtain ⟨-, haddress, -, ⟨drawn, otpHash, ⟨hdrew, -⟩, hhash⟩, -⟩ := hallowed
  rw [hhash] at hvalid
  obtain rfl := code_of_sha256 hfaithful hvalid
  refine ⟨hhash, asked, haddress, ?_⟩
  rw [List.map_append]
  exact List.mem_append_left _ (hown hdrew)

theorem grounded_of_proven (hfaithful : svc.hashing.Faithful) (hb : Recorded svc pre)
    (hjustified : Justified (Allowed svc) pre) (hown : own ⊆ pre.map Made.call)
    (hproven : Proven svc own request registerDto) :
    ∃ email code, request = .verify email code ∧ Grounded svc pre email code registerDto := by
  cases request with
  | verify email code =>
    refine ⟨email, code, rfl, ?_⟩
    rcases hproven with hshown | ⟨hbypass, hreviewer⟩
    · refine .inl ⟨?_, ?_⟩
      · rcases hshown with ⟨hread, -⟩ | ⟨parsed, now, hread, hsame, -⟩
        · exact hb.registered_of_read hown (.inl hread)
        · exact hb.registered_of_read hown (.inr ⟨parsed, hread, hsame⟩)
      · rcases hshown with ⟨-, otpHash, hcode, hvalid⟩ | ⟨parsed, now, hread, -, -, -, hvalid⟩
        · obtain ⟨m, hm, hcall⟩ := List.mem_map.mp (hown hcode)
          obtain ⟨p, q, rfl⟩ := List.append_of_mem hm
          have hstanding := hb.found p m q rfl _ _ _ hcall
          obtain ⟨hhash, hissued⟩ :=
            issued_of_standing hb hjustified (List.prefix_append _ _) hfaithful hstanding hvalid
          exact ⟨p, m, q, .code email, otpHash, rfl, hcall, ⟨rfl, hhash⟩, hstanding, hissued⟩
        · obtain ⟨m, hm, hcall⟩ := List.mem_map.mp (hown hread)
          obtain ⟨p, q, rfl⟩ := List.append_of_mem hm
          have hstanding := hb.found p m q rfl _ _ _ hcall
          obtain ⟨hhash, hissued⟩ :=
            issued_of_standing_dual hjustified (List.prefix_append _ _) hfaithful hstanding hvalid
          exact ⟨p, m, q, .register email, parsed, rfl, hcall, ⟨rfl, hhash⟩, hstanding, hissued⟩
    · exact .inr ⟨hbypass, hreviewer.imp_right fun hread => hb.registered_of_read hown hread⟩
  | _ => exact hproven.elim

theorem justified_earlier {q : Past} (h : Justified (Allowed svc) (p ++ q)) :
    Justified (Allowed svc) p :=
  fun pre m post hsplit => h pre m (post ++ q) (by rw [hsplit, List.append_assoc, List.cons_append])

theorem supported_of_allowed (hfaithful : svc.hashing.Faithful) (hb : Recorded svc pre)
    (hjustified : Justified (Allowed svc) pre) (hown : own ⊆ pre.map Made.call)
    (h : Allowed svc own (request, i)) : Supported svc pre (request, i) := by
  cases i with
  | sendOtpEmail email code =>
    obtain ⟨haddress, otpHash, ttl, hcoined, hstored⟩ := h
    exact ⟨haddress, otpHash, ttl, hcoined.mono hown, hown hstored⟩
  | createUser account =>
    obtain ⟨registerDto, hopens⟩ := h
    obtain ⟨email, code, hrequest, hgrounded⟩ :=
      grounded_of_proven hfaithful hb hjustified hown hopens.1
    exact ⟨email, code, registerDto, hrequest, opens_mono hown hopens, hgrounded⟩
  | createConsentAudit consent =>
    obtain ⟨account, registerDto, hopens, hcreated, hconsent⟩ := h
    exact ⟨account, registerDto, opens_mono hown hopens, hown hcreated, hconsent⟩
  | createSession userId email role =>
    obtain ⟨account, hconsented, hsession⟩ := h
    exact ⟨account, hconsented.mono hown, hsession⟩
  | _ => trivial

theorem role_of_grounded {email code : String} (h : Grounded svc pre email code registerDto) :
    registerDto.role ≠ .admin := by
  have hregistered : Registered pre email registerDto → registerDto.role ≠ .admin := by
    rintro ⟨m, -, asked, req, -, hrole, -, rfl⟩
    exact hrole
  rcases h with ⟨hr, -⟩ | ⟨-, rfl | hr⟩
  · exact hregistered hr
  · decide
  · exact hregistered hr

/-- Whatever else is going on, an account is made on grounds, a code is mailed to the address it was
drawn for, no account is made for an administrator or for an address that has one, and who is
answered with an account has it, with its record of consent and its session. -/
theorem accounts_grounded (svc : Services) (hfaithful : svc.hashing.Faithful) {w : World}
    (hredis : w.redis = Store.empty) (hapart : (w.accounts.map Account.email).Nodup)
    {es : List RaceEvent} {c : Race} (hrun : run (system svc).step (quiescent w) es = some c) :
    (∀ pre m post, calls (system svc) (quiescent w) es = pre ++ m :: post →
      Supported svc pre m.call.1) ∧
    (∀ account ∈ c.world.accounts, (∃ old ∈ w.accounts, old.id = account.id) ∨
      account.role ≠ .admin ∧
      ∃ m ∈ calls (system svc) (quiescent w) es, ∃ new, Creates m new ∧ new.id = account.id) ∧
    (c.world.accounts.map Account.email).Nodup ∧
    ∀ j own request verified, c.tasks j = some ⟨own, .done (request, .ok (some verified))⟩ →
      Consented svc
        ((calls (system svc) (quiescent w) es).map Made.call) request verified.account := by
  obtain ⟨hjustified, hrecalled, hbooked⟩ :=
    run_remembering (S := system svc) (K := fun h w' _ => Booked svc w h w')
    rfl rfl (fun request => Keeps.mono (fun _ _ _ => trivial) (keeps_program svc request))
    (fun h w' st j hb _ => hb) (fun h c j o own i hr hb hj _ hallowed _ =>
      call_booked hb (hr j own hj) hallowed)
    (fun h w' st j hb => hb) (fun h c d w' hb _ hout => outside_booked hb hout) (fun _ => rfl)
    (booked_quiescent hredis hapart) along_true hrun
  have hsupported : ∀ pre m post, calls (system svc) (quiescent w) es = pre ++ m :: post →
      Supported svc pre m.call.1 := by
    intro pre m post hsplit
    rw [hsplit] at hjustified hbooked
    obtain ⟨own, hown, hallowed⟩ := hjustified pre m post rfl
    exact supported_of_allowed hfaithful hbooked.recorded.earlier
      (justified_earlier hjustified) hown hallowed
  refine ⟨hsupported, fun account haccount => ?_, hbooked.apart,
    fun j own request verified hj => ?_⟩
  · refine (hbooked.made account haccount).imp_right ?_
    rintro ⟨m, hm, new, hcreates, hid, hrole⟩
    refine ⟨?_, m, hm, new, hcreates, hid⟩
    obtain ⟨pre, post, hsplit⟩ := List.append_of_mem hm
    have hnew := hsupported pre m post hsplit
    rw [← Prod.eta m.call.1, show m.call.1.2 = .createUser new from hcreates] at hnew
    obtain ⟨email, code, registerDto, -, ⟨-, userId, passwordHash, sealed, pair, -, -, rfl⟩,
      hgrounded⟩ := hnew
    rw [← hrole]
    exact role_of_grounded hgrounded
  · have hends :=
      run_ends (fun request => keeps_program svc request) (fun _ _ ht => by cases ht) hrun j _ hj
    exact hends.1.mono (hrecalled j own (stages_eq hj))

end Results

/-! ### One account -/

def services : Services := ⟨OtpRuns.plain, CustodyKeys.plain, CustodyKeys.oneKey⟩

def nobody : World := ⟨[], [], 0, Store.empty, fun _ => none⟩

def ana : RegisterDto := ⟨"ana@example.org", "Secret1!", .hogar, none, none, none, none, none, none⟩

def answer : Outcome :=
  ⟨.done, OtpRuns.firstCode, 0, "text",
    ⟨"GANA", "SANA", CustodyKeys.noughts 16, CustodyKeys.noughts 12⟩⟩

def answered (j calls : ℕ) : List RaceEvent := List.replicate calls (.advance j answer)

def enrolment : List RaceEvent :=
  .start 0 (.register ana ⟨some "10.0.0.1", none, none⟩) :: answered 0 12 ++
    .outside (.pass 300000) ::
    .start 1 (.verify "ana@example.org" "123456") :: answered 1 17

theorem accounts_grounded_enrolled :
    ∃ c, run (system services).step (quiescent nobody) enrolment = some c ∧
    c.world.accounts.map Account.email = ["ana@example.org"] ∧
    ∀ pre m post, calls (system services) (quiescent nobody) enrolment = pre ++ m :: post →
      Supported services pre m.call.1 := by
  obtain ⟨c, hc, haccounts⟩ := Option.map_eq_some_iff.mp
    (show (run (system services).step (quiescent nobody) enrolment).map
      (fun c => c.world.accounts.map Account.email) = some ["ana@example.org"] by decide +kernel)
  exact ⟨c, hc, haccounts, (accounts_grounded services OtpRuns.plain_faithful rfl (by decide) hc).1⟩

end Livora.RegistrationGrounds
