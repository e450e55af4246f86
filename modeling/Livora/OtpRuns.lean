import Livora.OtpCodes
import Livora.TransitionRuns

/-! Timed sequences of registrations, resends and verifications. A code is accepted within ten
minutes, while it is the last one issued and before the fifth wrong one, along every sequence in
which a resend finds ten minutes left of the registration at most, a verification half a second of
it, and one that goes by the second scheme no wrong code submitted under the first. -/

namespace Livora.OtpRuns

open TransitionRuns OtpCodes
open AuthBooks (minutes seconds)

variable {hashing : Hashing} {now now' : ℕ} {k k' : Keys} {email code : String}

/-! ### Expiries -/

theorem ttl_of_live {α : Type} {e : Timed α} (h : now < e.expiresAt) :
    ttl now (some e) = ((e.expiresAt - now + 500) / 1000 : ℕ) := by
  simp [ttl, Option.filter, h]

def shown (counter : Option Counter) : ℕ := counter.elim 0 Counter.value

theorem attemptsOf_eq {counter : Option Counter}
    (h : ∀ c t, counter = some c → c.expiresAt = some t → now < t) :
    attemptsOf now counter = shown counter := by
  cases counter with
  | none => rfl
  | some c =>
    have hlive : c.expiresAt.all (fun t => decide (now < t)) = true := by
      cases ht : c.expiresAt with
      | none => rfl
      | some t => exact decide_eq_true (h c t rfl ht)
    have hkept : liveCounter now (some c) = some c := by simp [liveCounter, Option.filter, hlive]
    rw [attemptsOf, hkept]
    rfl

/-! ### What the keys show -/

structure Fits (hashing : Hashing) (now : ℕ) (k : Keys) : Prop where
  past : ∀ issue, k.issue = some issue → issue.issuedAt ≤ now
  code : ∀ e, k.code = some e → ∃ issue salt, k.issue = some issue ∧
    e.value = hashing.bcryptHash issue.code salt
  /-- The registration or the code is gone after ten minutes. -/
  inTime : ∀ p e issue, k.payload = some p → k.code = some e → k.issue = some issue →
    min p.expiresAt e.expiresAt ≤ issue.issuedAt + minutes 10
  colleague : ∀ e, k.colleague = some e → e.value.otpExpiresAt < e.expiresAt ∧ ∃ issue,
    k.issue = some issue ∧ e.value.otpHash = hashing.sha256 issue.code ∧
      e.value.otpExpiresAt = issue.issuedAt + minutes 10
  /-- The count of the first scheme is not gone half a second before its registration. -/
  localCount : ∀ p e, k.payload = some p → k.code = some e → now < p.expiresAt → now < e.expiresAt →
    k.wrong ≤ shown k.attempts ∧ ∀ c t, k.attempts = some c → c.expiresAt = some t →
      p.expiresAt < t + 500
  localOnly : ∀ p, k.payload = some p → now < p.expiresAt → k.wrong = k.wrongLocal ∧
    k.colleagueAttempts = none
  remoteCount : ∀ e, k.colleague = some e → now ≤ e.value.otpExpiresAt →
    k.wrong ≤ k.wrongLocal + shown k.colleagueAttempts ∧
      ∀ c t, k.colleagueAttempts = some c → c.expiresAt = some t → e.value.otpExpiresAt < t

theorem fits_noKeys : Fits hashing now noKeys :=
  ⟨fun _ h => (by cases h), fun _ h => (by cases h), fun _ _ _ h => (by cases h), fun _ h =>
    (by cases h), fun _ _ h => (by cases h), fun _ h => (by cases h), fun _ h => (by cases h)⟩

theorem fits_pass (h : Fits hashing now k) (hle : now ≤ now') : Fits hashing now' k where
  past issue hi := (h.past issue hi).trans hle
  code := h.code
  inTime := h.inTime
  colleague := h.colleague
  localCount p e hp he hlive hlive' :=
    h.localCount p e hp he (hle.trans_lt hlive) (hle.trans_lt hlive')
  localOnly p hp hlive := h.localOnly p hp (hle.trans_lt hlive)
  remoteCount e he hlive := h.remoteCount e he (hle.trans hlive)

theorem fits_register (registerDto : RegisterDto) (drawn : Drawn) (salt : ℕ) :
    Fits hashing now (generateAndStoreRegistrationOtp hashing now registerDto drawn salt) where
  past issue hi := by
    cases hi
    exact le_rfl
  code e he := by
    cases he
    exact ⟨_, salt, rfl, rfl⟩
  inTime p e issue hp he hi := by
    cases he
    cases hi
    exact min_le_right _ _
  colleague e he := by
    cases he
    refine ⟨?_, _, rfl, rfl, rfl⟩
    exact Nat.add_lt_add_left (by decide) _
  localCount p e _ _ _ _ := ⟨le_rfl, fun _ _ hc => (by cases hc)⟩
  localOnly p _ _ := ⟨rfl, rfl⟩
  remoteCount e _ _ := ⟨le_rfl, fun _ _ hc => (by cases hc)⟩

theorem fits_renew (registerDto : RegisterDto) (drawn : Drawn) (salt : ℕ) {remainingTtl : ℕ}
    (hshort : ∀ p, k.payload = some p → now < p.expiresAt → remainingTtl ≤ 600) :
    Fits hashing now (renew hashing now k registerDto remainingTtl drawn salt) where
  past issue hi := by
    cases hi
    exact le_rfl
  code e he := by
    cases he
    exact ⟨_, salt, rfl, rfl⟩
  inTime p e issue hp he hi := by
    cases he
    cases hi
    change min p.expiresAt (now + seconds remainingTtl) ≤ now + minutes 10
    by_cases hlive : now < p.expiresAt
    · refine (min_le_right _ _).trans (Nat.add_le_add_left ?_ _)
      have hle := hshort p hp hlive
      unfold seconds minutes
      omega
    · exact (min_le_left _ _).trans ((Nat.le_of_not_lt hlive).trans (Nat.le_add_right _ _))
  colleague e he := by
    cases he
    refine ⟨?_, _, rfl, rfl, rfl⟩
    exact Nat.add_lt_add_left (by decide) _
  localCount p e _ _ _ _ := ⟨le_rfl, fun _ _ hc => (by cases hc)⟩
  localOnly p _ _ := ⟨rfl, rfl⟩
  remoteCount e _ _ := ⟨le_rfl, fun _ _ hc => (by cases hc)⟩

theorem fits_clear (h : Fits hashing now k) : Fits hashing now (clearRegistrationOtp k) :=
  ⟨h.past, fun _ h => (by cases h), fun _ _ _ h => (by cases h), fun _ h => (by cases h),
    fun _ _ h => (by cases h), fun _ h => (by cases h), fun _ h => (by cases h)⟩

theorem fits_local (h : Fits hashing now k) {p : Timed RegisterDto} (hp : k.payload = some p)
    {d : ℕ} (hpayload : k'.payload = k.payload) (hissue : k'.issue = k.issue)
    (hcolleague : k'.colleague = k.colleague)
    (hattempts : k'.colleagueAttempts = k.colleagueAttempts)
    (hwrong : k'.wrong = k.wrong + d) (hwrongLocal : k'.wrongLocal = k.wrongLocal + d)
    (hcode : k'.code = k.code ∨ k'.code = none)
    (hcount : ∀ e, k'.code = some e → now < e.expiresAt → k'.wrong ≤ shown k'.attempts ∧
      ∀ c t, k'.attempts = some c → c.expiresAt = some t → p.expiresAt < t + 500) :
    Fits hashing now k' := by
  have hold {e : Timed String} (he : k'.code = some e) : k.code = some e := by
    rcases hcode with hcode | hcode
    · rw [← hcode, he]
    · rw [he] at hcode
      cases hcode
  refine ⟨?_, ?_, ?_, ?_, ?_, ?_, ?_⟩
  · rw [hissue]
    exact h.past
  · rw [hissue]
    exact fun e he => h.code e (hold he)
  · rw [hissue, hpayload]
    exact fun p e issue hp he hi => h.inTime p e issue hp (hold he) hi
  · rw [hissue, hcolleague]
    exact h.colleague
  · rw [hpayload]
    intro p' e hp' he _ hlate
    cases hp.symm.trans hp'
    exact hcount e he hlate
  · rw [hpayload, hwrong, hwrongLocal, hattempts]
    intro p' hp' hlate
    obtain ⟨hsame, hnone⟩ := h.localOnly p' hp' hlate
    exact ⟨congrArg (· + d) hsame, hnone⟩
  · rw [hcolleague, hwrong, hwrongLocal, hattempts]
    intro e he hlate
    obtain ⟨hle, hexpires⟩ := h.remoteCount e he hlate
    exact ⟨by omega, hexpires⟩

theorem fits_remote (h : Fits hashing now k) (hdead : ∀ p, k.payload = some p → p.expiresAt ≤ now)
    (hpayload : k'.payload = k.payload) (hissue : k'.issue = k.issue) (hcode : k'.code = k.code)
    (hcolleague : k'.colleague = k.colleague ∨ k'.colleague = none)
    (hcount : ∀ e, k'.colleague = some e → now ≤ e.value.otpExpiresAt →
      k'.wrong ≤ k'.wrongLocal + shown k'.colleagueAttempts ∧
        ∀ c t, k'.colleagueAttempts = some c → c.expiresAt = some t → e.value.otpExpiresAt < t) :
    Fits hashing now k' := by
  have hold {e : Timed Colleague} (he : k'.colleague = some e) : k.colleague = some e := by
    rcases hcolleague with hcolleague | hcolleague
    · rw [← hcolleague, he]
    · rw [he] at hcolleague
      cases hcolleague
  refine ⟨?_, ?_, ?_, ?_, ?_, ?_, hcount⟩
  · rw [hissue]
    exact h.past
  · rw [hissue, hcode]
    exact h.code
  · rw [hissue, hpayload, hcode]
    exact h.inTime
  · rw [hissue]
    exact fun e he => h.colleague e (hold he)
  · rw [hpayload]
    exact fun p e hp _ hlate => absurd hlate (Nat.not_lt_of_le (hdead p hp))
  · rw [hpayload]
    exact fun p hp hlate => absurd hlate (Nat.not_lt_of_le (hdead p hp))

/-! ### A verification -/

/-- A verification finds half a second of the registration at least, and where it goes by the second
scheme no wrong code was submitted under the first. -/
def Settled (now : ℕ) (k : Keys) : Prop :=
  ((live now k.payload).isSome = true → 1 ≤ ttl now k.payload) ∧
    (live now k.payload = none → (live now k.colleague).isSome = true → k.wrongLocal = 0)

theorem right_of_hash (hf : hashing.Faithful) {issued : String} {salt : ℕ}
    (h : isValid hashing code (hashing.bcryptHash issued salt) = true) : code = issued := by
  unfold isValid at h
  rcases Bool.or_eq_true_iff.mp h with hcompare | hsame
  · cases hmatch : hashing.bcryptCompare code (hashing.bcryptHash issued salt) with
    | none =>
      rw [hmatch] at hcompare
      cases hcompare
    | some b =>
      rw [hmatch, Option.getD_some] at hcompare
      subst hcompare
      exact hf.compare_hash _ _ _ hmatch
  · exact absurd (beq_iff_eq.mp hsame).symm (hf.sha256_hash _ _ _)

theorem right_of_sha256 (hf : hashing.Faithful) {issued : String}
    (h : isValid hashing code (hashing.sha256 issued) = true) : code = issued := by
  unfold isValid at h
  rcases Bool.or_eq_true_iff.mp h with hcompare | hsame
  · cases hmatch : hashing.bcryptCompare code (hashing.sha256 issued) with
    | none =>
      rw [hmatch] at hcompare
      cases hcompare
    | some b =>
      rw [hmatch, Option.getD_some] at hcompare
      subst hcompare
      exact absurd hmatch (hf.compare_sha256 _ _)
  · exact (hf.sha256_inj _ _ (beq_iff_eq.mp hsame)).symm

def fault (k : Keys) (code : String) : ℕ := if k.issue.map Issue.code = some code then 0 else 1

theorem submitted_eq (now : ℕ) (k : Keys) (code : String) : submitted now k code =
    { k with
      wrong := k.wrong + fault k code
      wrongLocal := if (live now k.payload).isSome then k.wrongLocal +
        fault k code else k.wrongLocal } := by
  unfold submitted fault
  split <;> simp

theorem fault_of_right {issue : Issue} (hissue : k.issue = some issue) (h : code = issue.code) :
    fault k code = 0 := by
  rw [fault, hissue, h]
  exact if_pos rfl

theorem attempts_local {p : Timed RegisterDto} (hp : k.payload = some p) (hlive : now < p.expiresAt)
    (hlong : 1 ≤ ttl now k.payload)
    (hexpires : ∀ c t, k.attempts = some c → c.expiresAt = some t → p.expiresAt < t + 500) :
    attemptsOf now k.attempts = shown k.attempts := by
  refine attemptsOf_eq fun c t hc ht => ?_
  have hlate := hexpires c t hc ht
  rw [hp, ttl_of_live hlive] at hlong
  omega

theorem fits_verifyLocal (hf : hashing.Faithful) (h : Fits hashing now k) {p : Timed RegisterDto}
    (hp : k.payload = some p) (hlive : now < p.expiresAt) (hlong : 1 ≤ ttl now k.payload)
    (hk : k' = { k with wrong := k.wrong + fault k code, wrongLocal := k.wrongLocal + fault k code })
    (registerDto : RegisterDto) :
    Fits hashing now (verifyLocal hashing now k' registerDto code).2 := by
  have hmiss (hcode : live now k.code = none) : Fits hashing now k' := by
    subst hk
    refine fits_local h hp rfl rfl rfl rfl rfl rfl (.inl rfl) fun e he hlate => ?_
    rw [show k.code = some e from he] at hcode
    exact absurd hlate (Nat.not_lt_of_le (expired_of_live hcode))
  have hcodes : k'.code = k.code := by rw [hk]
  have hattempts : k'.attempts = k.attempts := by rw [hk]
  unfold verifyLocal
  rw [hcodes, hattempts]
  cases hcode : live now k.code with
  | none => exact hmiss hcode
  | some storedOtpHash =>
    obtain ⟨e, he, hvalue, hlate⟩ := live_eq_some.mp hcode
    obtain ⟨hle, hexpires⟩ := h.localCount p e hp he hlive hlate
    have hshown := attempts_local hp hlive hlong hexpires
    dsimp only
    split
    · subst hk
      exact fits_local h hp rfl rfl rfl rfl rfl rfl (.inr rfl) fun _ he => (by cases he)
    · split
      · rename_i hvalid
        obtain ⟨issue, salt, hissue, hhash⟩ := h.code e he
        have hright : code = issue.code := by
          rw [← hvalue, hhash] at hvalid
          exact right_of_hash hf hvalid
        subst hk
        refine fits_local h hp rfl rfl rfl rfl rfl rfl (.inl rfl) fun e' _ _ => ?_
        rw [fault_of_right hissue hright]
        exact ⟨hle, hexpires⟩
      · have hpayload : k'.payload = k.payload := by rw [hk]
        have hcount : fault k code ≤ 1 := by
          unfold fault
          split <;> omega
        have hnew : k.wrong + fault k code ≤ (incr now k.attempts (ttl now k.payload)).value := by
          change _ ≤ attemptsOf now k.attempts + 1
          omega
        have hlonger (t : ℕ) (ht : (incr now k.attempts (ttl now k.payload)).expiresAt = some t) :
            p.expiresAt < t + 500 := by
          have hpos : 0 < ttl now k.payload := by omega
          unfold incr at ht
          rw [if_pos hpos, hp, ttl_of_live hlive] at ht
          cases ht
          unfold seconds
          omega
        unfold missLocal
        rw [hattempts, hpayload]
        subst hk
        dsimp only
        split
        · exact fits_local h hp rfl rfl rfl rfl rfl rfl (.inr rfl) fun _ he => (by cases he)
        · refine fits_local h hp rfl rfl rfl rfl rfl rfl (.inl rfl) fun e' _ _ =>
            ⟨hnew, fun c t hc ht => ?_⟩
          cases hc
          exact hlonger t ht

theorem fits_verifyColleague (hf : hashing.Faithful) (h : Fits hashing now k)
    (hdead : ∀ p, k.payload = some p → p.expiresAt ≤ now) {e : Timed Colleague}
    (he : k.colleague = some e) (hk : k' = { k with wrong := k.wrong + fault k code }) :
    Fits hashing now (verifyColleague hashing now k' e.value code).2 := by
  obtain ⟨-, issue, hissue, hhash, htime⟩ := h.colleague e he
  have hattempts : k'.colleagueAttempts = k.colleagueAttempts := by rw [hk]
  unfold verifyColleague
  rw [hattempts]
  split
  · subst hk
    exact fits_remote h hdead rfl rfl rfl (.inr rfl) fun _ he => (by cases he)
  · split
    · rename_i hover
      subst hk
      refine fits_remote h hdead rfl rfl rfl (.inl rfl) fun e' he' hlate => ?_
      cases he.symm.trans he'
      exact absurd hover (Nat.not_lt_of_le hlate)
    · rename_i hintime
      obtain ⟨hle, hexpires⟩ := h.remoteCount e he (Nat.le_of_not_lt hintime)
      split
      · rename_i hvalid
        rw [hhash] at hvalid
        subst hk
        refine fits_remote h hdead rfl rfl rfl (.inl rfl) fun e' he' _ => ?_
        cases he.symm.trans he'
        rw [fault_of_right hissue (right_of_sha256 hf hvalid)]
        exact ⟨hle, hexpires⟩
      · have hshown : attemptsOf now k.colleagueAttempts = shown k.colleagueAttempts :=
          attemptsOf_eq fun c t hc ht => (Nat.le_of_not_lt hintime).trans_lt (hexpires c t hc ht)
        have hcount : fault k code ≤ 1 := by
          unfold fault
          split <;> omega
        have hnew : k.wrong + fault k code ≤ k.wrongLocal +
            (incr now k.colleagueAttempts 1800).value := by
          change _ ≤ k.wrongLocal + (attemptsOf now k.colleagueAttempts + 1)
          omega
        have hpast := h.past issue hissue
        unfold missColleague
        rw [hattempts]
        subst hk
        dsimp only
        split
        · exact fits_remote h hdead rfl rfl rfl (.inr rfl) fun _ he => (by cases he)
        · refine fits_remote h hdead rfl rfl rfl (.inl rfl) fun e' he' _ =>
            ⟨hnew, fun c t hc ht => ?_⟩
          cases he.symm.trans he'
          cases hc
          have ht' : some (now + seconds 1800) = some t := ht
          cases ht'
          rw [htime]
          unfold seconds minutes
          omega

theorem dead_of_live_none (hnone : live now k.payload = none) :
    ∀ p, k.payload = some p → p.expiresAt ≤ now := by
  intro p hp
  rw [hp] at hnone
  exact expired_of_live hnone

theorem fits_verify (hf : hashing.Faithful) (h : Fits hashing now k)
    (hbypass : isReviewerBypass email code = false) (hsettled : Settled now k) :
    Fits hashing now (verifyRegistrationOtp hashing now (submitted now k code) email code).2 := by
  have hpayload : (submitted now k code).payload = k.payload := by rw [submitted_eq]
  have hcolleague : (submitted now k code).colleague = k.colleague := by rw [submitted_eq]
  unfold verifyRegistrationOtp
  rw [hbypass, hpayload, hcolleague]
  cases hlocal : live now k.payload with
  | some registerDto =>
    obtain ⟨p, hp, -, hlive⟩ := live_eq_some.mp hlocal
    refine fits_verifyLocal hf h hp hlive (hsettled.1 (by rw [hlocal]; rfl)) ?_ registerDto
    rw [submitted_eq, hlocal]
    rfl
  | none =>
    have hdead := dead_of_live_none hlocal
    have hsame : submitted now k code = { k with wrong := k.wrong + fault k code } := by
      rw [submitted_eq, hlocal]
      rfl
    cases hremote : live now k.colleague with
    | some parsed =>
      obtain ⟨e, he, rfl, -⟩ := live_eq_some.mp hremote
      exact fits_verifyColleague hf h hdead he hsame
    | none =>
      rw [hsame]
      refine fits_remote h hdead rfl rfl rfl (.inl rfl) fun e he hlate => ?_
      have hraw : k.colleague = some e := he
      rw [hraw] at hremote
      exact absurd (hlate.trans_lt (h.colleague e hraw).1)
        (Nat.not_lt_of_le (expired_of_live hremote))

/-- A resend that stores a code finds ten minutes left of the registration of the first scheme at
most. -/
def Timely (now : ℕ) (k : Keys) : Prop :=
  cooling now k = false → (live now k.payload).isSome = true → ttl now k.payload ≤ 600

theorem fits_resend (h : Fits hashing now k) (htimely : Timely now k) (drawn : Drawn) (salt : ℕ) :
    Fits hashing now (resendRegistrationOtp hashing now k drawn salt).2 := by
  unfold resendRegistrationOtp
  cases hcooling : cooling now k with
  | true => exact h
  | false =>
    rw [if_neg Bool.false_ne_true]
    cases hremaining : remaining now k with
    | none => exact h
    | some found =>
      obtain ⟨registerDto, remainingTtl⟩ := found
      dsimp only
      split
      · exact h
      · refine fits_renew registerDto drawn salt fun p hp hlive => ?_
        have hlocal : live now k.payload = some p.value := live_eq_some.mpr ⟨p, hp, rfl, hlive⟩
        have hshort := htimely hcooling (by rw [hlocal]; rfl)
        unfold remaining at hremaining
        rw [hlocal] at hremaining
        cases hremaining
        omega

/-! ### Sequences of calls -/

def reviewer : String := "playstore.review@livora.pe"

/-- Every resend and every verification comes at its time. -/
def Orderly (w : World) : Event → Prop
  | .resend email _ _ => Timely w.now (w.keys email)
  | .verify email _ => Settled w.now (w.keys email)
  | _ => True

def AllFit (hashing : Hashing) (w : World) : Prop :=
  ∀ email : String, email.toLower ≠ reviewer → Fits hashing w.now (w.keys email)

theorem bypass_of_ne (hemail : email.toLower ≠ reviewer) : isReviewerBypass email code = false := by
  rw [isReviewerBypass, Bool.and_eq_false_iff]
  exact .inl (beq_eq_false_iff_ne.mpr hemail)

theorem allFit_update {w : World} (h : AllFit hashing w) {other : String}
    (hk : other.toLower ≠ reviewer → Fits hashing w.now k) : AllFit hashing (w.update other k) := by
  intro email hemail
  change Fits hashing w.now (Function.update w.keys other k email)
  by_cases hsame : email = other
  · subst hsame
    rw [Function.update_self]
    exact hk hemail
  · rw [Function.update_of_ne hsame]
    exact h email hemail

theorem step_fits (hf : hashing.Faithful) {w w' : World} {e : Event} (h : AllFit hashing w)
    (horderly : Orderly w e) (hstep : step hashing w e = some w') : AllFit hashing w' := by
  cases e with
  | pass ms =>
    cases hstep
    exact fun email hemail => fits_pass (h email hemail) (Nat.le_add_right _ _)
  | register registerDto drawn salt =>
    cases hstep
    exact allFit_update h fun _ => fits_register registerDto drawn salt
  | resend email drawn salt =>
    cases hstep
    exact allFit_update h fun hemail => fits_resend (h email hemail) horderly drawn salt
  | verify email code =>
    cases hstep
    exact allFit_update h fun hemail =>
      fits_verify hf (h email hemail) (bypass_of_ne hemail) horderly
  | clear email =>
    cases hstep
    exact allFit_update h fun hemail => fits_clear (h email hemail)

/-- The code is the last one that was issued, at most ten minutes ago, and fewer than five wrong
ones were submitted since. -/
def Current (w : World) (email code : String) : Prop :=
  ∃ issue, (w.keys email).issue = some issue ∧ code = issue.code ∧
    w.now ≤ issue.issuedAt + minutes 10 ∧
    (w.keys email).wrong < 5

theorem current_of_local (hf : hashing.Faithful) {w : World} (h : Fits hashing w.now (w.keys email))
    (hsettled : Settled w.now (w.keys email)) {registerDto : RegisterDto}
    (hlocal : live w.now (w.keys email).payload = some registerDto)
    (haccept : (verifyLocal hashing w.now (w.keys email) registerDto code).1.isOk = true) :
    Current w email code := by
  obtain ⟨p, hp, -, hlive⟩ := live_eq_some.mp hlocal
  unfold verifyLocal at haccept
  cases hcode : live w.now (w.keys email).code with
  | none =>
    rw [hcode] at haccept
    cases haccept
  | some storedOtpHash =>
    obtain ⟨e, he, hvalue, hlate⟩ := live_eq_some.mp hcode
    obtain ⟨issue, salt, hissue, hhash⟩ := h.code e he
    obtain ⟨hle, hexpires⟩ := h.localCount p e hp he hlive hlate
    have hshown := attempts_local hp hlive (hsettled.1 (by rw [hlocal]; rfl)) hexpires
    rw [hcode] at haccept
    dsimp only at haccept
    split at haccept
    · cases haccept
    · rename_i hfew
      split at haccept
      · rename_i hvalid
        rw [← hvalue, hhash] at hvalid
        refine ⟨issue, hissue, right_of_hash hf hvalid, ?_, by omega⟩
        have hmin := h.inTime p e issue hp he hissue
        exact (le_min hlive.le hlate.le).trans hmin
      · unfold missLocal at haccept
        dsimp only at haccept
        split at haccept <;> cases haccept

theorem current_of_colleague (hf : hashing.Faithful) {w : World}
    (h : Fits hashing w.now (w.keys email))
    (hzero : (w.keys email).wrongLocal = 0) {parsed : Colleague}
    (hremote : live w.now (w.keys email).colleague = some parsed)
    (haccept : (verifyColleague hashing w.now (w.keys email) parsed code).1.isOk = true) :
    Current w email code := by
  obtain ⟨e, he, rfl, -⟩ := live_eq_some.mp hremote
  obtain ⟨-, issue, hissue, hhash, htime⟩ := h.colleague e he
  unfold verifyColleague at haccept
  split at haccept
  · cases haccept
  · rename_i hfew
    split at haccept
    · cases haccept
    · rename_i hintime
      obtain ⟨hle, hexpires⟩ := h.remoteCount e he (Nat.le_of_not_lt hintime)
      have hshown : attemptsOf w.now (w.keys email).colleagueAttempts =
          shown (w.keys email).colleagueAttempts :=
        attemptsOf_eq fun c t hc ht => (Nat.le_of_not_lt hintime).trans_lt (hexpires c t hc ht)
      split at haccept
      · rename_i hvalid
        rw [hhash] at hvalid
        exact ⟨issue, hissue, right_of_sha256 hf hvalid, htime ▸ Nat.le_of_not_lt hintime, by omega⟩
      · unfold missColleague at haccept
        dsimp only at haccept
        split at haccept <;> cases haccept

/-- A code is accepted within ten minutes, as the last one issued and before the fifth wrong one,
along every sequence of calls that come at their times. -/
theorem accepted_current (hf : hashing.Faithful) {es : List Event} {w : World}
    (horderly : Along (step hashing) Orderly initial (es ++ [.verify email code]))
    (hrun : run (step hashing) initial es = some w) (hemail : email.toLower ≠ reviewer)
    (haccept : accepts hashing w email code = true) : Current w email code := by
  obtain ⟨hbefore, hlast⟩ := along_append horderly
  have hfits : AllFit hashing w :=
    run_invariant (fun _ _ _ h he hstep => step_fits hf h he hstep) (fun _ _ =>
      fits_noKeys) hbefore hrun
  have hsettled : Settled w.now (w.keys email) := (hlast w hrun).1
  have h := hfits email hemail
  unfold accepts verifyRegistrationOtp at haccept
  rw [bypass_of_ne hemail] at haccept
  cases hlocal : live w.now (w.keys email).payload with
  | some registerDto =>
    rw [hlocal] at haccept
    exact current_of_local hf h hsettled hlocal haccept
  | none =>
    cases hremote : live w.now (w.keys email).colleague with
    | some parsed =>
      rw [hlocal, hremote] at haccept
      exact current_of_colleague hf h (hsettled.2 hlocal (by rw [hremote]; rfl)) hremote haccept
    | none =>
      rw [hlocal, hremote] at haccept
      cases haccept

/-! ### A resend with much of the registration left -/

def plain : Hashing where
  bcryptHash text _ := "$" ++ text
  bcryptCompare text hash := some (hash == "$" ++ text)
  sha256 text := "#" ++ text

theorem plain_faithful : plain.Faithful := by
  have hcancel {mark text other : String} (h : mark ++ text = mark ++ other) : text = other := by
    have hlist := congrArg String.toList h
    rw [String.toList_append, String.toList_append, List.append_cancel_left_eq] at hlist
    exact String.toList_inj.mp hlist
  have hmarks (text other : String) : "#" ++ text ≠ "$" ++ other := by
    intro h
    have hlist := congrArg String.toList h
    rw [String.toList_append, String.toList_append] at hlist
    exact absurd (List.cons.inj hlist).1 (by decide)
  refine ⟨fun text other salt h => ?_, fun text other h => ?_, fun text other salt =>
    hmarks text other, fun text other h => hcancel h⟩
  · exact (hcancel (beq_iff_eq.mp (Option.some.inj h))).symm
  · exact hmarks other text (beq_iff_eq.mp (Option.some.inj h))

def ana : RegisterDto := ⟨"ana@example.org", "secret", "HOGAR", true, true⟩

def firstCode : Drawn := ⟨123456, by decide, by decide⟩

def secondCode : Drawn := ⟨654321, by decide, by decide⟩

instance (now : ℕ) (k : Keys) : Decidable (Settled now k) :=
  inferInstanceAs (Decidable (((live now k.payload).isSome = true → 1 ≤ ttl now k.payload) ∧
    (live now k.payload = none → (live now k.colleague).isSome = true → k.wrongLocal = 0)))

instance (now : ℕ) (k : Keys) : Decidable (Timely now k) :=
  inferInstanceAs (Decidable (cooling now k = false → (live now k.payload).isSome = true →
    ttl now k.payload ≤ 600))

instance (w : World) (e : Event) : Decidable (Orderly w e) :=
  match e with
  | .resend email _ _ => inferInstanceAs (Decidable (Timely w.now (w.keys email)))
  | .verify email _ => inferInstanceAs (Decidable (Settled w.now (w.keys email)))
  | .pass _ | .register _ _ _ | .clear _ => .isTrue trivial

def oneWrong : List Event := [.register ana firstCode 0, .pass 60000, .verify ana.email "000000"]

theorem accepted_current_oneWrong : ∃ w, run (step plain) initial oneWrong = some w ∧
    accepts plain w ana.email "123456" = true ∧ Current w ana.email "123456" := by
  have hseen : (run (step plain) initial oneWrong).map (fun w =>
    accepts plain w ana.email "123456") =
      some true := by decide +kernel
  obtain ⟨w, hw, haccept⟩ := Option.map_eq_some_iff.mp hseen
  have horderly : Along (step plain) Orderly initial
    (oneWrong ++ [.verify ana.email "123456"]) := by
    decide +kernel
  exact ⟨w, hw, haccept, accepted_current plain_faithful horderly hw (by decide +kernel) haccept⟩

def resent : List Event :=
  [.register ana firstCode 0, .pass 120000, .resend ana.email secondCode 0, .pass 1200000]

/-- It is accepted. -/
theorem accepted_late : ∃ w, run (step plain) initial resent = some w ∧
    accepts plain w ana.email "654321" = true ∧ ¬Current w ana.email "654321" := by
  have hseen : (run (step plain) initial resent).map (fun w =>
      (accepts plain w ana.email "654321", (w.keys ana.email).issue, w.now)) =
        some (true, some ⟨"654321", 120000⟩, 1320000) := by decide +kernel
  obtain ⟨w, hw, hall⟩ := Option.map_eq_some_iff.mp hseen
  simp only [Prod.mk.injEq] at hall
  obtain ⟨haccept, hissue, hnow⟩ := hall
  refine ⟨w, hw, haccept, ?_⟩
  rintro ⟨issue, hissue', -, htime, -⟩
  cases hissue.symm.trans hissue'
  rw [hnow] at htime
  exact absurd htime (by decide)

end Livora.OtpRuns
