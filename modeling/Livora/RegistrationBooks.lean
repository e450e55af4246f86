import Livora.RegistrationRequests

/-! Registrations in any order of the calls. What Redis holds of a registration was asked for by
somebody who does not register as an administrator; a code that is found is the last that was
stored. -/

namespace Livora.RegistrationBooks

open EffectPrograms ProgramPools ProgramPools.System NamedPools CallTraces TimedStores
open RegistrationServices RegistrationRequests
open AuthBooks (seconds)
open OtpCodes (Hashing)

/-! ### The system -/

inductive Outside where
  | pass (ms : ℕ)
  /-- Redis loses a key. -/
  | lose (key : Key)
  | loseAttempts (scheme : Scheme) (email : String)
  /-- An account is cancelled, and its data made anonymous. -/
  | cancel (id anonymousEmail : String)

def anonymous (id anonymousEmail : String) (account : Account) : Account :=
  if account.id = id then
    { account with
      email := anonymousEmail
      encryptedPrivateKey := none
      marketingAccepted := false
      passwordHash := none
      walletVault := none }
  else account

def outside (w : World) : Outside → Option World
  | .pass ms => some { w with now := w.now + ms }
  | .lose key => some { w with redis := Function.update w.redis key none }
  | .loseAttempts scheme email => some (w.setAttempts scheme email none)
  | .cancel id anonymousEmail =>
    let accounts := w.accounts.map (anonymous id anonymousEmail)
    if (accounts.map Account.email).Nodup then some { w with accounts := accounts } else none

abbrev system (svc : Services) : System Request World Outcome Outside (List Answered) (Request × Op)
    (fun i => Except Failure (Reply i.2)) (Request × Except Failure (Option Verified)) where
  program request := inName request (handle svc request).run
  serve w i o := w.serve svc i.2 o
  outside := outside
  protocol := remembering (Allowed svc)
  first := []

abbrev Race := Pool World (Task (List Answered) (Request × Op) (fun i => Except Failure (Reply i.2))
  (Request × Except Failure (Option Verified)))

abbrev RaceEvent := Event Request Outcome Outside

abbrev Past := List (Made World (Request × Op) fun i => Except Failure (Reply i.2))

def quiescent (w : World) : Race := ⟨w, fun _ => none⟩

/-! ### What the calls say -/

def longest : ℕ := 1800

/-- What the calls write into Redis, and what they are known to clear. -/
def ledger : Ledger (Made World (Request × Op) fun i => Except Failure (Reply i.2)) Key Value where
  time m := m.before.now
  Writes m key value ttl := ∃ request n r, m.call = said request (.set key value n) r ∧
    n ≤ longest ∧
    ttl = seconds n
  Clears m key := (∃ request value n, m.call = said request (.set key value n) (.ok ())) ∨
    ∃ request, m.call = said request (.del key) (.ok ())

/-- Somebody has asked to be registered with it, and not as an administrator. -/
def Registered (h : Past) (email : String) (registerDto : RegisterDto) : Prop :=
  ∃ m ∈ h, ∃ asked req, m.call.1.1 = .register asked req ∧ asked.role ≠ .admin ∧
    asked.email = email ∧
    cleaned asked req = registerDto

def Files : Op → String → RegisterDto → Prop
  | .set (.payload address) value _, email, registerDto => address = email ∧ value = registerDto
  | .set (.register address) parsed _, email, registerDto =>
    address = email ∧ parsed.registerDto = registerDto
  | _, _, _ => False

def Found (pre : Past) (m : Made World (Request × Op) fun i => Except Failure (Reply i.2)) : Prop :=
  ∀ request key value, m.call = said request (.get key) (.ok (some value)) →
    ledger.Standing pre m.before.now key value

def Creates (m : Made World (Request × Op) fun i => Except Failure (Reply i.2))
    (account : Account) : Prop :=
  m.call.1.2 = .createUser account

structure Recorded (svc : Services) (h : Past) : Prop where
  found : ∀ pre m post, h = pre ++ m :: post → Found pre m
  filed : ∀ pre m post, h = pre ++ m :: post → ∀ email registerDto,
    Files m.call.1.2 email registerDto →
    Registered (pre ++ [m]) email registerDto
  left : ∀ m ∈ h, ∀ request key n, m.call = said request (.ttl key) (.ok n) → n ≤ longest
  hashed : ∀ m ∈ h, ∀ request code otpHash, m.call = said request (.hashCode code) (.ok otpHash) →
    ∃ salt, otpHash = svc.hashing.bcryptHash code salt

structure Booked (svc : Services) (w₀ : World) (h : Past) (w : World) : Prop where
  recorded : Recorded svc h
  sound : ledger.Sound h w.redis w.now
  made : ∀ account ∈ w.accounts, (∃ old ∈ w₀.accounts, old.id = account.id) ∨
    ∃ m ∈ h, ∃ new, Creates m new ∧ new.id = account.id ∧ new.role = account.role
  apart : (w.accounts.map Account.email).Nodup

section Steps

variable {svc : Services} {w₀ w w' : World} {h known : Past} {own : List Answered}
    {request : Request}
  {i : Op} {o : Outcome} {email : String} {registerDto : RegisterDto}

theorem Registered.mono (hh : h ⊆ known) (hr : Registered h email registerDto) :
    Registered known email registerDto :=
  hr.imp fun _ hm => ⟨hh hm.1, hm.2⟩

theorem Recorded.earlier {p q : Past} (hr : Recorded svc (p ++ q)) : Recorded svc p where
  found pre m post hsplit :=
    hr.found pre m (post ++ q) (by rw [hsplit, List.append_assoc, List.cons_append])
  filed pre m post hsplit :=
    hr.filed pre m (post ++ q) (by rw [hsplit, List.append_assoc, List.cons_append])
  left m hm := hr.left m (List.mem_append_left _ hm)
  hashed m hm := hr.hashed m (List.mem_append_left _ hm)

theorem Recorded.registered_of_standing (hb : Recorded svc h) {p : Past} (hp : p <+: h) {now : ℕ}
    {key : Key} {value : Value key} (hstanding : ledger.Standing p now key value)
    (hfiles : ∀ n, Files (.set key value n) email registerDto) :
    Registered p email registerDto := by
  obtain ⟨time, ttl, ⟨p', m, q, rfl, ⟨asked, n, r, hcall, -⟩, -⟩, -⟩ := hstanding
  obtain ⟨rest, rfl⟩ := hp
  have hregistered :=
    hb.filed p' m (q ++ rest) (by rw [List.append_assoc, List.cons_append]) email registerDto
    (by rw [hcall]; exact hfiles n)
  refine hregistered.mono fun x hx => ?_
  rcases List.mem_append.mp hx with hx | hlast
  · exact List.mem_append_left _ hx
  · rw [List.mem_singleton.mp hlast]
    exact List.mem_append_right _ List.mem_cons_self

theorem Recorded.registered_of_read (hb : Recorded svc h) (hown : own ⊆ h.map Made.call)
    (hread : Read own request email registerDto) : Registered h email registerDto := by
  have hstep : ∀ {key : Key} {value : Value key}, said request (.get key) (.ok (some value)) ∈ own →
      (∀ n, Files (.set key value n) email registerDto) → Registered h email registerDto := by
    intro key value hmem hfiles
    obtain ⟨m, hm, hcall⟩ := List.mem_map.mp (hown hmem)
    obtain ⟨p, q, rfl⟩ := List.append_of_mem hm
    exact (hb.registered_of_standing (List.prefix_append _ _)
      (hb.found p m q rfl request key value hcall)
      hfiles).mono (List.subset_append_left _ _)
  rcases hread with hpayload | ⟨parsed, hparsed, hsame⟩
  · exact hstep hpayload fun n => ⟨rfl, rfl⟩
  · exact hstep hparsed fun n => ⟨rfl, hsame⟩

abbrev next (svc : Services) (w : World) (request : Request) (i : Op) (o : Outcome) :
    Made World (Request × Op) fun i => Except Failure (Reply i.2) :=
  ⟨w, (request, i), w.reply svc i o⟩

theorem filed_next (hb : Recorded svc h) (hown : own ⊆ h.map Made.call)
    (hallowed : Allowed svc own (request, i)) (hfiles : Files i email registerDto) :
    Registered (h ++ [next svc w request i o]) email registerDto := by
  have hholds : Holds own request email registerDto := by
    cases i with
    | set key value n =>
      cases key with
      | payload address =>
        obtain ⟨rfl, rfl⟩ := hfiles
        exact hallowed.1
      | register address =>
        obtain ⟨rfl, rfl⟩ := hfiles
        exact hallowed.1
      | _ => cases hfiles
    | _ => cases hfiles
  cases request with
  | register asked req =>
    obtain ⟨hrole, hemail, hcleaned⟩ := hholds
    exact ⟨_, List.mem_append_right _ List.mem_cons_self, asked, req, rfl, hrole, hemail, hcleaned⟩
  | resend address =>
    obtain ⟨rfl, hread⟩ := hholds
    exact (hb.registered_of_read hown hread).mono (List.subset_append_left _ _)
  | verify address code => exact hholds.elim

theorem Booked.ttl_le (hb : Booked svc w₀ h w) (key : Key) : w.ttl key ≤ longest := by
  unfold World.ttl
  cases hleft : w.redis.left w.now key with
  | none => decide
  | some left =>
    obtain ⟨e, he, -, rfl⟩ := Store.left_eq_some.mp hleft
    obtain ⟨time, ttl, ⟨p, m, q, -, ⟨request, n, r, -, hn, rfl⟩, -⟩, hbefore, hexpires⟩ :=
      hb.sound key e he
    change ((((e.expiresAt - w.now + 500) / 1000 : ℕ) : ℤ)) ≤ longest
    have hle : (e.expiresAt - w.now + 500) / 1000 ≤ longest := by
      unfold seconds at hexpires
      omega
    exact_mod_cast hle

theorem ttl_of_allowed (hb : Recorded svc h) (hown : own ⊆ h.map Made.call) {key : Key}
    {value : Value key}
    {n : ℕ} (hallowed : Allowed svc own (request, .set key value n)) : n ≤ longest := by
  cases key with
  | payload address =>
    rw [hallowed.2]
    rfl
  | register address =>
    rw [hallowed.2.2.1]
    rfl
  | cooldown scheme address =>
    have hn : n = 60 := hallowed
    rw [hn]
    decide
  | code address =>
    rcases hallowed.2.2 with rfl | ⟨key, left, hmem, rfl⟩
    · decide
    · obtain ⟨m, hm, hcall⟩ := List.mem_map.mp (hown hmem)
      exact Int.toNat_le.mpr (hb.left m hm request key left hcall)

theorem after_redis (k : Key) (e : Entry (Value k)) (he : (w.after i o.delivery).redis k = some e) :
    (w.redis k = some e ∧ ¬ ledger.Clears (next svc w request i o) k) ∨
      ∃ n, i = .set k e.value n ∧ e.expiresAt = w.now + seconds n := by
  have hkeep : ∀ {j : Op}, i = j → (∀ value n, j ≠ .set k value n) → j ≠ .del k →
      ¬ ledger.Clears (next svc w request i o) k := by
    rintro j rfl hset hdel (⟨other, value, n, hcall⟩ | ⟨other, hcall⟩)
    · exact hset value n (congrArg (fun c : Answered => c.1.2) hcall)
    · exact hdel (congrArg (fun c : Answered => c.1.2) hcall)
  unfold World.after at he
  cases i with
  | set key value n =>
    by_cases hkey : k = key
    · subst hkey
      split at he
      · have he : Function.update w.redis k (some ⟨value, w.now + seconds n⟩) k = some e := he
        rw [Function.update_self] at he
        cases he
        exact .inr ⟨n, rfl, rfl⟩
      · rename_i hlost
        refine .inl ⟨he, ?_⟩
        rintro (⟨other, value', n', hcall⟩ | ⟨other, hcall⟩)
        · cases congrArg (fun c : Answered => c.1.2) hcall
          have hreply : w.reply svc (.set k value n) o = .ok () := eq_of_heq (Sigma.mk.inj hcall).2
          exact hlost (by rw [(PinVerification.Delivery.answer_ok hreply).1]; rfl)
        · cases congrArg (fun c : Answered => c.1.2) hcall
    · refine .inl ⟨?_, hkeep rfl (fun value' n' hi => hkey (Op.set.inj hi).1.symm) fun hi => by
        cases hi⟩
      split at he
      · have he : Function.update w.redis key (some ⟨value, w.now + seconds n⟩) k = some e := he
        rwa [Function.update_of_ne hkey] at he
      · exact he
  | del key =>
    by_cases hkey : k = key
    · subst hkey
      split at he
      · have he : Function.update w.redis k none k = some e := he
        rw [Function.update_self] at he
        cases he
      · rename_i hlost
        refine .inl ⟨he, ?_⟩
        rintro (⟨other, value', n', hcall⟩ | ⟨other, hcall⟩)
        · cases congrArg (fun c : Answered => c.1.2) hcall
        · cases congrArg (fun c : Answered => c.1.2) hcall
          have hreply : w.reply svc (.del k) o = .ok () := eq_of_heq (Sigma.mk.inj hcall).2
          exact hlost (by rw [(PinVerification.Delivery.answer_ok hreply).1]; rfl)
    · refine .inl ⟨?_, hkeep rfl (fun value' n' hi => by cases hi) fun hi =>
        hkey (Op.del.inj hi).symm⟩
      split at he
      · have he : Function.update w.redis key none k = some e := he
        rwa [Function.update_of_ne hkey] at he
      · exact he
  | createUser account =>
    refine .inl ⟨?_, hkeep rfl (fun _ _ hi => by cases hi) fun hi => by cases hi⟩
    split at he
    · rw [World.effect] at he
      split at he <;> exact he
    · exact he
  | _ =>
    refine .inl ⟨?_, hkeep rfl (fun _ _ hi => by cases hi) fun hi => by cases hi⟩
    split at he <;> exact he

theorem found_next (hb : Booked svc w₀ h w) : Found h (next svc w request i o) := by
  intro asked key value hcall
  obtain rfl : request = asked := congrArg (fun c : Answered => c.1.1) hcall
  obtain rfl : i = .get key := congrArg (fun c : Answered => c.1.2) hcall
  have hreply : w.reply svc (.get key) o = .ok (some value) := eq_of_heq (Sigma.mk.inj hcall).2
  exact hb.sound.standing (PinVerification.Delivery.answer_ok hreply).2

theorem left_next (hb : Booked svc w₀ h w) {asked : Request} {key : Key} {n : ℤ}
    (hcall : (next svc w request i o).call = said asked (.ttl key) (.ok n)) : n ≤ longest := by
  obtain rfl : request = asked := congrArg (fun c : Answered => c.1.1) hcall
  obtain rfl : i = .ttl key := congrArg (fun c : Answered => c.1.2) hcall
  have hreply : w.reply svc (.ttl key) o = .ok n := eq_of_heq (Sigma.mk.inj hcall).2
  have hn : w.ttl key = n := (PinVerification.Delivery.answer_ok hreply).2
  exact hn ▸ hb.ttl_le key

theorem hashed_next {asked : Request} {code otpHash : String}
    (hcall : (next svc w request i o).call = said asked (.hashCode code) (.ok otpHash)) :
    ∃ salt, otpHash = svc.hashing.bcryptHash code salt := by
  obtain rfl : request = asked := congrArg (fun c : Answered => c.1.1) hcall
  obtain rfl : i = .hashCode code := congrArg (fun c : Answered => c.1.2) hcall
  have hreply : w.reply svc (.hashCode code) o = .ok otpHash := eq_of_heq (Sigma.mk.inj hcall).2
  exact ⟨o.salt, (PinVerification.Delivery.answer_ok hreply).2.symm⟩

theorem insertable_email {account : Account} (h : w.insertable account = true) :
    account.email ∉ w.accounts.map Account.email := by
  intro hmem
  obtain ⟨other, hother, hemail⟩ := List.mem_map.mp hmem
  have hdiffers := List.all_eq_true.mp h other hother
  simp [hemail] at hdiffers

theorem accounts_after : (w.after i o.delivery).accounts = w.accounts ∨
    ∃ account, i = .createUser account ∧ w.insertable account = true ∧
      (w.after i o.delivery).accounts = w.accounts ++ [account] := by
  unfold World.after
  cases i with
  | createUser account =>
    split
    · by_cases hinsertable : w.insertable account = true
      · exact .inr ⟨account, rfl, hinsertable, by rw [World.effect, if_pos hinsertable]⟩
      · exact .inl (by rw [World.effect, if_neg hinsertable])
    · exact .inl rfl
  | _ =>
    left
    split <;> rfl

theorem now_after : (w.after i o.delivery).now = w.now := by
  unfold World.after
  split
  · cases i with
    | createUser account =>
      rw [World.effect]
      split <;> rfl
    | _ => rfl
  · rfl

theorem call_recorded (hb : Booked svc w₀ h w) (hown : own ⊆ h.map Made.call)
    (hallowed : Allowed svc own (request, i)) : Recorded svc (h ++ [next svc w request i o]) where
  found := forall_split_append hb.recorded.found (found_next hb)
  filed :=
    forall_split_append (p := fun pre m => ∀ email registerDto, Files m.call.1.2 email registerDto →
    Registered (pre ++ [m]) email registerDto) hb.recorded.filed fun _ _ hfiles =>
      filed_next hb.recorded hown hallowed hfiles
  left m hm asked key n hcall := by
    rcases List.mem_append.mp hm with hm | hlast
    · exact hb.recorded.left m hm asked key n hcall
    · cases List.mem_singleton.mp hlast
      exact left_next hb hcall
  hashed m hm asked code otpHash hcall := by
    rcases List.mem_append.mp hm with hm | hlast
    · exact hb.recorded.hashed m hm asked code otpHash hcall
    · cases List.mem_singleton.mp hlast
      exact hashed_next hcall

theorem call_booked (hb : Booked svc w₀ h w) (hown : own ⊆ h.map Made.call)
    (hallowed : Allowed svc own (request, i)) :
    Booked svc w₀ (h ++ [next svc w request i o]) (w.after i o.delivery) where
  recorded := call_recorded hb hown hallowed
  sound := by
    rw [now_after]
    refine hb.sound.step rfl fun k e he => (after_redis k e he).imp_right ?_
    rintro ⟨n, rfl, hexpires⟩
    exact ⟨seconds n, ⟨request, n, _, rfl, ttl_of_allowed hb.recorded hown hallowed, rfl⟩, hexpires⟩
  made account haccount := by
    have hold : account ∈ w.accounts → (∃ old ∈ w₀.accounts, old.id = account.id) ∨
        ∃ m ∈ h ++ [next svc w request i o], ∃ new, Creates m new ∧ new.id = account.id ∧
          new.role = account.role := fun hmem =>
      (hb.made account hmem).imp_right fun hm => hm.imp fun m hm =>
        ⟨List.mem_append_left _ hm.1, hm.2⟩
    rcases accounts_after (w := w) (i := i) (o := o) with hsame | ⟨new, rfl, -, hnew⟩
    · exact hold (hsame ▸ haccount)
    · rw [hnew] at haccount
      rcases List.mem_append.mp haccount with hmem | hlast
      · exact hold hmem
      · obtain rfl := List.mem_singleton.mp hlast
        exact .inr ⟨_, List.mem_append_right _ List.mem_cons_self, account, rfl, rfl, rfl⟩
  apart := by
    rcases accounts_after (w := w) (i := i) (o := o) with hsame | ⟨new, -, hinsertable, hnew⟩
    · rw [hsame]
      exact hb.apart
    · rw [hnew, List.map_append, List.map_singleton]
      exact List.nodup_append.mpr ⟨hb.apart, List.nodup_singleton _, fun a ha b hb' hab =>
        insertable_email hinsertable (List.mem_singleton.mp hb' ▸ hab ▸ ha)⟩

theorem outside_booked (hb : Booked svc w₀ h w) {d : Outside} (hw : outside w d = some w') :
    Booked svc w₀ h w' := by
  cases d with
  | pass ms =>
    cases hw
    exact { hb with sound := hb.sound.wane (Nat.le_add_right _ _) fun _ _ he => he }
  | lose key =>
    cases hw
    refine { hb with sound := hb.sound.wane (Nat.le_refl _) fun k e he => ?_ }
    have he : Function.update w.redis key none k = some e := he
    by_cases hkey : k = key
    · subst hkey
      rw [Function.update_self] at he
      cases he
    · rwa [Function.update_of_ne hkey] at he
  | loseAttempts scheme email =>
    cases hw
    exact { hb with }
  | cancel id anonymousEmail =>
    simp only [outside] at hw
    split at hw
    · rename_i hnodup
      cases hw
      refine { hb with made := fun account haccount => ?_, apart := hnodup }
      obtain ⟨old, hold, rfl⟩ := List.mem_map.mp haccount
      have hsame : (anonymous id anonymousEmail old).id = old.id ∧
          (anonymous id anonymousEmail old).role = old.role := by
        unfold anonymous
        split <;> exact ⟨rfl, rfl⟩
      rw [hsame.1, hsame.2]
      exact hb.made old hold
    · cases hw

theorem recorded_nil : Recorded svc [] where
  found _ _ _ hsplit := by simp at hsplit
  filed _ _ _ hsplit := by simp at hsplit
  left _ hm := by cases hm
  hashed _ hm := by cases hm

theorem booked_quiescent (hredis : w.redis = Store.empty)
    (hapart : (w.accounts.map Account.email).Nodup) :
    Booked svc w [] w where
  recorded := recorded_nil
  sound := by
    rw [hredis]
    exact Ledger.Sound.empty
  made account haccount := .inl ⟨account, haccount, rfl⟩
  apart := hapart

end Steps

end Livora.RegistrationBooks
