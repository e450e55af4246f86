import Livora.PasswordLinks

/-! Passwords under any number of requests to the services that set them, in any order of their
calls. Whatever a password is set to rests on what the request has shown before: a link that was
mailed within the hour to the address of the user and not used up, the password in use, or an
administrator. -/

namespace Livora.PasswordGrounds

open TransitionRuns EffectPrograms ProgramPools ProgramPools.System CallTraces
open PasswordServices PasswordRequests PasswordLinks
open LoginAttempts (User)

/-! ### What a password rests on -/

/-- The grounds on which a request sets the password of a user, among the calls of all. -/
def Grounded (pre : Past) (request : Request) (userId passwordHash : String) : Prop :=
  Grounds (pre.map Made.call) request userId passwordHash ∧
    ∀ token password, request = .reset token password → ∃ email user,
      Linked pre request token email ∧
      said request (.findByEmail email) (.ok (some user)) ∈ pre.map Made.call ∧ user.id = userId

/-- What stands before a call: a link is stored for whom it is asked for, mailed to the address it
was stored for, and a password is set on grounds. -/
def Supported (svc : Services) (pre : Past) : Request × Op → Prop
  | (request, .storeToken _ email) => Asks (pre.map Made.call) request email
  | (request, .sendPasswordRecoveryEmail email link) => ∃ token, link = resetLink svc token ∧
      said request (.storeToken token email) (.ok ()) ∈ pre.map Made.call
  | (request, .upsertPassword userId passwordHash) => Grounded pre request userId passwordHash
  | (request, .updatePassword userId passwordHash) => Grounded pre request userId passwordHash
  | _ => True

section Results

variable {svc : Services} {w : World} {own known : List Answered} {request : Request} {i : Op}
  {email userId passwordHash : String} {pre : Past}

theorem asks_mono (hown : own ⊆ known) (h : Asks own request email) : Asks known request email := by
  cases request with
  | regularize id newPassword sendResetEmail =>
    cases sendResetEmail with
    | true => exact h.imp fun user hu => ⟨hown hu.1, hu.2⟩
    | false => exact h
  | _ => exact h

theorem matched_mono (hown : own ⊆ known) {user : User} {password : String}
    (h : Matched own request user password) : Matched known request user password :=
  h.imp fun _ hc => ⟨hc.1, hown hc.2⟩

theorem grounds_mono (hown : own ⊆ known) (h : Grounds own request userId passwordHash) :
    Grounds known request userId passwordHash := by
  cases request with
  | forgot email => exact h
  | reset token password =>
    obtain ⟨hhashed, email, user, hread, hfound, hid⟩ := h
    exact ⟨hown hhashed, email, user, hown hread, hown hfound, hid⟩
  | change id currentPassword newPassword =>
    obtain ⟨hhashed, hid, hdiffers, user, hfound, hcurrent, hmatched⟩ := h
    exact ⟨hown hhashed, hid, hdiffers, user, hown hfound, hcurrent, matched_mono hown hmatched⟩
  | changeOwn id newPassword currentPassword =>
    obtain ⟨hhashed, hid, user, hfound, hcurrent, hgiven⟩ := h
    exact ⟨hown hhashed, hid, user, hown hfound, hcurrent, fun given hmem =>
      ⟨(hgiven given hmem).1, matched_mono hown (hgiven given hmem).2⟩⟩
  | regularize id newPassword sendResetEmail =>
    obtain ⟨hid, given, hmem, hhashed⟩ := h
    exact ⟨hid, given, hmem, hown hhashed⟩

theorem linked_of_said {token : Token} (hlinks : ∀ p m q, pre = p ++ m :: q → ∀ request token email,
      m.call = said request (.getToken token) (.ok (some email)) → Live p m.before.now token email)
    (hread : said request (.getToken token) (.ok (some email)) ∈ pre.map Made.call) :
    Linked pre request token email := by
  obtain ⟨m, hm, hcall⟩ := List.mem_map.mp hread
  obtain ⟨p, q, hsplit⟩ := List.append_of_mem hm
  exact ⟨p, m, q, hsplit, hcall, hlinks p m q hsplit request token email hcall⟩

theorem grounded_of_grounds (hlinks : ∀ p m q, pre = p ++ m :: q → ∀ request token email,
      m.call = said request (.getToken token) (.ok (some email)) → Live p m.before.now token email)
    (h : Grounds (pre.map Made.call) request userId passwordHash) :
    Grounded pre request userId passwordHash := by
  refine ⟨h, fun token password hreset => ?_⟩
  subst hreset
  obtain ⟨-, email, user, hread, hfound, hid⟩ := h
  exact ⟨email, user, linked_of_said hlinks hread, hfound, hid⟩

theorem supported_of_allowed (hlinks : ∀ p m q, pre = p ++ m :: q → ∀ request token email,
      m.call = said request (.getToken token) (.ok (some email)) → Live p m.before.now token email)
    (hown : own ⊆ pre.map Made.call) (h : Allowed svc own (request, i)) :
    Supported svc pre (request, i) := by
  cases i with
  | storeToken token email => exact asks_mono hown h.2.2
  | sendPasswordRecoveryEmail email link => exact h.imp fun token ht => ⟨ht.1, hown ht.2⟩
  | upsertPassword userId passwordHash => exact grounded_of_grounds hlinks (grounds_mono hown h)
  | updatePassword userId passwordHash => exact grounded_of_grounds hlinks (grounds_mono hown h)
  | _ => trivial

theorem kept_quiescent (hw : ∀ token, w.tokens token = none) :
    Kept w [] w (stages (quiescent w)) where
  booked :=
    { below := fun _ hm => (by cases hm)
      deleted := fun _ hm => (by cases hm)
      live := fun token entry hentry => (by rw [hw token] at hentry; cases hentry)
      links := fun pre m post hsplit => (by simp at hsplit)
      known := fun _ hid => hid
      passwords := fun id user₀ user hid hfound passwordHash hpassword => .inl (by
        rw [hid] at hfound
        cases hfound
        exact hpassword) }
  fresh := ⟨fun _ _ _ hst => (by cases hst), fun _ _ _ _ _ hst => (by cases hst),
    fun _ _ _ hst => by cases hst⟩

/-- No password is set but on grounds, whatever else is going on; a password that differs from the
first one was set; and a reset that has returned has used up its link. -/
theorem passwords_grounded (svc : Services) {w : World} (hw : ∀ token, w.tokens token = none)
    {es : List RaceEvent} {c : Race} (hrun : run (system svc).step (quiescent w) es = some c) :
    (∀ pre m post, calls (system svc) (quiescent w) es = pre ++ m :: post →
      Supported svc pre m.call.1) ∧
    (∀ id first user, w.findById id = some first → c.world.findById id = some user →
      ∀ passwordHash, passwordOf user = some passwordHash → passwordOf first = some passwordHash ∨
        ∃ m ∈ calls (system svc) (quiescent w) es, Sets m.call.1 id passwordHash) ∧
    ∀ j own token password message,
      c.tasks j = some ⟨own, .done (.reset token password, .ok message)⟩ →
      ∃ m ∈ calls (system svc) (quiescent w) es,
        m.call = said (.reset token password) (.deleteToken token) (.ok ()) := by
  obtain ⟨hjustified, hrecalled, hkept⟩ := run_remembering (S := system svc) (K := Kept w) rfl rfl
    (fun request => Keeps.mono (fun _ _ _ => trivial) (keeps_program request))
    (fun h w' st j hk _ => ⟨hk.booked, hk.fresh.start j⟩)
    (fun h c j o own i hr hk hj _ hallowed _ => call_kept hk hr hj hallowed)
    (fun h w' st j hk => ⟨hk.booked, hk.fresh.stop j⟩)
    (fun h c d w' hk _ hw => outside_kept hk hw) (fun _ => rfl) (kept_quiescent hw) along_true hrun
  refine ⟨fun pre m post hsplit => ?_, hkept.booked.passwords,
    fun j own token password message hj => ?_⟩
  · obtain ⟨own, hown, hallowed⟩ := hjustified pre m post hsplit
    refine supported_of_allowed (fun p m' q hpre => ?_) hown hallowed
    exact hkept.booked.links p m' (q ++ m :: post)
      (by rw [hsplit, hpre, List.append_assoc, List.cons_append])
  · have hends :=
      run_ends (fun request => keeps_program request) (fun _ _ ht => by cases ht) hrun j _ hj
    exact List.mem_map.mp (hrecalled j own (stages_eq hj) hends)

end Results

/-! ### A password that was forgotten -/

def services : Services := ⟨⟨none, none, none⟩, fun _ => "c0ffee", true⟩

def ana : User := ⟨"ana", "ana@example.org", .hogar, none, none, true, none, some ⟨"old", 0, none⟩⟩

def oneAccount : World := ⟨[ana], 0, fun _ => none, 0⟩

def answered (j calls : ℕ) : List RaceEvent :=
  List.replicate calls (.advance j ⟨.done, true, "new"⟩)

def recovery : List RaceEvent :=
  .start 0 (.forgot "ana@example.org") :: answered 0 4 ++ .outside (.pass 1800000) ::
    .start 1 (.reset 0 "Secret1!") :: answered 1 6

theorem passwords_grounded_recovered :
    ∃ c, run (system services).step (quiescent oneAccount) recovery = some c ∧
    (c.world.findById "ana").bind passwordOf = some "new" ∧
    ∀ pre m post, calls (system services) (quiescent oneAccount) recovery = pre ++ m :: post →
      Supported services pre m.call.1 := by
  obtain ⟨c, hc, hpassword⟩ := Option.map_eq_some_iff.mp
    (show (run (system services).step (quiescent oneAccount) recovery).map
      (fun c => (c.world.findById "ana").bind passwordOf) = some (some "new") by decide +kernel)
  exact ⟨c, hc, hpassword, (passwords_grounded services (fun _ => rfl) hc).1⟩

end Livora.PasswordGrounds
