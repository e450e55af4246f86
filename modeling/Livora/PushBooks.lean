import Livora.PushRequests

/-! Pushes in any order of the calls of the services and the workers. Whatever tokens are on the
books of a user, the user has asked to register them; what is queued was asked for. -/

namespace Livora.PushBooks

open EffectPrograms ProgramPools NamedPools CallTraces
open KeyedRows JobQueues AuthBooks PushServices PushRequests

/-! ### The system -/

inductive Outside where
  /-- A worker is taken for dead. -/
  | stall (n : ℕ)
  /-- An account is made, or changed; it keeps its token or loses it. -/
  | amend (row : UserRow)

def outside (w : World) : Outside → Option World
  | .stall n => some { w with jobs := w.jobs.modify n Job.stall }
  | .amend row =>
    if row.fcmToken = none ∨ w.findUser row.id = some row then
      some { w with users := upsert UserRow.id w.users row }
    else none

abbrev system (svc : Services) : System Request World Outcome Outside (List Answered) (Request × Op)
    (fun i => Except Failure (Reply i.2)) (Request × Except Failure Unit) where
  program request := inName request (handle svc request).run
  serve w i o := w.serve i.2 o
  outside := outside
  protocol := remembering Allowed
  first := []

abbrev Race := Pool World
  (Task (List Answered) (Request × Op) (fun i => Except Failure (Reply i.2))
    (Request × Except Failure Unit))

abbrev RaceEvent := Event Request Outcome Outside

abbrev Past := List (Made World (Request × Op) fun i => Except Failure (Reply i.2))

def quiescent (w : World) : Race := ⟨w, fun _ => none⟩

/-! ### Whose a token is -/

/-- The user has had the token from the start, or has asked to register it. -/
def Known (w₀ : World) (h : Past) (userId token : String) : Prop :=
  (⟨token, userId⟩ : DeviceToken) ∈ w₀.deviceTokens ∨ (⟨userId, some token⟩ : UserRow) ∈ w₀.users ∨
    ∃ m ∈ h, m.call.1.1 = .register userId token ∨ m.call.1.1 = .updateFcmToken userId token

/-- The push was asked for by a request that queued it. -/
def Asked (h : Past) (push : Push) : Prop := ∃ m ∈ h, m.call.1 = (.send push, .addJob (.user push))

def Vouched (w₀ : World) (pre : Past) (c : Answered) : Prop :=
  (∀ request userId devices, c = said request (.findDeviceTokens userId) (.ok devices) →
    ∀ token ∈ devices, Known w₀ pre userId token) ∧
  (∀ request userId token, c = said request (.findFcmToken userId) (.ok (some (some token))) →
    Known w₀ pre userId token) ∧
  ∀ request n job push, c = said request (.takeJob n) (.ok (some job)) → job.data = .user push →
    Asked pre push

structure Booked (w₀ : World) (h : Past) (w : World) : Prop where
  devices : ∀ row ∈ w.deviceTokens, Known w₀ h row.userId row.token
  accounts : ∀ row ∈ w.users, ∀ token, row.fcmToken = some token → Known w₀ h row.id token
  queue : ∀ job ∈ w.jobs, ∀ push, job.data = .user push → Asked h push
  vouched : ∀ pre m post, h = pre ++ m :: post → Vouched w₀ pre m.call

section Books

variable {w₀ w w' : World} {h : Past}
    {m : Made World (Request × Op) fun i => Except Failure (Reply i.2)}
  {own : List Answered} {request : Request} {i : Op} {o : Outcome} {userId token : String}
  {push : Push}

theorem Known.mono {h' : Past} (hh : h ⊆ h') (hk : Known w₀ h userId token) :
    Known w₀ h' userId token :=
  hk.imp_right fun hk => hk.imp_right fun hm => hm.imp fun _ hm => ⟨hh hm.1, hm.2⟩

theorem Known.append (hk : Known w₀ h userId token) : Known w₀ (h ++ [m]) userId token :=
  hk.mono (List.subset_append_left _ _)

theorem Asked.append (ha : Asked h push) : Asked (h ++ [m]) push :=
  ha.imp fun _ hm => ⟨List.mem_append_left _ hm.1, hm.2⟩

theorem Booked.vouches (hb : Booked w₀ h w) : Vouched w₀ h (said request i (w.reply i o)) := by
  refine ⟨fun asked userId devices he token htoken => ?_, fun asked userId token he => ?_,
    fun asked n job push he hdata => ?_⟩
  · cases congrArg (fun c : Answered => c.1.2) he
    have hreply : w.reply (.findDeviceTokens userId) o = .ok devices :=
      eq_of_heq (Sigma.mk.inj he).2
    obtain ⟨-, rfl⟩ := PinVerification.Delivery.answer_ok hreply
    obtain ⟨row, hrow, rfl⟩ := List.mem_map.mp htoken
    obtain ⟨hmem, hid⟩ := List.mem_filter.mp hrow
    exact of_decide_eq_true hid ▸ hb.devices row hmem
  · cases congrArg (fun c : Answered => c.1.2) he
    have hreply : w.reply (.findFcmToken userId) o = .ok (some (some token)) :=
      eq_of_heq (Sigma.mk.inj he).2
    obtain ⟨-, hfound⟩ := PinVerification.Delivery.answer_ok hreply
    obtain ⟨row, hrow, htoken⟩ := Option.map_eq_some_iff.mp hfound
    have hid : row.id = userId := key_of_lookup hrow
    exact hid ▸ hb.accounts row (mem_of_lookup hrow) token htoken
  · cases congrArg (fun c : Answered => c.1.2) he
    have hreply : w.reply (.takeJob n) o = .ok (some job) := eq_of_heq (Sigma.mk.inj he).2
    obtain ⟨old, hold, rfl⟩ := Option.map_eq_some_iff.mp (Except.ok.inj hreply)
    exact hb.queue old (mem_of_waiting hold) push ((Job.take_data old).symm.trans hdata)

theorem Booked.append (hb : Booked w₀ h w) (hm : m.call = said request i (w.reply i o))
    (hdevices : ∀ row ∈ w'.deviceTokens, row ∈ w.deviceTokens ∨
      request = .register row.userId row.token ∨ request = .updateFcmToken row.userId row.token)
    (haccounts : ∀ row ∈ w'.users, ∀ token, row.fcmToken = some token → row ∈ w.users ∨
      request = .register row.id token ∨ request = .updateFcmToken row.id token)
    (hqueue : ∀ job ∈ w'.jobs, (∃ old ∈ w.jobs, old.data = job.data) ∨
      ∀ push, job.data = .user push → m.call.1 = (.send push, .addJob (.user push))) :
    Booked w₀ (h ++ [m]) w' where
  devices row hrow := by
    rcases hdevices row hrow with hold | hnew
    · exact (hb.devices row hold).append
    · exact .inr (.inr ⟨m, List.mem_append_right _ List.mem_cons_self, by rw [hm]; exact hnew⟩)
  accounts row hrow token htoken := by
    rcases haccounts row hrow token htoken with hold | hnew
    · exact (hb.accounts row hold token htoken).append
    · exact .inr (.inr ⟨m, List.mem_append_right _ List.mem_cons_self, by rw [hm]; exact hnew⟩)
  queue job hjob push hdata := by
    rcases hqueue job hjob with ⟨old, hold, hsame⟩ | hnew
    · exact (hb.queue old hold push (hsame.trans hdata)).append
    · exact ⟨m, List.mem_append_right _ List.mem_cons_self, hnew push hdata⟩
  vouched := forall_split_append (p := fun pre m => Vouched w₀ pre m.call) hb.vouched
    (hm ▸ hb.vouches)

theorem mem_withFcmToken {row : UserRow} {fcmToken : Option String}
    (hrow : row ∈ w.users.map (World.withFcmToken userId fcmToken)) :
    row ∈ w.users ∨ row.id = userId ∧ row.fcmToken = fcmToken := by
  obtain ⟨old, hold, rfl⟩ := List.mem_map.mp hrow
  unfold World.withFcmToken
  split
  · exact .inr ⟨‹_›, rfl⟩
  · exact .inl hold

theorem mem_upsert {β κ : Type} [DecidableEq κ] {key : β → κ} {l : List β} {x y : β}
    (hy : y ∈ upsert key l x) :
    y = x ∨ y ∈ l := by
  unfold upsert at hy
  split at hy
  · obtain ⟨z, hz, rfl⟩ := List.mem_map.mp hy
    split
    · exact .inl rfl
    · exact .inr hz
  · exact (List.mem_append.mp hy).symm.imp_left List.mem_singleton.mp

theorem booked_call (hb : Booked w₀ h w) (hallowed : Allowed own (request, i)) :
    Booked w₀ (h ++ [⟨w, (request, i), w.reply i o⟩]) (w.after i o.delivery) := by
  have hsame : Booked w₀ (h ++ [⟨w, (request, i), w.reply i o⟩]) w :=
    hb.append rfl (fun row hrow => .inl hrow) (fun row hrow _ _ => .inl hrow) fun job hjob =>
      .inl ⟨job, hjob, rfl⟩
  have hif : ∀ b : Bool,
    (b = true → Booked w₀ (h ++ [⟨w, (request, i), w.reply i o⟩]) (w.effect i)) →
      Booked w₀ (h ++ [⟨w, (request, i), w.reply i o⟩]) (if b then w.effect i else w) := by
    intro b heffect
    cases b with
    | true => exact heffect rfl
    | false => exact hsame
  cases i with
  | takeJob n =>
    refine hb.append rfl (fun row hrow => .inl hrow) (fun row hrow _ _ => .inl hrow) fun job hjob =>
      .inl ?_
    exact data_of_mem_modify Job.take_data hjob
  | finishJob n token ok =>
    refine hb.append rfl (fun row hrow => .inl hrow) (fun row hrow _ _ => .inl hrow) fun job hjob =>
      .inl ?_
    exact data_of_mem_modify (fun job => job.finish_data token ok) hjob
  | addJob job =>
    refine hif _ fun _ => hb.append rfl (fun row hrow => .inl hrow) (fun row hrow _ _ => .inl hrow)
      fun new hnew => ?_
    rcases List.mem_append.mp hnew with hold | hlast
    · exact .inl ⟨new, hold, rfl⟩
    · cases List.mem_singleton.mp hlast
      refine .inr fun push hdata => ?_
      have hjob : job = .user push := hdata
      subst hjob
      have hrequest : request = .send push := hallowed
      rw [hrequest]
  | upsertDeviceToken userId token =>
    refine hif _ fun _ => hb.append rfl (fun row hrow => ?_) (fun row hrow _ _ => .inl hrow)
      fun job hjob => .inl ⟨job, hjob, rfl⟩
    rcases mem_upsert hrow with rfl | hold
    · exact .inr hallowed
    · exact .inl hold
  | setFcmToken userId token =>
    refine hif _ fun _ => hb.append rfl (fun row hrow => .inl hrow) (fun row hrow t ht => ?_)
      fun job hjob => .inl ⟨job, hjob, rfl⟩
    rcases mem_withFcmToken hrow with hold | ⟨rfl, hnew⟩
    · exact .inl hold
    · cases hnew.symm.trans ht
      exact .inr hallowed
  | clearFcmToken userId =>
    refine hif _ fun _ => hb.append rfl (fun row hrow => .inl hrow) (fun row hrow t ht => ?_)
      fun job hjob => .inl ⟨job, hjob, rfl⟩
    rcases mem_withFcmToken hrow with hold | ⟨-, hnew⟩
    · exact .inl hold
    · cases hnew.symm.trans ht
  | deleteDeviceTokens tokens =>
    exact hif _ fun _ => hb.append rfl (fun row hrow => .inl (List.mem_filter.mp hrow).1)
      (fun row hrow _ _ => .inl hrow) fun job hjob => .inl ⟨job, hjob, rfl⟩
  | deleteUserToken userId token =>
    exact hif _ fun _ => hb.append rfl (fun row hrow => .inl (List.mem_filter.mp hrow).1)
      (fun row hrow _ _ => .inl hrow) fun job hjob => .inl ⟨job, hjob, rfl⟩
  | deleteUserTokens userId =>
    exact hif _ fun _ => hb.append rfl (fun row hrow => .inl (List.mem_filter.mp hrow).1)
      (fun row hrow _ _ => .inl hrow) fun job hjob => .inl ⟨job, hjob, rfl⟩
  | _ => exact hif _ fun _ => hsame

theorem booked_outside (hb : Booked w₀ h w) {d : Outside} (hw : outside w d = some w') :
    Booked w₀ h w' := by
  cases d with
  | stall n =>
    cases hw
    refine { hb with queue := fun job hjob push hdata => ?_ }
    obtain ⟨old, hold, hsame⟩ := data_of_mem_modify Job.stall_data hjob
    exact hb.queue old hold push (hsame.trans hdata)
  | amend row =>
    simp only [outside] at hw
    split at hw
    · rename_i hrow
      cases hw
      refine { hb with accounts := fun user huser token htoken => ?_ }
      rcases mem_upsert huser with rfl | hold
      · rcases hrow with hnone | hfound
        · cases hnone.symm.trans htoken
        · exact hb.accounts user (mem_of_lookup hfound) token htoken
      · exact hb.accounts user hold token htoken
    · cases hw

end Books

end Livora.PushBooks
