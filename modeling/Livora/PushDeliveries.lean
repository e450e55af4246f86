import Livora.AnsweredRuns
import Livora.PushAttempts

/-! Who is pushed to: devices that the user of the push had registered, each once by a request and
once by a job however often it is tried; and only tokens that the provider has given up are
deleted. -/

namespace Livora.PushDeliveries

open TransitionRuns EffectPrograms ProgramPools ProgramPools.System CallTraces
open PushServices PushRequests PushBooks PushAttempts

/-! ### Who is pushed to -/

/-- What stands before a call: a lot is of devices of the user that the push is for; a token is
deleted that the provider has given up, or at the request of its user; and it is registered at such
a request. -/
def Supported (w₀ : World) (pre : Past) : Request × Op → Prop
  | (request, .sendEachForMulticast message) => ∃ push,
      (request = .send push ∨ ∃ n, request = .work n ∧ Asked pre push) ∧
      message.content = contentOf push.title push.body push.data ∧ message.tokens ≠ [] ∧
      message.tokens.length ≤ chunkSize ∧ message.tokens.Nodup ∧
      ∀ token ∈ message.tokens, Known w₀ pre push.userId token
  | (request, .deleteDeviceTokens tokens) =>
    ∀ token ∈ tokens, Dead (pre.map Made.call) request token
  | (request, .clearFcmToken userId) => (∃ token, request = .unregister userId token) ∨
      ∃ token, Known w₀ pre userId token ∧ Dead (pre.map Made.call) request token
  | (request, .deleteUserToken userId token) => request = .unregister userId (some token)
  | (request, .deleteUserTokens userId) => ∃ token, request = .unregister userId token ∧
      token.filter (· ≠ "") = none
  | (request, .upsertDeviceToken userId token) =>
      request = .register userId token ∨ request = .updateFcmToken userId token
  | (request, .setFcmToken userId token) =>
      request = .register userId token ∨ request = .updateFcmToken userId token
  | _ => True

section Results

variable {svc : Services} {w₀ w : World} {own : List Answered} {pre p : Past} {request : Request}
    {i : Op}
  {userId token : String} {push : Push}

theorem vouched_of_mem (hv : ∀ p m q, pre = p ++ m :: q → Vouched w₀ p m.call) {c : Answered}
    (hc : c ∈ pre.map Made.call) : ∃ p ⊆ pre, Vouched w₀ p c := by
  obtain ⟨m, hm, rfl⟩ := List.mem_map.mp hc
  obtain ⟨p, q, rfl⟩ := List.append_of_mem hm
  exact ⟨p, List.subset_append_left _ _, hv p m q rfl⟩

theorem known_of_account (hv : ∀ p m q, pre = p ++ m :: q → Vouched w₀ p m.call)
    (hown : own ⊆ pre.map Made.call)
    (hread : said request (.findFcmToken userId) (.ok (some (some token))) ∈ own) :
    Known w₀ pre userId token := by
  obtain ⟨p, hp, -, haccount, -⟩ := vouched_of_mem hv (hown hread)
  exact (haccount request userId token rfl).mono hp

theorem known_of_found (hv : ∀ p m q, pre = p ++ m :: q → Vouched w₀ p m.call)
    (hown : own ⊆ pre.map Made.call)
    {tokens : List String} (hfound : Found own request userId tokens) (htoken : token ∈ tokens) :
    Known w₀ pre userId token := by
  obtain ⟨devices, user, hdevices, huser, rfl⟩ := hfound
  rcases mem_tokenArray htoken with haccount | hdevice
  · obtain rfl : user = some (some token) :=
      Option.join_eq_some_iff.mp (Option.filter_eq_some_iff.mp haccount).1
    exact known_of_account hv hown huser
  · obtain ⟨p, hp, hread, -⟩ := vouched_of_mem hv (hown hdevices)
    exact (hread request userId devices rfl token hdevice).mono hp

theorem supported_of_allowed (hv : ∀ p m q, pre = p ++ m :: q → Vouched w₀ p m.call)
    (hown : own ⊆ pre.map Made.call) (h : Allowed own (request, i)) :
    Supported w₀ pre (request, i) := by
  cases i with
  | sendEachForMulticast message =>
    obtain ⟨-, push, tokens, hmeant, hcontent, hfound, hne, hlength, hprefix⟩ := h
    have hmem : message.tokens <+: tokens.drop (sent own).length := by
      obtain ⟨rest, rfl⟩ := hprefix
      rw [List.append_assoc, List.drop_left]
      exact List.prefix_append _ _
    refine ⟨push, ?_, hcontent, hne, hlength, ?_, fun token htoken => ?_⟩
    · rcases hmeant with ⟨hrequest, -⟩ | ⟨n, job, hrequest, htook, hdata⟩
      · exact .inl hrequest
      · obtain ⟨p, hp, -, -, htaken⟩ := vouched_of_mem hv (hown htook)
        obtain ⟨m, hm, hcall⟩ := htaken request n job push rfl hdata
        exact .inr ⟨n, hrequest, m, hp hm, hcall⟩
    · exact (found_nodup hfound).sublist (hmem.sublist.trans (List.drop_sublist _ _))
    · exact known_of_found hv hown hfound (List.mem_of_mem_drop (hmem.subset htoken))
  | deleteDeviceTokens tokens => exact fun token htoken => (h token htoken).mono hown
  | clearFcmToken userId =>
    rcases h with hunregister | ⟨token, hread, hdead⟩
    · exact .inl hunregister
    · exact .inr ⟨token, known_of_account hv hown hread, hdead.mono hown⟩
  | deleteUserToken userId token => exact h
  | deleteUserTokens userId => exact h
  | upsertDeviceToken userId token => exact h
  | setFcmToken userId token => exact h
  | _ => trivial

theorem booked_quiescent (hw : w.jobs = []) : Booked w [] w where
  devices row hrow := .inl hrow
  accounts row hrow token htoken := .inr (.inl (htoken ▸ hrow))
  queue job hjob := by
    rw [hw] at hjob
    cases hjob
  vouched pre m post hsplit := by simp at hsplit

theorem tried_quiescent (w : World) : Tried [] w (stages (quiescent w)) where
  took _ _ _ _ hst := by cases hst
  alone _ _ _ _ _ _ hst := by cases hst
  single _ _ _ _ _ _ hst := by cases hst
  running _ _ _ _ hst := by cases hst
  waiting _ _ _ _ := rfl
  absent _ _ := rfl
  nodup _ := List.nodup_nil

/-- Whatever else is going on, a push goes to devices that its user has registered, to all that were
found; only tokens that the provider has given up are deleted; and where no worker is taken for dead
the attempts of a job together push to a device once at most. -/
theorem pushes_delivered (svc : Services) {w : World} (hw : w.jobs = []) {es : List RaceEvent}
    {c : Race} (hrun : run (system svc).step (quiescent w) es = some c) :
    (∀ pre m post, calls (system svc) (quiescent w) es = pre ++ m :: post →
      Supported w pre m.call.1) ∧
    (∀ j own x, c.tasks j = some ⟨own, .done x⟩ →
      own ⊆ (calls (system svc) (quiescent w) es).map Made.call ∧ Ended svc own x) ∧
    ((∀ n, .outside (.stall n) ∉ es) →
      ∀ n, (sentFor n (calls (system svc) (quiescent w) es)).Nodup) := by
  have hprogram : ∀ request, Keeps (remembering Allowed) (fun _ _ => True) []
    ((system svc).program request) :=
    fun request => Keeps.mono (fun _ _ _ => trivial) (keeps_program svc request)
  obtain ⟨hjustified, hrecalled, hbooked⟩ :=
    run_remembering (S := system svc) (K := fun h w' _ => Booked w h w')
    rfl rfl hprogram (fun h w' st j hb _ => hb) (fun h c j o own i hr hb hj _ hallowed _ =>
      booked_call hb hallowed)
    (fun h w' st j hb => hb) (fun h c d w' hb _ hout => booked_outside hb hout) (fun _ => rfl)
      (booked_quiescent hw)
    along_true hrun
  refine ⟨fun pre m post hsplit => ?_, fun j own x hj => ⟨hrecalled j own (stages_eq hj), ?_⟩,
    fun hstall n => ?_⟩
  · obtain ⟨own, hown, hallowed⟩ := hjustified pre m post hsplit
    refine supported_of_allowed (fun p m' q hpre => ?_) hown hallowed
    exact hbooked.vouched p m' (q ++ m :: post)
      (by rw [hsplit, hpre, List.append_assoc, List.cons_append])
  · exact run_ends (fun request => keeps_program svc request)
      (fun _ _ ht => by cases ht) hrun j _ hj
  · obtain ⟨-, -, htried⟩ := run_remembering (S := system svc) (K := Tried)
      (C := fun _ e => ∀ n, e ≠ .outside (.stall n)) rfl rfl hprogram
      (fun h w' st j ht _ => ht.start j)
      (fun h c j o own i hr ht hj _ hallowed _ => tried_call ht hj o hallowed)
      (fun h w' st j ht => ht.stop j)
      (fun h c d w' ht hd hw => tried_outside ht (fun n he => hd n (congrArg Event.outside he)) hw)
      (fun _ => rfl) (tried_quiescent w)
      (AnsweredRuns.along_of_forall fun e he _ n hn => hstall n (hn ▸ he)) hrun
    exact htried.nodup n

end Results

/-! ### One device -/

def services : Services := ⟨true, true, true⟩

def oneAccount : World := ⟨[], [⟨"ana", none⟩], []⟩

def answered (j calls : ℕ) : List RaceEvent :=
  List.replicate calls (.advance j ⟨.done, ⟨0, []⟩, "1"⟩)

def greeting : Push := ⟨"ana", "Hola", "Tu recolector llegó", none⟩

/-- A device is registered; a push is queued, tried in vain, and tried again. -/
def pushed : List RaceEvent :=
  .start 0 (.register "ana" "phone") :: answered 0 2 ++ .start 1 (.send greeting) :: answered 1 3 ++
    .start 2 (.work 0) :: answered 2 1 ++ .advance 2 ⟨.lost, ⟨0, []⟩, "1"⟩ :: answered 2 1 ++
    .start 3 (.work 0) :: answered 3 5

theorem pushes_delivered_queued :
    ∃ c, run (system services).step (quiescent oneAccount) pushed = some c ∧
    sentFor 0 (calls (system services) (quiescent oneAccount) pushed) = ["phone"] ∧
    (∀ pre m post, calls (system services) (quiescent oneAccount) pushed = pre ++ m :: post →
      Supported oneAccount pre m.call.1) ∧
    ∀ n, (sentFor n (calls (system services) (quiescent oneAccount) pushed)).Nodup := by
  obtain ⟨c, hc⟩ := Option.isSome_iff_exists.mp
    (show (run (system services).step (quiescent oneAccount) pushed).isSome =
      true by decide +kernel)
  have hdelivered := pushes_delivered services rfl hc
  exact ⟨c, hc, by decide +kernel, hdelivered.1, hdelivered.2.2 fun n h => by
    simp [pushed, answered] at h⟩

end Livora.PushDeliveries
