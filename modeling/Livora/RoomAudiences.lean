import Livora.WebsocketRooms

/-! Who hears of what, whatever connections come and go and however roles change meanwhile: an event
of a user is heard on connections of the user only, and one of a store, a centre or the collectors
by whom the tables showed in that role when the connection was made. -/

namespace Livora.RoomAudiences

open TransitionRuns EffectPrograms ProgramPools ProgramPools.System NamedPools CallTraces
open AuthBooks KeyedRows WebsocketRooms
open BackOffice (Role)

/-! ### The system -/

inductive Outside where
  /-- A connection is made, or lost. -/
  | open (socket : String)
  | leave (socket : String)
  | amend (row : User)

def outside (w : World) : Outside → Option World
  | .open socket => some { w with connected := socket :: w.connected }
  | .leave socket => some (w.effect (.disconnect socket))
  | .amend row => some { w with users := upsert User.id w.users row }

abbrev system : System Request World Outcome Outside (List Answered) (Request × Op)
    (fun i => Except Failure (Reply i.2)) (Request × Except Failure Unit) where
  program request := inName request (handle request).run
  serve w i o := w.serve i.2 o
  outside := outside
  protocol := remembering Allowed
  first := []

abbrev Race := Pool World
  (Task (List Answered) (Request × Op) (fun i => Except Failure (Reply i.2))
    (Request × Except Failure Unit))

abbrev RaceEvent := Event Request Outcome Outside

abbrev Past := List (Made World (Request × Op) fun i => Except Failure (Reply i.2))

def quiescent (w : World) : Race := ⟨w, fun _ => none⟩

/-! ### Rooms by their names -/

section Rooms

variable {a b : String}

@[simp] theorem userRoom_inj : userRoom a = userRoom b ↔ a = b := by simp [userRoom, String.ext_iff]

@[simp] theorem centerRoom_inj : centerRoom a = centerRoom b ↔ a = b := by
  simp [centerRoom, String.ext_iff]

@[simp] theorem storeRoom_inj : storeRoom a = storeRoom b ↔ a = b := by
  simp [storeRoom, String.ext_iff]

@[simp] theorem userRoom_ne_centerRoom : userRoom a ≠ centerRoom b := by
  simp [userRoom, centerRoom, String.ext_iff]

@[simp] theorem userRoom_ne_storeRoom : userRoom a ≠ storeRoom b := by
  simp [userRoom, storeRoom, String.ext_iff]

@[simp] theorem userRoom_ne_collectorsRoom : userRoom a ≠ collectorsRoom := by
  simp [userRoom, collectorsRoom, String.ext_iff]

@[simp] theorem centerRoom_ne_storeRoom : centerRoom a ≠ storeRoom b := by
  simp [centerRoom, storeRoom, String.ext_iff]

@[simp] theorem centerRoom_ne_collectorsRoom : centerRoom a ≠ collectorsRoom := by
  simp [centerRoom, collectorsRoom, String.ext_iff]

@[simp] theorem storeRoom_ne_collectorsRoom : storeRoom a ≠ collectorsRoom := by
  simp [storeRoom, collectorsRoom, String.ext_iff]

end Rooms

/-! ### Who hears -/

def Hears (own : List Answered) (client : Client) : Request → Prop
  | .connect _ => False
  | .collectionCreated | .collectionUpdated =>
    ∃ userId, Presents own client userId ∧ Serves own client userId .recolector
  | .batchCompleted centerId =>
    Presents own client centerId ∧ Serves own client centerId .centroAcopio
  | .storeNotification storeUserId _ =>
    Presents own client storeUserId ∧ Serves own client storeUserId .tienda
  | .userEvent userId _ => Presents own client userId

def Admitted (own : List Answered) (w : World) : Prop :=
  ∀ socket room, (socket, room) ∈ w.members → ∃ client, client.id = socket ∧
    Entitled own client room

def Kept (h : Past) (w : World) : Prop :=
  Admitted (h.map Made.call) w ∧ ∀ pre m post, h = pre ++ m :: post →
    Admitted (pre.map Made.call) m.before

section Steps

variable {own known : List Answered} {client : Client} {room : String} {userId : String}
    {role : Role}
  {w w' : World} {h : Past} {request : Request} {i : Op} {o : Outcome}

theorem presents_mono (hown : own ⊆ known) (h : Presents own client userId) :
    Presents known client userId :=
  h.imp fun _ ht => ⟨ht.1, ht.2.imp_right fun hv => ⟨hv.1, hown hv.2⟩⟩

theorem entitled_mono (hown : own ⊆ known) (h : Entitled own client room) :
    Entitled known client room := by
  obtain ⟨userId, hpresents, huser | ⟨hroom, hserves⟩ | ⟨hroom, hserves⟩ | ⟨hroom, hserves⟩⟩ := h
  · exact ⟨userId, presents_mono hown hpresents, .inl huser⟩
  · exact ⟨userId, presents_mono hown hpresents, .inr (.inl ⟨hroom, hown hserves⟩)⟩
  · exact ⟨userId, presents_mono hown hpresents, .inr (.inr (.inl ⟨hroom, hown hserves⟩))⟩
  · exact ⟨userId, presents_mono hown hpresents, .inr (.inr (.inr ⟨hroom, hown hserves⟩))⟩

theorem Admitted.mono (hown : own ⊆ known) (h : Admitted own w) : Admitted known w :=
  fun socket room hmem => (h socket room hmem).imp fun _ hc => ⟨hc.1, entitled_mono hown hc.2⟩

theorem admitted_call (ha : Admitted known w) (hown : own ⊆ known)
    (hallowed : Allowed own (request, i)) :
    Admitted known (w.after i o.delivery) := by
  unfold World.after
  split
  · cases i with
    | join socket room =>
      intro member entered hmem
      rcases List.mem_cons.mp hmem with hnew | hold
      · cases hnew
        obtain ⟨client, -, hid, hentitled⟩ := hallowed
        exact ⟨client, hid, entitled_mono hown hentitled⟩
      · exact ha member entered hold
    | disconnect socket =>
      exact fun member entered hmem => ha member entered (List.mem_filter.mp hmem).1
    | _ => exact ha
  · exact ha

theorem kept_call (hk : Kept h w) (hown : own ⊆ h.map Made.call)
    (hallowed : Allowed own (request, i)) :
    Kept (h ++ [⟨w, (request, i), w.reply i o⟩]) (w.after i o.delivery) := by
  refine ⟨?_,
    forall_split_append (p := fun pre m => Admitted (pre.map Made.call) m.before) hk.2 hk.1⟩
  rw [List.map_append]
  exact (admitted_call hk.1 hown hallowed).mono (List.subset_append_left _ _)

theorem kept_outside (hk : Kept h w) {d : Outside} (hw : outside w d = some w') : Kept h w' := by
  cases d with
  | leave socket =>
    cases hw
    exact ⟨fun member entered hmem => hk.1 member entered (List.mem_filter.mp hmem).1, hk.2⟩
  | _ =>
    cases hw
    exact hk

theorem serves_of_collectors (hroom : collectorsRoom = userRoom userId ∨
    collectorsRoom = centerRoom userId ∧ Serves known client userId .centroAcopio ∨
    collectorsRoom = collectorsRoom ∧ Serves known client userId .recolector ∨
    collectorsRoom = storeRoom userId ∧ Serves known client userId .tienda) :
    Serves known client userId .recolector := by
  simpa [userRoom_ne_collectorsRoom.symm, centerRoom_ne_collectorsRoom.symm,
    storeRoom_ne_collectorsRoom.symm] using hroom

theorem hears_of_entitled {event : String} (hentitled : Entitled known client room)
    (hallowed : Allowed own (request, .emit room event)) : Hears known client request := by
  obtain ⟨userId, hpresents, hroom⟩ := hentitled
  cases request with
  | connect other => exact hallowed
  | collectionCreated =>
    obtain ⟨rfl, -⟩ := hallowed
    exact ⟨userId, hpresents, serves_of_collectors hroom⟩
  | collectionUpdated =>
    obtain ⟨rfl, -⟩ := hallowed
    exact ⟨userId, hpresents, serves_of_collectors hroom⟩
  | batchCompleted centerId =>
    obtain ⟨rfl, -⟩ := hallowed
    have hcenter : centerId = userId ∧ Serves known client userId .centroAcopio := by
      simpa [userRoom_ne_centerRoom.symm] using hroom
    obtain ⟨rfl, hserves⟩ := hcenter
    exact ⟨hpresents, hserves⟩
  | storeNotification storeUserId name =>
    obtain ⟨rfl, -⟩ := hallowed
    have hstore : storeUserId = userId ∧ Serves known client userId .tienda := by
      simpa [userRoom_ne_storeRoom.symm, centerRoom_ne_storeRoom.symm] using hroom
    obtain ⟨rfl, hserves⟩ := hstore
    exact ⟨hpresents, hserves⟩
  | userEvent id name =>
    obtain ⟨rfl, -⟩ := hallowed
    have huser : id = userId := by simpa using hroom
    subst huser
    exact hpresents

theorem kept_quiescent (hw : w.members = []) : Kept [] w := by
  refine ⟨fun _ _ hmem => ?_, fun _ _ _ h => by simp at h⟩
  rw [hw] at hmem
  cases hmem

end Steps

/-- Whoever an event reaches is on a connection that has presented a token of the user it is for, or
of one whom the tables showed in the role that it is for. -/
theorem events_confined {w : World} (hw : w.members = []) {es : List RaceEvent} {c : Race}
    (hrun : run system.step (quiescent w) es = some c) {pre post : Past}
    {m : Made World (Request × Op) fun i => Except Failure (Reply i.2)}
    (hsplit : calls system (quiescent w) es = pre ++ m :: post) {room event : String}
    (hemit : m.call.1.2 = .emit room event) :
    ∀ socket ∈ m.before.recipients room, ∃ client, client.id = socket ∧
      Hears (pre.map Made.call) client m.call.1.1 := by
  have hprogram : ∀ request, Keeps (remembering Allowed) (fun _ _ => True) []
    (system.program request) := keeps_program
  obtain ⟨hjustified, -, hkept⟩ :=
    run_remembering (S := system) (K := fun h w _ => Kept h w) rfl rfl hprogram
    (fun _ _ _ _ hk _ => hk) (fun h c j o own i hr hk hj _ hallowed _ =>
      kept_call hk (hr j own hj) hallowed)
    (fun _ _ _ _ hk => hk) (fun _ _ _ _ hk _ hout => kept_outside hk hout) (fun _ => rfl)
    (kept_quiescent hw) along_true hrun
  intro socket hsocket
  obtain ⟨-, hmember⟩ := List.mem_filter.mp hsocket
  obtain ⟨client, hid, hentitled⟩ :=
    hkept.2 pre m post hsplit socket room (of_decide_eq_true hmember)
  obtain ⟨own, -, hallowed⟩ := hjustified pre m post hsplit
  have hasked : Allowed own (m.call.1.1, .emit room event) := by
    rw [← hemit]
    exact hallowed
  exact ⟨client, hid, hears_of_entitled hentitled hasked⟩

/-! ### One connection -/

def phone : Client := ⟨"phone", some "token", none⟩

def oneUser : World := ⟨[⟨"ana", .hogar⟩], [], []⟩

/-- A connection is made with an access token, and hears of its user. -/
def visit : List RaceEvent :=
  .outside (.open "phone") :: .start 0 (.connect phone) :: List.replicate 4
    (.advance 0 ⟨.done, "ana"⟩) ++
    [.start 1 (.userEvent "ana" "payment:updated"), .advance 1 ⟨.done, ""⟩]

theorem events_confined_visit : ∃ pre m, calls system (quiescent oneUser) visit = pre ++ [m] ∧
    m.before.recipients (userRoom "ana") = ["phone"] ∧
    ∃ client, client.id = "phone" ∧ Hears (pre.map Made.call) client m.call.1.1 := by
  obtain ⟨c, hc⟩ := Option.isSome_iff_exists.mp
    (show (run system.step (quiescent oneUser) visit).isSome = true by decide +kernel)
  obtain ⟨m, hm, hlast⟩ := Option.map_eq_some_iff.mp
    (show (calls system (quiescent oneUser) visit).getLast?.map
        (fun m => (m.before.recipients (userRoom "ana"), m.call.1.2)) =
      some (["phone"], .emit (userRoom "ana") "payment:updated") by decide +kernel)
  obtain ⟨hrecipients, hemit⟩ := Prod.mk.inj hlast
  obtain ⟨pre, hsplit⟩ := List.getLast?_eq_some_iff.mp hm
  exact ⟨pre, m, hsplit, hrecipients,
    events_confined rfl hc hsplit hemit "phone" (by simp [hrecipients])⟩

end Livora.RoomAudiences
