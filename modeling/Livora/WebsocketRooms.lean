import Livora.AuthBooks
import Livora.CallTraces
import Livora.KeyedRows

/-! The rooms of the websockets: a socket enters those of the user whose token it presents, by the
role that the user has in the tables at the time, and events are emitted to rooms. -/

namespace Livora.WebsocketRooms

open TransitionRuns EffectPrograms EffectPrograms.Action ProgramPools ProgramPools.System NamedPools CallTraces
open AuthBooks KeyedRows
open BackOffice (Role)
open PinVerification (Delivery)

/-! ### The calls -/

structure Client where
  id : String
  /-- `handshake.query.token` and `handshake.auth?.token` -/
  queryToken : Option String
  authToken : Option String
deriving DecidableEq

inductive Op where
  | verifyAccessToken (token : String)
  | findRole (userId : String)
  | join (socket room : String)
  | acknowledge (socket userId : String) (role : Option Role)
  | disconnect (socket : String)
  | emit (room event : String)
deriving DecidableEq

abbrev Reply : Op → Type
  | .verifyAccessToken _ => String
  | .findRole _ => Option Role
  | .join _ _ | .acknowledge _ _ _ | .disconnect _ | .emit _ _ => Unit

abbrev Work (α : Type) := Action Op Reply Failure α

def call (i : Op) : Work (Reply i) := perform i

/-! ### The world -/

structure User where
  id : String
  role : Role
deriving DecidableEq

structure World where
  users : List User
  connected : List String
  members : List (String × String)

/-- How the answer of a call arrives, and whom a token is of. -/
structure Outcome where
  delivery : Delivery
  sub : String

namespace World

def recipients (w : World) (room : String) : List String :=
  w.connected.filter fun socket => (socket, room) ∈ w.members

def effect (w : World) : Op → World
  | .join socket room => { w with members := (socket, room) :: w.members }
  | .disconnect socket =>
    { w with
      connected := w.connected.filter (· ≠ socket)
      members := w.members.filter fun member => member.1 ≠ socket }
  | _ => w

def after (w : World) (i : Op) (d : Delivery) : World := if d.applied then w.effect i else w

def reply (w : World) (i : Op) (o : Outcome) : Except Failure (Reply i) :=
  match i with
  | .verifyAccessToken _ => o.delivery.answer .outside o.sub
  | .findRole userId => o.delivery.answer .outside ((lookup User.id w.users userId).map User.role)
  | .join _ _ | .acknowledge _ _ _ | .disconnect _ | .emit _ _ => o.delivery.answer .outside ()

def serve (w : World) (i : Op) (o : Outcome) : Except Failure (Reply i) × World :=
  (w.reply i o, w.after i o.delivery)

end World

/-! ### `WebsocketsGateway` -/

def bypassMark : String := "e2e-token-"

/-- `query.token || auth?.token` -/
def tokenOf (client : Client) : Option String :=
  (client.queryToken.filter (· ≠ "")).or (client.authToken.filter (· ≠ ""))

/-- `token.startsWith('e2e-token-')` and what is left without it. -/
def bypass (token : String) : Option String :=
  if bypassMark.toList <+:
    token.toList then some (String.ofList (token.toList.drop bypassMark.length)) else none

def userRoom (userId : String) : String := "user:" ++ userId

def centerRoom (centerId : String) : String := "center:" ++ centerId

def storeRoom (storeUserId : String) : String := "store:" ++ storeUserId

def collectorsRoom : String := "collectors:active"

def joinByRole (client : Client) (userId : String) : Option Role → Work Unit
  | some .centroAcopio => call (.join client.id (centerRoom userId))
  | some .recolector => call (.join client.id collectorsRoom)
  | some .tienda => call (.join client.id (storeRoom userId))
  | _ => pure ()

def enterRooms (client : Client) (userId : String) : Work Unit := do
  let role ← call (.findRole userId)
  call (.join client.id (userRoom userId))
  joinByRole client userId role
  call (.acknowledge client.id userId role)

def orDisconnect (client : Client) (action : Work Unit) : Work Unit :=
  rescue action fun _ => call (.disconnect client.id)

/-- The user of an access token, where it is a good one. -/
def verified (token : String) : Work (Option String) :=
  recover (do
    let sub ← call (.verifyAccessToken token)
    pure (some sub)) none

def handleVerified (client : Client) : Option String → Work Unit
  | none => call (.disconnect client.id)
  | some userId => enterRooms client userId

def handleToken (client : Client) (token : String) : Work Unit :=
  match bypass token with
  | some userId => enterRooms client userId
  | none => do
    let userId ← verified token
    handleVerified client userId

def handleConnection (client : Client) : Work Unit :=
  orDisconnect client (match tokenOf client with
    | none => call (.disconnect client.id)
    | some token => handleToken client token)

/-! ### `WebsocketsService` -/

def emitCollectionCreated : Work Unit := call (.emit collectorsRoom "collection:created")

def emitCollectionUpdated : Work Unit := call (.emit collectorsRoom "collection:updated")

def emitBatchCompleted (centerId : String) : Work Unit :=
  call (.emit (centerRoom centerId) "batch:completed")

def emitStoreNotification (storeUserId event : String) : Work Unit :=
  call (.emit (storeRoom storeUserId) event)

def emitUserEvent (userId event : String) : Work Unit := call (.emit (userRoom userId) event)

/-! ### Requests -/

inductive Request where
  | connect (client : Client)
  | collectionCreated
  | collectionUpdated
  | batchCompleted (centerId : String)
  | storeNotification (storeUserId event : String)
  | userEvent (userId event : String)
deriving DecidableEq

def handle : Request → Work Unit
  | .connect client => handleConnection client
  | .collectionCreated => emitCollectionCreated
  | .collectionUpdated => emitCollectionUpdated
  | .batchCompleted centerId => emitBatchCompleted centerId
  | .storeNotification storeUserId event => emitStoreNotification storeUserId event
  | .userEvent userId event => emitUserEvent userId event

/-! ### Who may be in a room -/

abbrev Answered := Call (Request × Op) fun i => Except Failure (Reply i.2)

/-- The connection has shown to be of the user: by an access token, or by the bypass. -/
def Presents (own : List Answered) (client : Client) (userId : String) : Prop :=
  ∃ token, tokenOf client = some token ∧ (bypass token = some userId ∨ bypass token = none ∧
    said (.connect client) (.verifyAccessToken token) (.ok userId) ∈ own)

/-- The role of the user was found in the tables. -/
def Serves (own : List Answered) (client : Client) (userId : String) (role : Role) : Prop :=
  said (.connect client) (.findRole userId) (.ok (some role)) ∈ own

def Entitled (own : List Answered) (client : Client) (room : String) : Prop :=
  ∃ userId, Presents own client userId ∧ (room = userRoom userId ∨
    room = centerRoom userId ∧ Serves own client userId .centroAcopio ∨
    room = collectorsRoom ∧ Serves own client userId .recolector ∨
    room = storeRoom userId ∧ Serves own client userId .tienda)

def Allowed (own : List Answered) : Request × Op → Prop
  | (request, .join socket room) => ∃ client, request = .connect client ∧ client.id = socket ∧
      Entitled own client room
  | (request, .emit room event) => match request with
    | .connect _ => False
    | .collectionCreated => room = collectorsRoom ∧ event = "collection:created"
    | .collectionUpdated => room = collectorsRoom ∧ event = "collection:updated"
    | .batchCompleted centerId => room = centerRoom centerId ∧ event = "batch:completed"
    | .storeNotification storeUserId name => room = storeRoom storeUserId ∧ event = name
    | .userEvent userId name => room = userRoom userId ∧ event = name
  | _ => True

section Programs

variable {own : List Answered} {client : Client} {userId : String}

abbrev protocol (request : Request) : Protocol (List Answered) Op fun i =>
    Except Failure (Reply i) :=
  under (remembering Allowed) request

theorem Presents.append {c : Answered} (h : Presents own client userId) :
    Presents (own ++ [c]) client userId :=
  h.imp fun _ ht => ⟨ht.1, ht.2.imp_right fun hv => ⟨hv.1, List.mem_append_left _ hv.2⟩⟩

theorem follows_enterRooms (h : Presents own client userId) :
    Follows (protocol (.connect client)) own (enterRooms client userId) := by
  refine follows_call trivial fun role =>
    follows_call ⟨client, rfl, rfl, userId, h.append, .inl rfl⟩ fun _ => ?_
  refine follows_bind ?_ fun _ _ => follows_perform trivial
  have hserves : ∀ r, role = some r →
      Serves (own ++ [said (.connect client) (.findRole userId) (.ok role)] ++
      [said (.connect client) (.join client.id (userRoom userId)) (.ok ())]) client userId r := by
    rintro r rfl
    exact List.mem_append_left _ (List.mem_append_right _ List.mem_cons_self)
  cases role with
  | none => exact follows_pure _
  | some role =>
    cases role with
    | centroAcopio =>
      exact follows_perform ⟨client, rfl, rfl, userId, h.append.append,
        .inr (.inl ⟨rfl, hserves _ rfl⟩)⟩
    | recolector =>
      exact follows_perform ⟨client, rfl, rfl, userId, h.append.append,
        .inr (.inr (.inl ⟨rfl, hserves _ rfl⟩))⟩
    | tienda =>
      exact follows_perform ⟨client, rfl, rfl, userId, h.append.append,
        .inr (.inr (.inr ⟨rfl, hserves _ rfl⟩))⟩
    | _ => exact follows_pure _

theorem follows_handleToken {token : String} (htoken : tokenOf client = some token) :
    Follows (protocol (.connect client)) [] (handleToken client token) := by
  unfold handleToken
  cases hbypass : bypass token with
  | some userId => exact follows_enterRooms ⟨token, htoken, .inl hbypass⟩
  | none =>
    refine follows_after (Q := fun t found => ∀ userId, found = some userId →
      Presents t client userId) ?_
      fun found t ht => ?_
    · refine obeys_recover.mpr (obeys_call.mpr ⟨trivial, fun sub found hfound userId h =>
        ?_, fun e found hfound userId h => ?_⟩)
      · cases hfound
        cases h
        exact ⟨token, htoken, .inr ⟨hbypass, List.mem_append_right _ List.mem_cons_self⟩⟩
      · cases hfound
        cases h
    · cases found with
      | none => exact follows_perform trivial
      | some userId => exact follows_enterRooms (ht userId rfl)

theorem follows_handleConnection : Follows (protocol (.connect client)) []
    (handleConnection client) := by
  refine follows_rescue ?_ fun _ _ => follows_perform trivial
  cases htoken : tokenOf client with
  | none => exact follows_perform trivial
  | some token => exact follows_handleToken htoken

theorem keeps_program (request : Request) :
    Keeps (remembering Allowed) (fun _ _ => True) [] (inName request (handle request).run) := by
  refine (keeps_inName (ρ := fun i => Except Failure (Reply i))).mpr ?_
  cases request with
  | connect client => exact follows_handleConnection
  | _ => exact follows_perform ⟨rfl, rfl⟩

end Programs

end Livora.WebsocketRooms
