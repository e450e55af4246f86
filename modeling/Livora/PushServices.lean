import Livora.AuthBooks
import Livora.JobQueues
import Livora.KeyedRows

/-! The devices of the users, and the notifications that are pushed to them: queued, or sent at once
where the queue cannot be reached, in lots of at most five hundred tokens. -/

namespace Livora.PushServices

open EffectPrograms EffectPrograms.Action KeyedRows JobQueues AuthBooks
open PinVerification (Delivery)

/-! ### Messages -/

abbrev Data := List (String × String)

structure Push where
  userId : String
  title : String
  body : String
  data : Option Data
deriving DecidableEq

structure TopicPush where
  topic : String
  title : String
  body : String
  data : Option Data
deriving DecidableEq

inductive PushJob where
  | user (push : Push)
  | topic (push : TopicPush)
deriving DecidableEq

/-- `data?.[key]`, where that is not empty. -/
def field (data : Option Data) (key : String) : Option String :=
  (data.bind fun entries => entries.lookup key).filter (· ≠ "")

def channelId (data : Option Data) : String :=
  (field data "channelId").getD "livora_collections_urgent"

def defaultSound (channelId : String) : String :=
  if channelId = "livora_wallet_ledger" then "transaction_tone.mp3"
  else if channelId = "livora_collections_urgent" then "alert_tone.mp3"
  else "default"

def sound (data : Option Data) : String := (field data "sound").getD (defaultSound (channelId data))

structure Content where
  title : String
  body : String
  data : Data
  priority : String
  channelId : String
  sound : String
  clickAction : String
  category : String
deriving DecidableEq

def contentOf (title body : String) (data : Option Data) : Content where
  title := title
  body := body
  data := data.getD []
  priority := "high"
  channelId := channelId data
  sound := sound data
  clickAction := "FLUTTER_NOTIFICATION_CLICK"
  category := (field data "type").getD "LIVORA_NOTIFICATION"

structure Multicast where
  tokens : List String
  content : Content
deriving DecidableEq

/-- `topic.replace(/[^a-zA-Z0-9-_.~%]/g, '_')`: a character of two units is replaced twice. -/
def cleanTopic (topic : String) : String :=
  String.ofList (topic.toList.flatMap fun c =>
    if c.isAlphanum || c ∈ ['-', '_', '.', '~', '%'] then [c]
    else if c.toNat < 0x10000 then ['_']
    else ['_', '_'])

/-! ### Answers of the provider -/

structure SendError where
  code : String
  message : Option String

structure SendResponse where
  success : Bool
  error : Option SendError

structure BatchResponse where
  failureCount : ℕ
  responses : List SendResponse

/-- `text.includes(part)` -/
def includes (text part : String) : Bool := decide (part.toList <:+: text.toList)

def obsolete (resp : SendResponse) : Bool :=
  !resp.success && resp.error.any fun error =>
    error.code == "messaging/registration-token-not-registered" ||
      error.code == "messaging/invalid-registration-token" ||
      error.message.any fun message => includes message "not registered"

def tokensToDelete (chunk : List String) (response : BatchResponse) : List String :=
  ((chunk.zip response.responses).filter fun answered => obsolete answered.2).map Prod.fst

/-! ### The calls -/

inductive Op where
  | findDeviceTokens (userId : String)
  | findFcmToken (userId : String)
  | sendEachForMulticast (message : Multicast)
  | sendToTopic (topic : String) (content : Content)
  | deleteDeviceTokens (tokens : List String)
  | clearFcmToken (userId : String)
  | createNotification (userId title message : String)
  | emitUserEvent (userId id : String) (data : Data)
  | addJob (job : PushJob)
  | takeJob (n : ℕ)
  | finishJob (n token : ℕ) (ok : Bool)
  | upsertDeviceToken (userId token : String)
  | setFcmToken (userId token : String)
  | deleteUserToken (userId token : String)
  | deleteUserTokens (userId : String)

abbrev Reply : Op → Type
  | .findDeviceTokens _ => List String
  | .findFcmToken _ => Option (Option String)
  | .sendEachForMulticast _ => BatchResponse
  | .createNotification _ _ _ => String
  | .takeJob _ => Option (Job PushJob)
  | .sendToTopic _ _ | .deleteDeviceTokens _ | .clearFcmToken _ | .emitUserEvent _ _ _ | .addJob _
  | .finishJob _ _ _ | .upsertDeviceToken _ _ | .setFcmToken _ _ | .deleteUserToken _ _
  | .deleteUserTokens _ => Unit

abbrev Work (α : Type) := Action Op Reply Failure α

def call (i : Op) : Work (Reply i) := perform i

/-! ### The world -/

structure DeviceToken where
  token : String
  userId : String
deriving DecidableEq

structure UserRow where
  id : String
  fcmToken : Option String
deriving DecidableEq

structure World where
  deviceTokens : List DeviceToken
  users : List UserRow
  jobs : List (Job PushJob)

/-- How the answer of a call arrives, what the provider answers, and the identifier of a row. -/
structure Outcome where
  delivery : Delivery
  response : BatchResponse
  id : String

def attempts : ℕ := 3

namespace World

def findUser (w : World) (userId : String) : Option UserRow := lookup UserRow.id w.users userId

def withFcmToken (userId : String) (token : Option String) (user : UserRow) : UserRow :=
  if user.id = userId then { user with fcmToken := token } else user

def effect (w : World) : Op → World
  | .deleteDeviceTokens tokens =>
    { w with deviceTokens := w.deviceTokens.filter fun row => row.token ∉ tokens }
  | .clearFcmToken userId => { w with users := w.users.map (withFcmToken userId none) }
  | .setFcmToken userId token => { w with users := w.users.map (withFcmToken userId (some token)) }
  | .upsertDeviceToken userId token =>
    { w with deviceTokens := upsert DeviceToken.token w.deviceTokens ⟨token, userId⟩ }
  | .deleteUserToken userId token =>
    { w with deviceTokens := w.deviceTokens.filter fun row =>
      ¬ (row.token = token ∧ row.userId = userId) }
  | .deleteUserTokens userId =>
    { w with deviceTokens := w.deviceTokens.filter fun row => row.userId ≠ userId }
  | .addJob job => { w with jobs := w.jobs ++ [.new job attempts] }
  | .takeJob n => { w with jobs := w.jobs.modify n Job.take }
  | .finishJob n token ok => { w with jobs := w.jobs.modify n fun job => job.finish token ok }
  | _ => w

def after (w : World) (i : Op) (d : Delivery) : World :=
  match i with
  | .takeJob n => w.effect (.takeJob n)
  | .finishJob n token ok => w.effect (.finishJob n token ok)
  | i => if d.applied then w.effect i else w

def updated (w : World) (userId : String) (d : Delivery) : Except Failure Unit :=
  if (w.findUser userId).isSome then d.answer .outside () else .error .outside

def reply (w : World) (i : Op) (o : Outcome) : Except Failure (Reply i) :=
  match i with
  | .findDeviceTokens userId =>
    o.delivery.answer .outside
      ((w.deviceTokens.filter fun row => row.userId = userId).map DeviceToken.token)
  | .findFcmToken userId => o.delivery.answer .outside ((w.findUser userId).map UserRow.fcmToken)
  | .sendEachForMulticast _ => o.delivery.answer .outside o.response
  | .createNotification _ _ _ => o.delivery.answer .outside o.id
  | .takeJob n => .ok ((waiting w.jobs n).map Job.take)
  | .finishJob _ _ _ => .ok ()
  | .clearFcmToken userId => w.updated userId o.delivery
  | .setFcmToken userId _ => w.updated userId o.delivery
  | .sendToTopic _ _ | .deleteDeviceTokens _ | .emitUserEvent _ _ _ | .addJob _ | .upsertDeviceToken _ _
  | .deleteUserToken _ _ | .deleteUserTokens _ => o.delivery.answer .outside ()

def serve (w : World) (i : Op) (o : Outcome) : Except Failure (Reply i) × World :=
  (w.reply i o, w.after i o.delivery)

end World

/-! ### `NotificationsService` -/

structure Services where
  firebaseApp : Bool
  pushQueue : Bool
  websocketsService : Bool

/-- `set.add(token)`, where the token is not empty. -/
def addToken (set : List String) (token : String) : List String :=
  if token = "" ∨ token ∈ set then set else set ++ [token]

/-- The tokens of a user, each once: the one of the account first. -/
def tokenArray (fcmToken : Option String) (deviceTokens : List String) : List String :=
  (fcmToken.toList ++ deviceTokens).foldl addToken []

def chunkSize : ℕ := 500

/-- `promise.catch(() => {})` -/
def quietly (action : Work Unit) : Work Unit := recover action ()

def cleanUp (userId : String) (fcmToken : Option String) (tokens : List String) : Work Unit :=
  if tokens = [] then pure ()
  else do
    quietly (call (.deleteDeviceTokens tokens))
    match fcmToken with
    | none => pure ()
    | some token => if token ∈ tokens then quietly (call (.clearFcmToken userId)) else pure ()

/-- One lot; whatever it throws is only logged. -/
def sendChunk (push : Push) (fcmToken : Option String) (chunk : List String) : Work Unit :=
  quietly do
    let response ← call (.sendEachForMulticast ⟨chunk, contentOf push.title push.body push.data⟩)
    if 0 < response.failureCount then cleanUp push.userId fcmToken (tokensToDelete chunk response)
    else pure ()

def sendChunks (push : Push) (fcmToken : Option String) : ℕ → List String → Work Unit
  | 0, _ => pure ()
  | n + 1, tokens => do
    sendChunk push fcmToken (tokens.take chunkSize)
    sendChunks push fcmToken n (tokens.drop chunkSize)

def executePushNotification (svc : Services) (push : Push) : Work Unit := do
  let deviceTokens ← call (.findDeviceTokens push.userId)
  let user ← call (.findFcmToken push.userId)
  let fcmToken := user.join.filter (· ≠ "")
  let tokens := tokenArray fcmToken deviceTokens
  if svc.firebaseApp then sendChunks push fcmToken ((tokens.length + (chunkSize - 1)) / chunkSize) tokens
  else pure ()

def executeTopicNotification (svc : Services) (push : TopicPush) : Work Unit :=
  if svc.firebaseApp then
    quietly (call (.sendToTopic (cleanTopic push.topic) (contentOf push.title push.body push.data)))
  else pure ()

def notify (svc : Services) (push : Push) : Work Unit :=
  quietly do
    let id ← call (.createNotification push.userId push.title push.body)
    if svc.websocketsService then call (.emitUserEvent push.userId id (push.data.getD [])) else pure ()

def enqueue (svc : Services) (job : PushJob) : Work Bool :=
  if svc.pushQueue then
    recover (do
      call (.addJob job)
      pure true) false
  else pure false

def sendPushNotification (svc : Services) (push : Push) : Work Unit := do
  notify svc push
  let queued ← enqueue svc (.user push)
  if queued then pure () else executePushNotification svc push

def sendTopicNotification (svc : Services) (push : TopicPush) : Work Unit := do
  let queued ← enqueue svc (.topic push)
  if queued then pure () else executeTopicNotification svc push

/-! ### `PushNotificationProcessor` -/

def process (svc : Services) : PushJob → Work Unit
  | .topic push => if push.topic = "" then pure () else executeTopicNotification svc push
  | .user push => if push.userId = "" then pure () else executePushNotification svc push

def work (svc : Services) (n : ℕ) : Work Unit := do
  match ← call (.takeJob n) with
  | none => pure ()
  | some job =>
    let ok ← rescue (do
      process svc job.data
      pure true) fun _ => pure false
    call (.finishJob n job.started ok)

/-! ### `UsersService` -/

def registerDeviceToken (userId token : String) : Work Unit := do
  call (.upsertDeviceToken userId token)
  quietly (call (.setFcmToken userId token))

def updateFcmToken (id fcmToken : String) : Work Unit := do
  quietly (registerDeviceToken id fcmToken)
  call (.setFcmToken id fcmToken)

def unregisterDeviceToken (userId : String) (token : Option String) : Work Unit := do
  match token.filter (· ≠ "") with
  | some token => quietly (call (.deleteUserToken userId token))
  | none => quietly (call (.deleteUserTokens userId))
  quietly (call (.clearFcmToken userId))

/-! ### Requests -/

inductive Request where
  | send (push : Push)
  | sendTopic (push : TopicPush)
  | work (n : ℕ)
  | register (userId token : String)
  | updateFcmToken (id fcmToken : String)
  | unregister (userId : String) (token : Option String)
deriving DecidableEq

def handle (svc : Services) : Request → Work Unit
  | .send push => sendPushNotification svc push
  | .sendTopic push => sendTopicNotification svc push
  | .work n => work svc n
  | .register userId token => registerDeviceToken userId token
  | .updateFcmToken id fcmToken => updateFcmToken id fcmToken
  | .unregister userId token => unregisterDeviceToken userId token

end Livora.PushServices
