import Livora.TransitionRuns
import Mathlib.Data.List.Basic
import Mathlib.Logic.Function.Basic
import Mathlib.Tactic.Common

/-! `IdempotencyInterceptor`, which any number of processes run over one Redis. A request with
an idempotency key reads the key, sets the marker, runs its handler and answers; the response is
stored afterwards, or the marker deleted, while other requests go on. -/

namespace Livora.IdempotencyInterceptor

open TransitionRuns

structure Headers where
  idempotencyKeyDashed : Option String
  idempotencyKeyUnderscored : Option String
  xIdempotencyKey : Option String
deriving DecidableEq

/-- A request, with the metadata of its route. The interceptor reads neither the user nor the
route itself. -/
structure Request where
  userId : String
  route : String
  isExplicitlyRequired : Bool
  headers : Headers
deriving DecidableEq

/-- The first header of the three that is not empty. -/
def Request.idempotencyKey (r : Request) : Option String :=
  r.headers.idempotencyKeyDashed.filter (· ≠ "") <|>
    r.headers.idempotencyKeyUnderscored.filter (· ≠ "") <|>
    r.headers.xIdempotencyKey.filter (· ≠ "")

def redisKey (idempotencyKey : String) : String := "idempotency:" ++ idempotencyKey

def Request.redisKey (r : Request) : Option String :=
  r.idempotencyKey.map IdempotencyInterceptor.redisKey

/-- What is stored of a response: its body as JSON, none where the handler returns nothing. -/
structure Stored where
  statusCode : ℕ
  body : Option String
deriving DecidableEq

inductive Value where
  | processing
  | response (stored : Stored)
deriving DecidableEq

structure Entry where
  value : Value
  expiresAt : ℕ
deriving DecidableEq

inductive Outcome where
  | succeeded (statusCode : ℕ) (body : Option String)
  | failed
deriving DecidableEq

/-- A stored response without a body is answered with the record itself. -/
inductive Content where
  | body (json : String)
  | record (stored : Stored)
deriving DecidableEq

inductive Reply where
  | own (outcome : Outcome)
  | cached (statusCode : ℕ) (content : Content)
  | error (statusCode : ℕ) (message : String)
deriving DecidableEq

def keyRequired : Reply :=
  .error 400
    "Encabezado 'Idempotency-Key' es obligatorio para transacciones financieras o de pesaje"

def conflict : Reply := .error 409 "Transaction currently being processed"

def unavailable : Reply := .error 500 "Internal server error"

/-- `statusCode || 200` -/
def orOk (statusCode : ℕ) : ℕ := if statusCode = 0 then 200 else statusCode

def persist (statusCode : ℕ) (body : Option String) : Stored := ⟨orOk statusCode, body⟩

def replay (s : Stored) : Reply :=
  .cached (orOk s.statusCode) (match s.body with
    | some json => .body json
    | none => .record s)

/-- Where a request stands, with the Redis key it goes by. -/
inductive Phase where
  | reading (key : String)
  | claiming (key : String)
  | handling (key : String)
  | storing (key : String) (response : Stored)
  | dropping (key : String)
  | unguarded
  | finished
deriving DecidableEq

def Phase.key : Phase → Option String
  | .reading key | .claiming key | .handling key | .storing key _ | .dropping key => some key
  | .unguarded | .finished => none

/-- The key whose marker the request has set and may still act on. -/
def Phase.held : Phase → Option String
  | .handling key | .storing key _ | .dropping key => some key
  | _ => none

structure Call where
  request : Request
  phase : Phase
  reply : Option Reply
deriving DecidableEq

structure Completion where
  call : ℕ
  request : Request
  response : Stored
  completedAt : ℕ
deriving DecidableEq

structure Gateway where
  now : ℕ
  redis : String → Option Entry
  calls : ℕ → Option Call
  /-- The last completion first. -/
  completions : List Completion

def Gateway.idle : Gateway := ⟨0, fun _ => none, fun _ => none, []⟩

/-- How Redis answers: an error may come before the command takes effect or after. -/
inductive Answer where
  | served
  | failed
  | lost
deriving DecidableEq

/-- A request comes in, reads its key, sets the marker, has run its handler, stores the response,
deletes the marker, or ends with its process; times are in milliseconds. -/
inductive Event where
  | enter (j : ℕ) (request : Request)
  | read (j : ℕ) (answer : Answer)
  | claim (j : ℕ) (answer : Answer)
  | complete (j : ℕ) (outcome : Outcome)
  | store (j : ℕ) (answer : Answer)
  | drop (j : ℕ) (answer : Answer)
  | crash (j : ℕ)
  | pass (ms : ℕ)
deriving DecidableEq

def Gateway.put (g : Gateway) (j : ℕ) (c : Call) : Gateway :=
  { g with calls := Function.update g.calls j (some c) }

def Gateway.write (g : Gateway) (key : String) (entry : Option Entry) : Gateway :=
  { g with redis := Function.update g.redis key entry }

def Gateway.complete (g : Gateway) (d : Completion) : Gateway :=
  { g with completions := d :: g.completions }

/-- What `GET` finds: an entry that has not run out. -/
def Gateway.get (g : Gateway) (key : String) : Option Entry :=
  (g.redis key).filter fun entry => g.now < entry.expiresAt

/-- `SET` with `EX` -/
def Gateway.set (g : Gateway) (key : String) (value : Value) (ttlSeconds : ℕ) : Gateway :=
  g.write key (some ⟨value, g.now + 1000 * ttlSeconds⟩)

/-- `SET` with `EX` and `NX` -/
def Gateway.setNX (g : Gateway) (key : String) (value : Value) (ttlSeconds : ℕ) : Gateway :=
  if (g.get key).isNone then g.set key value ttlSeconds else g

def Call.answer (c : Call) (reply : Reply) : Call :=
  { c with phase := .finished, reply := some reply }

/-- `intercept` up to its first call of Redis. -/
def intercept (request : Request) : Call :=
  match request.redisKey with
  | none =>
    if request.isExplicitlyRequired then ⟨request, .finished, some keyRequired⟩
    else ⟨request, .unguarded, none⟩
  | some key => ⟨request, .reading key, none⟩

def afterGet (g : Gateway) (c : Call) (key : String) : Answer → Call
  | .served =>
    match g.get key with
    | some ⟨.processing, _⟩ => c.answer conflict
    | some ⟨.response stored, _⟩ => c.answer (replay stored)
    | none => { c with phase := .claiming key }
  | _ => c.answer unavailable

def afterSetNX (g : Gateway) (j : ℕ) (c : Call) (key : String) : Answer → Gateway
  | .served =>
    if (g.get key).isNone then
      (g.setNX key .processing 60).put j { c with phase := .handling key }
    else g.put j (c.answer conflict)
  | .failed => g.put j (c.answer unavailable)
  | .lost => (g.setNX key .processing 60).put j (c.answer unavailable)

/-- `tap`: the answer goes out, and Redis is written afterwards. -/
def afterHandle (g : Gateway) (j : ℕ) (c : Call) (key : String) (outcome : Outcome) : Gateway :=
  match outcome with
  | .succeeded statusCode body =>
    (g.complete ⟨j, c.request, persist statusCode body, g.now⟩).put j
      { c with phase := .storing key (persist statusCode body), reply := some (.own outcome) }
  | .failed => g.put j { c with phase := .dropping key, reply := some (.own outcome) }

/-- The response is stored for a day; an error is swallowed. -/
def afterSet (g : Gateway) (key : String) (response : Stored) (answer : Answer) : Gateway :=
  if answer = .failed then g else g.set key (.response response) 86400

/-- The key is deleted, whoever has written it; an error is swallowed. -/
def afterDel (g : Gateway) (key : String) (answer : Answer) : Gateway :=
  if answer = .failed then g else g.write key none

def step (g : Gateway) : Event → Option Gateway
  | .enter j request =>
    match g.calls j with
    | none => some (g.put j (intercept request))
    | some _ => none
  | .read j answer =>
    match g.calls j with
    | some c =>
      match c.phase with
      | .reading key => some (g.put j (afterGet g c key answer))
      | _ => none
    | none => none
  | .claim j answer =>
    match g.calls j with
    | some c =>
      match c.phase with
      | .claiming key => some (afterSetNX g j c key answer)
      | _ => none
    | none => none
  | .complete j outcome =>
    match g.calls j with
    | some c =>
      match c.phase with
      | .handling key => some (afterHandle g j c key outcome)
      | .unguarded => some (g.put j (c.answer (.own outcome)))
      | _ => none
    | none => none
  | .store j answer =>
    match g.calls j with
    | some c =>
      match c.phase with
      | .storing key response =>
        some ((afterSet g key response answer).put j { c with phase := .finished })
      | _ => none
    | none => none
  | .drop j answer =>
    match g.calls j with
    | some c =>
      match c.phase with
      | .dropping key =>
        some ((afterDel g key answer).put j { c with phase := .finished })
      | _ => none
    | none => none
  | .crash j =>
    match g.calls j with
    | some c => some (g.put j { c with phase := .finished })
    | none => none
  | .pass ms => some { g with now := g.now + ms }

/-! ### What an event does -/

variable {g g' : Gateway} {e : Event} {i j : ℕ} {c : Call} {key name : String}
  {entry : Option Entry} {d : Completion}

theorem put_calls : (g.put j c).calls i = if i = j then some c else g.calls i := by
  by_cases hij : i = j
  · subst hij
    rw [if_pos rfl]
    exact Function.update_self ..
  · rw [if_neg hij]
    exact Function.update_of_ne hij ..

theorem setNX_eq {value : Value} {ttlSeconds : ℕ} (h : g.get key = none) :
    g.setNX key value ttlSeconds = g.set key value ttlSeconds := by
  rw [Gateway.setNX, h]
  rfl

inductive Step (g g' : Gateway) : Event → Prop where
  | enter (j : ℕ) (request : Request) (hj : g.calls j = none)
      (hg : g' = g.put j (intercept request)) : Step g g' (.enter j request)
  | read (j : ℕ) (answer : Answer) (c : Call) (key : String) (hj : g.calls j = some c)
      (hphase : c.phase = .reading key) (hg : g' = g.put j (afterGet g c key answer)) :
      Step g g' (.read j answer)
  | claim (j : ℕ) (answer : Answer) (c : Call) (key : String) (hj : g.calls j = some c)
      (hphase : c.phase = .claiming key) (hg : g' = afterSetNX g j c key answer) :
      Step g g' (.claim j answer)
  | complete (j : ℕ) (outcome : Outcome) (c : Call) (key : String) (hj : g.calls j = some c)
      (hphase : c.phase = .handling key) (hg : g' = afterHandle g j c key outcome) :
      Step g g' (.complete j outcome)
  | unguarded (j : ℕ) (outcome : Outcome) (c : Call) (hj : g.calls j = some c)
      (hphase : c.phase = .unguarded) (hg : g' = g.put j (c.answer (.own outcome))) :
      Step g g' (.complete j outcome)
  | store (j : ℕ) (answer : Answer) (c : Call) (key : String) (response : Stored)
      (hj : g.calls j = some c) (hphase : c.phase = .storing key response)
      (hg : g' = (afterSet g key response answer).put j { c with phase := .finished }) : Step g g'
        (.store j answer)
  | drop (j : ℕ) (answer : Answer) (c : Call) (key : String) (hj : g.calls j = some c)
      (hphase : c.phase = .dropping key)
      (hg : g' = (afterDel g key answer).put j { c with phase := .finished }) : Step g g'
        (.drop j answer)
  | crash (j : ℕ) (c : Call) (hj : g.calls j = some c)
      (hg : g' = g.put j { c with phase := .finished }) : Step g g' (.crash j)
  | pass (ms : ℕ) (hg : g' = { g with now := g.now + ms }) : Step g g' (.pass ms)

theorem step_iff : step g e = some g' ↔ Step g g' e := by
  constructor
  · intro hs
    unfold step at hs
    repeat' split at hs
    all_goals cases hs
    · exact .enter _ _ ‹_› rfl
    · exact .read _ _ _ _ ‹_› ‹_› rfl
    · exact .claim _ _ _ _ ‹_› ‹_› rfl
    · exact .complete _ _ _ _ ‹_› ‹_› rfl
    · exact .unguarded _ _ _ ‹_› ‹_› rfl
    · exact .store _ _ _ _ _ ‹_› ‹_› rfl
    · exact .drop _ _ _ _ ‹_› ‹_› rfl
    · exact .crash _ _ ‹_› rfl
    · exact .pass _ rfl
  · intro hs
    cases hs with
    | enter j request hj hg => simp only [step, hj, hg]
    | read j answer c key hj hphase hg => simp only [step, hj, hphase, hg]
    | claim j answer c key hj hphase hg => simp only [step, hj, hphase, hg]
    | complete j outcome c key hj hphase hg => simp only [step, hj, hphase, hg]
    | unguarded j outcome c hj hphase hg => simp only [step, hj, hphase, hg]
    | store j answer c key response hj hphase hg => simp only [step, hj, hphase, hg]
    | drop j answer c key hj hphase hg => simp only [step, hj, hphase, hg]
    | crash j c hj hg => simp only [step, hj, hg]
    | pass ms hg => simp only [step, hg]

end Livora.IdempotencyInterceptor
