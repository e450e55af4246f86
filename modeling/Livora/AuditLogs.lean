import Livora.BoundedBuffers
import Livora.RedactedTrees
import Livora.ReplayedBodies

/-! The audit log in memory: the latest records with the secrets in their data blotted out, read
page by page through filters. -/

namespace Livora.AuditLogs

open DoubleRounding NumberTexts ValueTrees ValueTrees.Tree ResponsePasses ReplayedBodies BoundedBuffers RedactedTrees

inductive Level where
  | info
  | warn
  | error
deriving DecidableEq

def Level.text : Level → String
  | .info => "INFO"
  | .warn => "WARN"
  | .error => "ERROR"

/-- What is given to `add`, with the id and the time that it takes. -/
structure Entry (D : Type) where
  id : String
  timestamp : String
  level : Level
  context : String
  message : String
  correlationId : Option String
  data : Response D

structure AuditLogEntry (D : Type) where
  id : String
  timestamp : String
  level : Level
  context : String
  message : String
  correlationId : Option String
  data : Response D

structure AuditLogQueryParams where
  level : Option String
  correlationId : Option String
  search : Option String
  limit : Option ℕ
  skip : Option ℕ

structure Stats where
  totalBuffered : ℕ
  errors : ℕ
  warnings : ℕ
  info : ℕ
deriving DecidableEq

structure QueryAnswer (D : Type) where
  total : ℕ
  limit : ℕ
  skip : ℕ
  items : List (AuditLogEntry D)
  stats : Stats

def maxBufferSize : ℕ := 1000

def redactKeys : List String :=
  ["password", "token", "authorization", "secret", "privatekey", "encryptedprivatekey",
    "encryptioniv", "encryptiontag", "receptionpin", "pin"]

def redacted : String := "[REDACTADO_POR_SEGURIDAD]"

/-- `text.includes(part)` -/
def includes (text part : String) : Bool := decide (part.toList <:+: text.toList)

def trim (text : String) : String := String.ofList (NumberTexts.trim text.toList)

section Service

variable {D : Type} (cls : DecimalClass D) (toLowerCase toUpperCase : String → String)

/-! ### Redaction -/

/-- Neither nothing, `false`, zero, no number nor the empty text. -/
def truthy : Response D → Bool
  | .leaf .undefined => false
  | .leaf .null => false
  | .leaf (.boolean b) => b
  | .leaf (.number (.finite x)) => decide (x.val ≠ 0)
  | .leaf (.number .nan) => false
  | .leaf (.string s) => decide (s ≠ "")
  | _ => true

/-- `typeof data === 'object'`, of what is not null -/
def isObject : Response D → Bool
  | .leaf (.date _) => true
  | .leaf (.buffer _) => true
  | .leaf (.decimal _) => true
  | .leaf _ => false
  | _ => true

/-- `JSON.parse(JSON.stringify(data))` -/
def jsonCopy (data : Response D) : Option (Response D) :=
  (stringify cls none data).bind (parse none)

/-- The name of a property; an index is one too. -/
def nameOf : Step String → String
  | .key k => k
  | .index i => toString i

def isRedacted (step : Step String) : Bool :=
  redactKeys.any fun k => includes (toLowerCase (nameOf step)) k

def sanitizeRecursive (copy : Response D) : Response D :=
  redact (isRedacted toLowerCase) (.string redacted) copy

def sanitizeData (data : Response D) : Response D :=
  if truthy data && isObject data then
    match jsonCopy cls data with
    | some copy => sanitizeRecursive toLowerCase copy
    | none => .leaf (.string "[OBJETO_NO_SERIALIZABLE]")
  else data

/-! ### The buffer -/

def recordOf (entry : Entry D) : AuditLogEntry D where
  id := entry.id
  timestamp := entry.timestamp
  level := entry.level
  context := entry.context
  message := entry.message
  correlationId := entry.correlationId
  data := if truthy entry.data then sanitizeData cls toLowerCase entry.data else .leaf .undefined

def add (buffer : List (AuditLogEntry D)) (entry : Entry D) : List (AuditLogEntry D) :=
  (if maxBufferSize ≤ buffer.length then buffer.tail else buffer) ++
    [recordOf cls toLowerCase entry]

/-- The buffer after a sequence of calls of `add`, the constructor's the first. -/
def bufferAfter (entries : List (Entry D)) : List (AuditLogEntry D) :=
  entries.foldl (add cls toLowerCase) []

/-! ### Queries -/

/-- The given text without the white space around it, where there is some. -/
def given (param : Option String) : Option String :=
  (param.map trim).filter fun s => decide (s ≠ "")

/-- `params.level && params.level !== 'ALL'` -/
def levelGiven (param : Option String) : Option String :=
  param.filter fun level => decide (level ≠ "") && decide (level ≠ "ALL")

def byLevel (param : Option String) (logs : List (AuditLogEntry D)) : List (AuditLogEntry D) :=
  match levelGiven param with
  | some level => logs.filter fun log => decide (log.level.text = toUpperCase level)
  | none => logs

def hasCorrelation (cid : String) (log : AuditLogEntry D) : Bool :=
  (log.correlationId.filter fun id => decide (id ≠ "")).any fun id => includes (toLowerCase id) cid

def byCorrelation (param : Option String) (logs : List (AuditLogEntry D)) :
    List (AuditLogEntry D) :=
  match given param with
  | some cid => logs.filter (hasCorrelation toLowerCase (toLowerCase cid))
  | none => logs

def bySearch (param : Option String) (logs : List (AuditLogEntry D)) : List (AuditLogEntry D) :=
  match given param with
  | some search =>
    let term := toLowerCase search
    logs.filter fun log =>
      includes (toLowerCase log.message) term || includes (toLowerCase log.context) term ||
        hasCorrelation toLowerCase term log
  | none => logs

/-- `Math.min(params.limit ? Number(params.limit) : 50, 200)` -/
def limitOf (params : AuditLogQueryParams) : ℕ :=
  min ((params.limit.filter fun limit => decide (limit ≠ 0)).getD 50) 200

def query (buffer : List (AuditLogEntry D)) (params : AuditLogQueryParams) : QueryAnswer D :=
  let limit := limitOf params
  let skip := params.skip.getD 0
  let filtered := bySearch toLowerCase params.search
    (byCorrelation toLowerCase params.correlationId
      (byLevel toUpperCase params.level buffer.reverse))
  { total := filtered.length
    limit := limit
    skip := skip
    items := (filtered.drop skip).take limit
    stats :=
      { totalBuffered := buffer.length
        errors := (buffer.filter fun l => decide (l.level = .error)).length
        warnings := (buffer.filter fun l => decide (l.level = .warn)).length
        info := (buffer.filter fun l => decide (l.level = .info)).length } }

end Service

/-! ### Buffer and pages -/

variable {D : Type} {cls : DecimalClass D} {toLowerCase toUpperCase : String → String}

theorem bufferAfter_eq (cls : DecimalClass D) (toLowerCase : String → String)
    (entries : List (Entry D)) :
    bufferAfter cls toLowerCase entries =
      latest maxBufferSize (entries.map (recordOf cls toLowerCase)) := by
  rw [← foldl_push (by decide), List.foldl_map]
  rfl

def satisfies (toLowerCase toUpperCase : String → String) (params : AuditLogQueryParams)
    (log : AuditLogEntry D) : Bool :=
  ((levelGiven params.level).all fun level => decide (log.level.text = toUpperCase level)) &&
    ((given params.correlationId).all fun cid =>
      hasCorrelation toLowerCase (toLowerCase cid) log) &&
    ((given params.search).all fun search =>
      includes (toLowerCase log.message) (toLowerCase search) ||
        includes (toLowerCase log.context) (toLowerCase search) ||
        hasCorrelation toLowerCase (toLowerCase search) log)

theorem filtered_eq (params : AuditLogQueryParams) (logs : List (AuditLogEntry D)) :
    bySearch toLowerCase params.search
        (byCorrelation toLowerCase params.correlationId (byLevel toUpperCase params.level logs)) =
      logs.filter (satisfies toLowerCase toUpperCase params) := by
  have hlevel : byLevel toUpperCase params.level logs = logs.filter fun log =>
      (levelGiven params.level).all fun level => decide (log.level.text = toUpperCase level) := by
    unfold byLevel
    split <;> simp [*]
  have hcorrelation : ∀ logs : List (AuditLogEntry D),
    byCorrelation toLowerCase params.correlationId logs =
      logs.filter fun log =>
        (given params.correlationId).all fun cid =>
          hasCorrelation toLowerCase (toLowerCase cid) log := by
    intro logs
    unfold byCorrelation
    split <;> simp [*]
  have hsearch : ∀ logs : List (AuditLogEntry D), bySearch toLowerCase params.search logs =
      logs.filter fun log => (given params.search).all fun search =>
        includes (toLowerCase log.message) (toLowerCase search) ||
          includes (toLowerCase log.context) (toLowerCase search) ||
          hasCorrelation toLowerCase (toLowerCase search) log := by
    intro logs
    unfold bySearch
    split <;> simp [*]
  rw [hsearch, hcorrelation, hlevel, List.filter_filter, List.filter_filter]
  refine List.filter_congr fun log _ => ?_
  rw [satisfies, Bool.and_assoc, Bool.and_comm,
    Bool.and_comm (Option.all _ (given params.correlationId))]

theorem limitOf_some {params : AuditLogQueryParams} {limit : ℕ} (h : 1 ≤ limit) (h' : limit ≤ 200)
    (hlimit : params.limit = some limit) : limitOf params = limit := by
  have hne : limit ≠ 0 := by omega
  rw [limitOf, hlimit, Option.filter_some, if_pos (decide_eq_true hne), Option.getD_some,
    Nat.min_eq_left h']

/-- The query for the page that begins at `skip`. -/
def pageOf (params : AuditLogQueryParams) (limit skip : ℕ) : AuditLogQueryParams :=
  { params with limit := some limit, skip := some skip }

theorem items_pageOf {limit : ℕ} (h : 1 ≤ limit) (h' : limit ≤ 200)
    (buffer : List (AuditLogEntry D)) (params : AuditLogQueryParams) (skip : ℕ) :
    (query toLowerCase toUpperCase buffer (pageOf params limit skip)).items =
      page limit (buffer.reverse.filter (satisfies toLowerCase toUpperCase params)) skip := by
  show (List.drop skip (bySearch toLowerCase (pageOf params limit skip).search _)).take
    (limitOf (pageOf params limit skip)) = _
  rw [filtered_eq, limitOf_some h h' rfl]
  rfl

theorem total_pageOf (buffer : List (AuditLogEntry D)) (params : AuditLogQueryParams)
    (limit skip : ℕ) :
    (query toLowerCase toUpperCase buffer (pageOf params limit skip)).total =
      (buffer.reverse.filter (satisfies toLowerCase toUpperCase params)).length := by
  show (bySearch toLowerCase (pageOf params limit skip).search _).length = _
  rw [filtered_eq]
  rfl

/-! ### What is kept of the data -/

/-- The data up to the round trip through JSON, which only objects make. -/
def upToJson (cls : DecimalClass D) (data : Response D) : Option (Response D) :=
  if isObject data then jsonCopy cls data else some data

theorem leaf_of_not_isObject {data : Response D} (h : isObject data = false) :
    ∃ a, data = .leaf a := by
  cases data with
  | leaf a => exact ⟨a, rfl⟩
  | array items => cases h
  | object entries => cases h

theorem no_step_of_leaf {a : Leaf D} {p : List (Step String)} {s : Step String} {v : Response D} :
    ¬ At (p ++ [s]) (.leaf a) v := fun h => by
  simpa using (at_leaf h).1

theorem secret_is_mark (entry : Entry D) {p : List (Step String)} {s : Step String} {v : Response D}
    (hs : isRedacted toLowerCase s = true)
    (h : At (p ++ [s]) (recordOf cls toLowerCase entry).data v) :
    v = .leaf (.string redacted) := by
  simp only [recordOf, sanitizeData] at h
  split at h
  · split at h
    · split at h
      · exact hidden_is_mark hs h
      · exact absurd h no_step_of_leaf
    · rename_i htruthy hnot
      obtain ⟨a, ha⟩ : ∃ a, entry.data = .leaf a :=
        leaf_of_not_isObject (by simpa [htruthy] using hnot)
      rw [ha] at h
      exact absurd h no_step_of_leaf
  · exact absurd h no_step_of_leaf

theorem kept_leaf_iff {entry : Entry D} {copy : Response D} (htruthy : truthy entry.data = true)
    (hcopy : upToJson cls entry.data = some copy) {p : List (Step String)}
    (hp : ∀ s ∈ p, isRedacted toLowerCase s = false) (a : Leaf D) :
    At p (recordOf cls toLowerCase entry).data (.leaf a) ↔ At p copy (.leaf a) := by
  have hdata : (recordOf cls toLowerCase entry).data = sanitizeData cls toLowerCase entry.data :=
    if_pos htruthy
  rw [hdata]
  unfold upToJson at hcopy
  cases hobject : isObject entry.data with
  | true =>
    rw [hobject, if_pos rfl] at hcopy
    rw [sanitizeData, htruthy, hobject, Bool.and_self, if_pos rfl, hcopy]
    exact at_redact_leaf_iff hp
  | false =>
    rw [hobject, if_neg Bool.false_ne_true, Option.some.injEq] at hcopy
    rw [sanitizeData, hobject, Bool.and_false, if_neg Bool.false_ne_true, hcopy]

/-! ### The log -/

/-- The buffer is the latest thousand records in their order; the pages of a query, of up to two
hundred records, make up the newest first of the records that satisfy its filters, as many as it
says; of data that are not falsy all is kept up to JSON but what is under the key of a secret. -/
theorem log_keeps_and_shows (cls : DecimalClass D) (toLowerCase toUpperCase : String → String)
    (entries : List (Entry D)) :
    (bufferAfter cls toLowerCase entries = latest 1000 (entries.map (recordOf cls toLowerCase)) ∧
      (bufferAfter cls toLowerCase entries).length = min entries.length 1000) ∧
    (∀ (params : AuditLogQueryParams) (limit : ℕ), 1 ≤ limit → limit ≤ 200 →
      (∀ m, ((bufferAfter cls toLowerCase entries).reverse.filter
          (satisfies toLowerCase toUpperCase params)).length ≤ m * limit →
        (List.range m).flatMap (fun k =>
            (query toLowerCase toUpperCase (bufferAfter cls toLowerCase entries)
              (pageOf params limit (k * limit))).items) =
          (bufferAfter cls toLowerCase entries).reverse.filter
            (satisfies toLowerCase toUpperCase params)) ∧
      ∀ skip, (query toLowerCase toUpperCase (bufferAfter cls toLowerCase entries)
          (pageOf params limit skip)).total =
        ((bufferAfter cls toLowerCase entries).reverse.filter
          (satisfies toLowerCase toUpperCase params)).length) ∧
    ∀ entry : Entry D,
      (∀ p s v, isRedacted toLowerCase s = true →
        At (p ++ [s]) (recordOf cls toLowerCase entry).data v →
        v = .leaf (.string redacted)) ∧
      (truthy entry.data = true → ∀ copy, upToJson cls entry.data = some copy →
        ∀ p, (∀ s ∈ p, isRedacted toLowerCase s = false) → ∀ a,
          At p (recordOf cls toLowerCase entry).data (.leaf a) ↔ At p copy (.leaf a)) := by
  refine ⟨⟨bufferAfter_eq cls toLowerCase entries, ?_⟩,
    fun params limit h h' => ⟨fun m hm => ?_, fun skip => ?_⟩,
    fun entry => ⟨fun p s v => secret_is_mark entry, fun htruthy copy hcopy p hp =>
      kept_leaf_iff htruthy hcopy hp⟩⟩
  · rw [bufferAfter_eq, length_latest, List.length_map]
    rfl
  · simp only [items_pageOf h h']
    exact pages_eq hm
  · exact total_pageOf _ params limit skip

def noDecimals : DecimalClass Empty := ⟨Empty.elim, Empty.elim, Empty.elim, Empty.elim, Empty.elim⟩

/-- An entry with `false` for its data. -/
def withFalse : Entry Empty where
  id := "b"
  timestamp := "2026-01-01T00:00:00.000Z"
  level := .info
  context := "Auditoría"
  message := "Estado"
  correlationId := none
  data := .leaf (.boolean false)

def everything : AuditLogQueryParams := ⟨none, none, none, none, none⟩

def busy : List (AuditLogEntry Empty) := bufferAfter noDecimals id (List.replicate 202 withFalse)

/-- Pages of 201 lose a record, and data that are falsy are not kept. -/
theorem cut_pages_and_falsy_data :
    ((List.range 2).flatMap fun k =>
      (query id id busy (pageOf everything 201 (k * 201))).items).length = 201 ∧
      (query id id busy (pageOf everything 201 0)).total = 202 ∧
      upToJson noDecimals withFalse.data = some (.leaf (.boolean false)) ∧
      (recordOf noDecimals id withFalse).data = .leaf .undefined := by
  refine ⟨?_, ?_, rfl, rfl⟩ <;> decide +kernel

end Livora.AuditLogs
