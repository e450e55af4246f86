import Livora.ResponsePasses

/-! The body of a guarded request as it is answered at first and as it is answered again. It is kept
as JSON before the Decimals are made numbers, and read back before that is done again. -/

namespace Livora.ReplayedBodies

open DoubleRounding NumberTexts ValueTrees ValueTrees.Tree ResponsePasses

inductive JsonLeaf where
  | null
  | boolean (b : Bool)
  | number (x : Double)
  | string (s : String)
deriving DecidableEq

abbrev Json := Tree String JsonLeaf

structure Status where
  code : Double
  valid : 100 ≤ code.val

section Interceptor

variable {D : Type} (cls : DecimalClass D)

/-! ### JSON -/

def jsonNumber : ScriptNumber → Json
  | .finite x => .leaf (.number x)
  | _ => .leaf .null

/-- A leaf in JSON; what has none leaves its entry out. -/
def jsonLeaf : Leaf D → Option Json
  | .undefined => none
  | .function => none
  | .null => some (.leaf .null)
  | .boolean b => some (.leaf (.boolean b))
  | .number x => some (jsonNumber x)
  | .string s => some (.leaf (.string s))
  | .date none => some (.leaf .null)
  | .date (some iso) => some (.leaf (.string iso))
  | .buffer bytes => some (.object [("type", .leaf (.string "Buffer")),
      ("data", .array (bytes.map fun byte => jsonNumber (.ofRat byte.toNat)))])
  | .decimal x => some (.leaf (.string (cls.toJSON x)))

/-- `JSON.stringify(value)`, by the value that the text stands for. -/
def stringify (key : Option String) : Response D → Option Json :=
  walk (fun _ => true) (.leaf .null) (fun _ a => jsonLeaf cls a) key

def parseLeaf : JsonLeaf → Leaf D
  | .null => .null
  | .boolean b => .boolean b
  | .number x => .number (.finite x)
  | .string s => .string s

/-- `JSON.parse(text)` -/
def parse (key : Option String) : Json → Option (Response D) :=
  walk (fun _ => true) (.leaf .null) (fun _ a => some (.leaf (parseLeaf a))) key

/-! ### The interceptor -/

/-- `value.key`, of an own property. -/
def field (key : String) : Response D → Response D
  | .object entries => (entries.lookup key).getD (.leaf .undefined)
  | _ => .leaf .undefined

def cachedOf (status : Status) (responseBody : Response D) : Option Json :=
  stringify cls none
    (.object [("statusCode", .leaf (.number (.finite status.code))), ("body", responseBody)])

/-- `parsed.statusCode || 200` -/
def statusOf (parsed : Response D) : ScriptNumber :=
  match field "statusCode" parsed with
  | .leaf (.number (.finite x)) => if x.val = 0 then .ofRat 200 else .finite x
  | _ => .ofRat 200

/-- `parsed.body !== undefined ? parsed.body : parsed` -/
def bodyOf (parsed : Response D) : Response D :=
  match field "body" parsed with
  | .leaf .undefined => parsed
  | body => body

/-! ### The reply -/

/-- What is sent: nothing, a text or bytes as they are, or JSON. -/
inductive Sent where
  | empty
  | text (s : String)
  | bytes (content : List UInt8)
  | json (value : Json)

def sendJson : Option Json → Sent
  | some value => .json value
  | none => .empty

def send : Response D → Sent
  | .leaf .undefined => .empty
  | .leaf .null => .empty
  | .leaf (.string s) => .text s
  | .leaf (.buffer bytes) => .bytes bytes
  | body => sendJson (stringify cls none body)

def reply (status : ScriptNumber) (body : Response D) : Option (ScriptNumber × Sent) :=
  (transformDecimal cls none body).map fun body => (status, send cls body)

def original (status : Status) (responseBody : Response D) : Option (ScriptNumber × Sent) :=
  reply cls (.finite status.code) responseBody

def replayed (status : Status) (responseBody : Response D) : Option (ScriptNumber × Sent) := do
  let cached ← cachedOf cls status responseBody
  let parsed : Response D ← parse none cached
  reply cls (statusOf parsed) (bodyOf parsed)

end Interceptor

variable {D : Type} {cls : DecimalClass D} {status : Status} {j : Json} {b v : Response D}
    {a : Leaf D}

/-! ### What is shown of a leaf -/

def shown (cls : DecimalClass D) (key : Option String) (v : Response D) : Option Json :=
  (transformDecimal cls key v).bind (stringify cls key)

def shownBack (cls : DecimalClass D) (key : Option String) (j : Json) : Option Json :=
  (parse key j).bind (shown cls key)

def shownAgain (cls : DecimalClass D) (key : Option String) (v : Response D) : Option Json :=
  (stringify cls key v).bind (shownBack cls key)

theorem shown_eq (cls : DecimalClass D) (key : Option String) :
    shown cls key = walk assigned (.leaf .null)
    (fun key a => stringify cls key (transformLeaf cls a)) key := by
  funext v
  unfold shown transformDecimal stringify
  rw [walk_walk assigned _ _ _ _ _ rfl]
  simp only [Bool.and_true, Option.bind_some]

theorem shownBack_eq (cls : DecimalClass D) (key : Option String) :
    shownBack cls key =
      walk assigned (.leaf .null) (fun key a => shown cls key (.leaf (parseLeaf a))) key := by
  funext j
  unfold shownBack parse
  rw [shown_eq, walk_walk _ assigned _ _ _ _ rfl]
  simp only [Bool.true_and, Option.bind_some, shown_eq]

theorem shownAgain_eq (cls : DecimalClass D) (key : Option String) :
    shownAgain cls key =
      walk assigned (.leaf .null) (fun key a => (jsonLeaf cls a).bind (shownBack cls key)) key := by
  funext v
  unfold shownAgain stringify
  rw [shownBack_eq, walk_walk _ assigned _ _ _ _ rfl]
  simp only [Bool.true_and, shownBack_eq]

theorem buffer_ne (bytes : List UInt8) (key : Option String) :
    (jsonLeaf cls (.buffer bytes)).bind (shownBack cls key) ≠
      stringify cls key (transformLeaf cls (.buffer bytes)) := by
  intro h
  cases bytes with
  | nil => cases Option.some.inj h
  | cons byte bytes =>
    have hentries := Tree.object.inj (Option.some.inj h)
    have hkey : "type" = toString 0 := congrArg (fun entry => entry.1) (List.cons.inj hentries).1
    exact absurd hkey (by decide)

theorem leaf_iff (key : Option String) (a : Leaf D) :
    (jsonLeaf cls a).bind (shownBack cls key) = stringify cls key (transformLeaf cls a) ↔
      untouched a = true := by
  cases a with
  | number x => cases x <;> exact iff_of_true rfl rfl
  | date iso => cases iso <;> exact iff_of_true rfl rfl
  | buffer bytes => exact iff_of_false (buffer_ne bytes key) Bool.false_ne_true
  | decimal x =>
    refine iff_of_false (fun h => ?_) Bool.false_ne_true
    have hnumber : (.leaf (.string (cls.toJSON x)) : Json) = jsonNumber (cls.toNumber x) :=
      Option.some.inj h
    cases hx : cls.toNumber x <;> rw [hx] at hnumber <;> cases hnumber
  | _ => exact iff_of_true rfl rfl

theorem isSome_leaf (key : Option String) (a : Leaf D) :
    ((jsonLeaf cls a).bind (shownBack cls key)).isSome =
      (stringify cls key (transformLeaf cls a)).isSome := by
  cases a with
  | number x => cases x <;> rfl
  | date iso => cases iso <;> rfl
  | _ => rfl

theorem shownAgain_iff (v : Response D) :
    shownAgain cls none v = shown cls none v ↔ ∀ leaf ∈ leaves assigned none v,
      untouched leaf.2 = true := by
  have hkeys : ∀ key ∈ keys assigned v, assigned key = true := fun _ => keep_of_mem_keys
  rw [shownAgain_eq, shown_eq, walk_eq_walk_iff (fun _ h => h) isSome_leaf fun key h h' => by
    rw [h] at h'; cases h']
  simp only [leaf_iff]
  exact and_iff_right hkeys

/-! ### The replies -/

theorem stringify_key (cls : DecimalClass D) (key : Option String) (v : Response D) :
    stringify cls key v = stringify cls none v := by
  cases v <;> rfl

theorem parse_key (key : Option String) : (parse key j : Option (Response D)) = parse none j := by
  cases j <;> rfl

theorem cachedOf_eq (cls : DecimalClass D) (status : Status) (v : Response D) :
    cachedOf cls status v = some (.object (("statusCode", .leaf (.number status.code)) ::
      ((stringify cls none v).map fun j => ("body", j)).toList)) := by
  rw [← stringify_key cls (some "body")]
  simp [cachedOf, stringify, walk, walkEntries, jsonLeaf, jsonNumber]

theorem statusOf_parsed (status : Status) (entries : List (String × Response D)) :
    statusOf (.object (("statusCode", .leaf (.number (.finite status.code))) :: entries)) =
      .finite status.code := by
  have hne : status.code.val ≠ 0 := fun h => by
    have hvalid := status.valid
    rw [h] at hvalid
    norm_num at hvalid
  simp [statusOf, field, hne]

theorem parse_ne_undefined (h : (parse none j : Option (Response D)) = some b) :
    b ≠ .leaf .undefined := by
  rintro rfl
  cases j with
  | leaf a => cases a <;> cases Option.some.inj h
  | array items => cases Option.some.inj h
  | object entries => cases Option.some.inj h

theorem bodyOf_parsed (status : Status) (h : b ≠ .leaf .undefined) :
    bodyOf (.object [("statusCode", .leaf (.number (.finite status.code))), ("body", b)]) = b := by
  have hfield : field "body"
    (.object [("statusCode", .leaf (.number (.finite status.code))), ("body", b)]) = b := by
    simp [field, List.lookup_cons]
  rw [bodyOf, hfield]
  cases b with
  | leaf a =>
    cases a with
    | undefined => exact absurd rfl h
    | _ => rfl
  | array items => rfl
  | object entries => rfl

theorem replayed_of_kept (hj : stringify cls none v = some j) (hb : parse none j = some b) :
    replayed cls status v = reply cls (.finite status.code) b := by
  have hparse : (parse none (.object [("statusCode", .leaf (.number status.code)), ("body", j)]) :
      Option (Response D)) = some (.object (("statusCode", .leaf (.number (.finite status.code))) ::
        (((parse (some "body") j).map fun b => ("body", b)).toList ++ []))) := rfl
  rw [parse_key (some "body"), hb] at hparse
  rw [replayed, cachedOf_eq, hj]
  simp only [Option.map_some, Option.toList_some, Option.bind_eq_bind, Option.bind_some, hparse,
    List.append_nil, statusOf_parsed, bodyOf_parsed status (parse_ne_undefined hb)]

theorem replayed_of_missing (h : stringify cls none v = none) :
    replayed cls status v =
      some (.finite status.code,
        .json (.object [("statusCode", .leaf (.number status.code))])) := by
  have hparse : (parse none (.object [("statusCode", .leaf (.number status.code))]) : Option
    (Response D)) =
      some (.object [("statusCode", .leaf (.number (.finite status.code)))]) := rfl
  rw [replayed, cachedOf_eq, h]
  simp only [Option.map_none, Option.toList_none, Option.bind_eq_bind, Option.bind_some, hparse,
    statusOf_parsed]
  rfl

/-- A body that a replay sends as JSON of its own, or as the text or the nothing that it is. -/
def scalar : Leaf D → Bool
  | .null => true
  | .boolean _ => true
  | .number (.finite _) => true
  | .string _ => true
  | _ => false

/-- The bodies that are answered again as they were. -/
def Replayable : Response D → Prop
  | .leaf a => scalar a = true
  | v => ∀ leaf ∈ leaves assigned none v, untouched leaf.2 = true

theorem sent_eq_iff {o o' : Option Json} (s : ScriptNumber) (h : o.isSome = true)
    (h' : o'.isSome = true) :
    some (s, sendJson o) = some (s, sendJson o') ↔ o = o' := by
  obtain ⟨value, rfl⟩ := Option.isSome_iff_exists.mp h
  obtain ⟨value', rfl⟩ := Option.isSome_iff_exists.mp h'
  simp [sendJson]

theorem replayed_leaf_iff (cls : DecimalClass D) (status : Status) (a : Leaf D) :
    replayed cls status (.leaf a) = original cls status (.leaf a) ↔ scalar a = true := by
  cases a with
  | undefined =>
    rw [replayed_of_missing rfl]
    exact iff_of_false (fun h => by cases h) Bool.false_ne_true
  | function =>
    rw [replayed_of_missing rfl]
    exact iff_of_false (fun h => by cases h) Bool.false_ne_true
  | null => exact iff_of_true (replayed_of_kept rfl rfl) rfl
  | boolean x => exact iff_of_true (replayed_of_kept rfl rfl) rfl
  | string s => exact iff_of_true (replayed_of_kept rfl rfl) rfl
  | number x =>
    cases x with
    | finite x => exact iff_of_true (replayed_of_kept rfl rfl) rfl
    | nan =>
      rw [replayed_of_kept rfl rfl]
      exact iff_of_false (fun h => by cases h) Bool.false_ne_true
    | infinite negative =>
      rw [replayed_of_kept rfl rfl]
      exact iff_of_false (fun h => by cases h) Bool.false_ne_true
  | date iso =>
    cases iso with
    | none =>
      rw [replayed_of_kept rfl rfl]
      exact iff_of_false (fun h => by cases h) Bool.false_ne_true
    | some iso =>
      rw [replayed_of_kept rfl rfl]
      exact iff_of_false (fun h => by cases h) Bool.false_ne_true
  | decimal x =>
    rw [replayed_of_kept rfl rfl]
    refine iff_of_false (fun h => ?_) Bool.false_ne_true
    cases (Prod.mk.inj (Option.some.inj h)).2
  | buffer bytes =>
    rw [replayed_of_kept rfl rfl]
    refine iff_of_false (fun h => ?_) Bool.false_ne_true
    have hsent := (Prod.mk.inj (Option.some.inj h)).2
    exact buffer_ne bytes none (congrArg some (Sent.json.inj hsent))

/-- The reply to a replay has the status and the body of the first, exactly for a scalar that JSON
has and for an array or an object without Decimals and Buffers in it. -/
theorem replayed_eq_original_iff (cls : DecimalClass D) (status : Status) (v : Response D) :
    replayed cls status v = original cls status v ↔ Replayable v := by
  cases v with
  | leaf a => exact replayed_leaf_iff cls status a
  | array items =>
    have hagain : (shownAgain cls none (.array items)).isSome = true := rfl
    have hshown : (shown cls none (.array items)).isSome = true := rfl
    rw [replayed_of_kept rfl rfl]
    exact (sent_eq_iff (.finite status.code) hagain hshown).trans (shownAgain_iff (.array items))
  | object entries =>
    have hagain : (shownAgain cls none (.object entries)).isSome = true := rfl
    have hshown : (shown cls none (.object entries)).isSome = true := rfl
    rw [replayed_of_kept rfl rfl]
    exact (sent_eq_iff (.finite status.code) hagain hshown).trans (shownAgain_iff (.object entries))

/-! ### A missing body and a price -/

theorem created_lt : 201 < 2 ^ 53 := by norm_num

theorem created_valid : (100 : ℚ) ≤ (Double.ofNat 201 created_lt).val := by
  norm_num [Double.ofNat]

def created : Status := ⟨Double.ofNat 201 created_lt, created_valid⟩

def order : List (String × Response Unit) := [("total", .leaf (.decimal ()))]

/-- Nothing is answered with a status the second time, and a number with a text. -/
theorem replayed_off :
    replayed price created (.leaf .undefined) ≠ original price created (.leaf .undefined) ∧
      replayed price created (.object order) ≠ original price created (.object order) := by
  constructor
  · rw [replayed_of_missing rfl]
    intro h
    cases h
  · rw [replayed_of_kept rfl rfl]
    intro h
    have hagain : (shownAgain price none (.object order)).isSome = true := rfl
    have hshown : (shown price none (.object order)).isSome = true := rfl
    have hsame := (sent_eq_iff (.finite created.code) hagain hshown).mp h
    exact Bool.false_ne_true ((shownAgain_iff (.object order)).mp hsame (some "total", .decimal ())
      List.mem_cons_self)

end Livora.ReplayedBodies
