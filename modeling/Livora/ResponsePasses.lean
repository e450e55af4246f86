import Livora.NumberTexts
import Livora.ValueTrees

/-! The two passes over a response: the controller's, which makes links of IPFS names, and the
global one after it, which makes numbers of Decimals. Each rebuilds what it takes for a plain
object, and each has a list of its own of what it does not. -/

namespace Livora.ResponsePasses

open DoubleRounding NumberTexts ValueTrees ValueTrees.Tree

structure DecimalClass (D : Type) where
  toNumber : D → ScriptNumber
  toJSON : D → String
  s : D → ScriptNumber
  e : D → ScriptNumber
  d : D → Option (List ScriptNumber)

/-- A leaf of a response; of a Date the text that it has in JSON, none of an invalid one. -/
inductive Leaf (D : Type) where
  | undefined
  | null
  | boolean (b : Bool)
  | number (x : ScriptNumber)
  | string (s : String)
  | date (iso : Option String)
  | buffer (bytes : List UInt8)
  | decimal (d : D)
  | function
deriving DecidableEq

abbrev Response (D : Type) := Tree String (Leaf D)

/-- An assignment under `__proto__` makes no entry. -/
def assigned (key : String) : Bool := decide (key ≠ "__proto__")

/-! ### The links -/

def ipfsKeys : List String := ["ipfsCid", "ipfsHash", "photoUrl"]

/-- `[1-9A-HJ-NP-Za-km-z]` -/
def isBase58 (c : Char) : Bool :=
  c.isAlphanum && !decide (c ∈ ['0', 'I', 'O', 'l'])

/-- `[a-z0-9]` -/
def isLowerOrDigit (c : Char) : Bool := c.isLower || c.isDigit

def isCidV0 (value : List Char) : Bool :=
  ['Q', 'm'].isPrefixOf value && decide (value.length = 46) && (value.drop 2).all isBase58

def isCidV1 (value : List Char) : Bool :=
  ['b', 'a', 'f', 'y'].isPrefixOf value && decide (value.length = 59) &&
    (value.drop 4).all isLowerOrDigit

def ipfsScheme : List Char := ['i', 'p', 'f', 's', ':', '/', '/']

def shouldFormatField (key : String) (value : List Char) : Bool :=
  decide (key ∈ ipfsKeys) || ipfsScheme.isPrefixOf value || isCidV0 value || isCidV1 value

def ipfsPath : List Char := ['/', 'i', 'p', 'f', 's', '/']

/-- The last part of the text between separators, from left to right; none without a separator. -/
def lastPart (separator : List Char) : ℕ → List Char → Option (List Char)
  | _, [] => none
  | skip + 1, _ :: rest => lastPart separator skip rest
  | 0, c :: rest =>
    if separator.isPrefixOf (c :: rest) then
      (lastPart separator (separator.length - 1) rest).or (some ((c :: rest).drop separator.length))
    else lastPart separator 0 rest

def isUrl (value : List Char) : Bool :=
  "http://".toList.isPrefixOf value || "https://".toList.isPrefixOf value

def formatIpfsUrl (gatewayUrl value : List Char) : List Char :=
  if value = [] then value
  else if isUrl value then
    match lastPart ipfsPath 0 value with
    | some cid => gatewayUrl ++ cid
    | none => value
  else
    let cleanVal := if ipfsScheme.isPrefixOf value then value.drop ipfsScheme.length else value
    gatewayUrl ++ if "ipfs/".toList.isPrefixOf cleanVal then cleanVal.drop 5 else cleanVal

/-- The configured gateway or the one of the laboratory, with a slash at its end. -/
def gatewayOf (configured : String) : List Char :=
  let gateway := if configured = "" then "https://grupolivoralabs.com/ipfs/" else configured
  if ['/'].isSuffixOf gateway.toList then gateway.toList else gateway.toList ++ ['/']

section Passes

variable {D : Type} (cls : DecimalClass D) (gatewayUrl : List Char)

def formatString (key value : String) : String :=
  if shouldFormatField key value.toList then String.ofList
    (formatIpfsUrl gatewayUrl value.toList) else value

/-- The own properties of a Decimal. No string is among them, so they are left as they are. -/
def ownFields (x : D) : List (String × Response D) :=
  [("constructor", .leaf .function), ("s", .leaf (.number (cls.s x))),
    ("e", .leaf (.number (cls.e x))),
   ("d", match cls.d x with
    | some words => .array (words.map fun word => .leaf (.number word))
    | none => .leaf .null)]

def formatLeaf (key : Option String) : Leaf D → Response D
  | .string value =>
    match key with
    | some key => .leaf (.string (formatString gatewayUrl key value))
    | none => .leaf (.string value)
  | .decimal x => .object (ownFields cls x)
  | a => .leaf a

/-- `IpfsGatewayInterceptor`; a pass never comes to nothing. -/
def formatResponse : Response D → Option (Response D) :=
  walk assigned (.leaf .null) (fun key a => some (formatLeaf cls gatewayUrl key a)) none

def byteEntries (bytes : List UInt8) : List (String × Response D) :=
  bytes.zipIdx.map fun byte => (toString byte.2, .leaf (.number (.ofRat byte.1.toNat)))

def transformLeaf : Leaf D → Response D
  | .decimal x => .leaf (.number (cls.toNumber x))
  | .buffer bytes => .object (byteEntries bytes)
  | a => .leaf a

/-- `DecimalTransformInterceptor` -/
def transformDecimal (key : Option String) : Response D → Option (Response D) :=
  walk assigned (.leaf .null) (fun _ a => some (transformLeaf cls a)) key

/-- The response of a controller with `@IpfsTransform`. -/
def respond (data : Response D) : Option (Response D) :=
  (formatResponse cls gatewayUrl data).bind (transformDecimal cls none)

def isCid (value : String) : Bool := isCidV0 value.toList || isCidV1 value.toList

/-- A CID under an IPFS field becomes the gateway with the CID behind it, and no other string
changes. -/
def intendedString (key value : String) : String :=
  if key ∈ ipfsKeys ∧ isCid value = true then String.ofList (gatewayUrl ++ value.toList) else value

/-- What is meant to become of a leaf: numbers of Decimals, links of CIDs. -/
def intendedLeaf (key : Option String) : Leaf D → Response D
  | .string value =>
    match key with
    | some key => .leaf (.string (intendedString gatewayUrl key value))
    | none => .leaf (.string value)
  | .decimal x => .leaf (.number (cls.toNumber x))
  | a => .leaf a

/-- The response with its leaves as they are meant to be, and its shape as it was. -/
def intended (data : Response D) : Option (Response D) :=
  walk (fun _ => true) (.leaf .null) (fun key a =>
    some (intendedLeaf cls gatewayUrl key a)) none data

end Passes

variable {D : Type} {cls : DecimalClass D} {gatewayUrl value : List Char} {key : String}
    {a : Leaf D}

/-! ### Names and links -/

theorem not_isPrefixOf {c c' : Char} {p rest : List Char} (h : c ≠ c') :
    (c :: p).isPrefixOf (c' :: rest) = false := by
  simp [List.isPrefixOf, h]

theorem head_of_cid (h : isCidV0 value = true ∨ isCidV1 value = true) :
    ∃ c rest, value = c :: rest ∧ c ≠ 'h' ∧ c ≠ 'i' := by
  have hstart : ['Q', 'm'] <+: value ∨ ['b', 'a', 'f', 'y'] <+: value := by
    simp only [isCidV0, isCidV1, Bool.and_eq_true, List.isPrefixOf_iff_prefix] at h
    exact h.imp (fun h => h.1.1) fun h => h.1.1
  rcases hstart with ⟨rest, rfl⟩ | ⟨rest, rfl⟩
  · exact ⟨'Q', _, rfl, by decide, by decide⟩
  · exact ⟨'b', _, rfl, by decide, by decide⟩

theorem formatString_cid (key : String) {cid : String}
    (h : isCidV0 cid.toList = true ∨ isCidV1 cid.toList = true) :
    formatString gatewayUrl key cid = String.ofList (gatewayUrl ++ cid.toList) := by
  have hformat : shouldFormatField key cid.toList = true := by
    rcases h with h | h <;> simp [shouldFormatField, h]
  obtain ⟨c, rest, hcid, hh, hi⟩ := head_of_cid h
  have hurl : isUrl (c :: rest) = false := by
    have hh := hh.symm
    simp [isUrl, List.isPrefixOf, hh]
  have hscheme : ipfsScheme.isPrefixOf (c :: rest) = false := not_isPrefixOf hi.symm
  have hpath : "ipfs/".toList.isPrefixOf (c :: rest) = false := not_isPrefixOf hi.symm
  have hlink : formatIpfsUrl gatewayUrl cid.toList = gatewayUrl ++ cid.toList := by
    simp only [hcid, formatIpfsUrl, if_neg (List.cons_ne_nil _ _), hurl, hscheme, hpath,
      if_neg Bool.false_ne_true]
  rw [formatString, if_pos hformat, hlink]

/-- A text without the scheme and without the path of IPFS at its start. -/
def bare (value : List Char) : List Char :=
  let cleanVal := if ipfsScheme.isPrefixOf value then value.drop ipfsScheme.length else value
  if "ipfs/".toList.isPrefixOf cleanVal then cleanVal.drop 5 else cleanVal

/-- The text under the key is none that is taken for a place in IPFS; or it is empty, an address
outside IPFS, or the gateway's own link of a place. -/
def Stays (gatewayUrl : List Char) (key : String) (value : List Char) : Prop :=
  shouldFormatField key value = false ∨ value = [] ∨
    isUrl value = true ∧ (∀ cid ∈ lastPart ipfsPath 0 value, value = gatewayUrl ++ cid) ∨
    isUrl value = false ∧ value = gatewayUrl ++ bare value

theorem formatIpfsUrl_eq_self_iff : formatIpfsUrl gatewayUrl value = value ↔ value = [] ∨
    isUrl value = true ∧ (∀ cid ∈ lastPart ipfsPath 0 value, value = gatewayUrl ++ cid) ∨
    isUrl value = false ∧ value = gatewayUrl ++ bare value := by
  unfold formatIpfsUrl
  by_cases hempty : value = []
  · simp [hempty]
  · rw [if_neg hempty]
    cases hurl : isUrl value with
    | true =>
      rw [if_pos rfl]
      cases lastPart ipfsPath 0 value with
      | none => simp
      | some cid => simp [hempty, eq_comm]
    | false =>
      rw [if_neg Bool.false_ne_true]
      change gatewayUrl ++ bare value = value ↔ _
      simp [hempty, eq_comm]

theorem formatString_eq_self_iff {text : String} :
    formatString gatewayUrl key text = text ↔ Stays gatewayUrl key text.toList := by
  unfold formatString Stays
  cases hformat : shouldFormatField key text.toList with
  | false => simp
  | true =>
    have hlist : String.ofList (formatIpfsUrl gatewayUrl text.toList) = text ↔
        formatIpfsUrl gatewayUrl text.toList = text.toList := by
      rw [← String.toList_inj, String.toList_ofList]
    rw [if_pos rfl, hlist, formatIpfsUrl_eq_self_iff]
    simp

theorem formatString_iff {text : String} :
    formatString gatewayUrl key text = intendedString gatewayUrl key text ↔
      key ∈ ipfsKeys ∧ isCid text = true ∨ Stays gatewayUrl key text.toList := by
  unfold intendedString
  by_cases hcid : key ∈ ipfsKeys ∧ isCid text = true
  · rw [if_pos hcid]
    refine iff_of_true (formatString_cid key ?_) (.inl hcid)
    simpa [isCid] using hcid.2
  · rw [if_neg hcid, formatString_eq_self_iff, or_iff_right hcid]

/-! ### The passes together -/

def untouched : Leaf D → Bool
  | .decimal _ => false
  | .buffer _ => false
  | _ => true

theorem respond_eq (cls : DecimalClass D) (gatewayUrl : List Char) (data : Response D) :
    respond cls gatewayUrl data =
      walk assigned (.leaf .null)
      (fun key a => transformDecimal cls key (formatLeaf cls gatewayUrl key a))
        none data := by
  unfold respond formatResponse transformDecimal
  rw [walk_walk assigned assigned _ _ _ _ rfl]
  simp only [Bool.and_self, Option.bind_some]

/-- A leaf that the passes do with as is meant: neither a Decimal nor a Buffer, and under a key no
string but a CID under an IPFS field or one that stays. -/
def Unharmed (gatewayUrl : List Char) (key : Option String) (a : Leaf D) : Prop :=
  untouched a = true ∧ ∀ name ∈ key, ∀ text, a = .string text →
    name ∈ ipfsKeys ∧ isCid text = true ∨ Stays gatewayUrl name text.toList

theorem unharmed_of_ne (huntouched : untouched a = true) (h : ∀ text, a ≠ .string text)
    (key : Option String) :
    Unharmed gatewayUrl key a :=
  ⟨huntouched, fun _ _ text ha => absurd ha (h text)⟩

theorem leaf_iff (key : Option String) (a : Leaf D) :
    transformDecimal cls key (formatLeaf cls gatewayUrl key a) =
      some (intendedLeaf cls gatewayUrl key a) ↔
      Unharmed gatewayUrl key a := by
  cases a with
  | decimal x =>
    refine iff_of_false (fun h => ?_) fun h => Bool.false_ne_true h.1
    cases Option.some.inj h
  | buffer bytes =>
    refine iff_of_false (fun h => ?_) fun h => Bool.false_ne_true h.1
    cases Option.some.inj h
  | string text =>
    cases key with
    | none => exact iff_of_true rfl ⟨rfl, fun _ hname => by cases hname⟩
    | some key =>
      have hleaf : transformDecimal cls (some key)
        (formatLeaf cls gatewayUrl (some key) (.string text)) =
          some (.leaf (.string (formatString gatewayUrl key text))) := rfl
      have hunharmed : Unharmed gatewayUrl (some key) (.string text : Leaf D) ↔
          key ∈ ipfsKeys ∧ isCid text = true ∨ Stays gatewayUrl key text.toList := by
        simp [Unharmed, untouched]
      rw [hleaf, intendedLeaf, hunharmed, ← formatString_iff]
      simp
  | _ => exact iff_of_true rfl (unharmed_of_ne rfl (fun _ h => by cases h) key)

/-- The passes do to a response what they are meant to, exactly when no object of it has a key
`__proto__` and every leaf is unharmed. -/
theorem respond_intended_iff (cls : DecimalClass D) (gatewayUrl : List Char) (data : Response D) :
    respond cls gatewayUrl data = intended cls gatewayUrl data ↔
      (∀ key ∈ keys (fun _ => true) data, key ≠ "__proto__") ∧
        ∀ leaf ∈ leaves (fun _ => true) none data, Unharmed gatewayUrl leaf.1 leaf.2 := by
  have hsome (key : Option String) (a : Leaf D) :
      (transformDecimal cls key (formatLeaf cls gatewayUrl key a)).isSome =
        (some (intendedLeaf cls gatewayUrl key a)).isSome := by
    cases a with
    | string value => cases key <;> rfl
    | _ => rfl
  rw [respond_eq, intended, walk_eq_walk_iff (fun _ _ => rfl) hsome fun _ _ _ _ _ => rfl]
  simp only [leaf_iff, assigned, decide_eq_true_eq]

/-! ### A price -/

def price : DecimalClass Unit where
  toNumber _ := .ofRat (25 / 2)
  toJSON _ := "12.5"
  s _ := .ofRat 1
  e _ := .ofRat 1
  d _ := some [.ofRat 12, .ofRat 5000000]

/-- A Decimal comes out as an object of its parts, a Buffer as one of its bytes. -/
theorem respond_off :
    respond price (gatewayOf "") (.object [("agreedPrice", .leaf (.decimal ()))]) ≠
        intended price (gatewayOf "") (.object [("agreedPrice", .leaf (.decimal ()))]) ∧
      respond price (gatewayOf "") (.object [("qr", .leaf (.buffer [1]))]) ≠
        intended price (gatewayOf "") (.object [("qr", .leaf (.buffer [1]))]) := by
  constructor
  · intro h
    cases h
  · intro h
    cases h

end Livora.ResponsePasses
