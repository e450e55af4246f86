import Livora.TextEncodings

/-! The texts that `CryptoUtil` writes and reads, digit by digit. A record has four parts, an older
one three; what is sealed in it is bound to the bytes that the parts are read as, not to the digits
that spell them. -/

namespace Livora.KeyCiphers

open TextEncodings

/-- The module `crypto`: how keys are derived, the key stream of AES-256-GCM and its tag. -/
structure NodeCrypto where
  Key : Type
  pbkdf2Sync : (secretKey salt : Bytes) → Key
  sha256 : (secretKey : Bytes) → Key
  /-- Encryption and decryption are the same addition of the key stream. -/
  ctr : Key → (iv text : Bytes) → Bytes
  tag : Key → (iv encrypted : Bytes) → Bytes
  ctr_ctr : ∀ key iv text, ctr key iv (ctr key iv text) = text
  length_tag : ∀ key iv encrypted, (tag key iv encrypted).length = 16

variable (c : NodeCrypto)

/-- The lengths of a tag that `setAuthTag` takes. -/
def tagLengths : List ℕ := [4, 8, 12, 13, 14, 15, 16]

/-- A shorter tag is compared with the beginning of the whole one. -/
def decipher (key : c.Key) (iv authTag encrypted : Bytes) : Option Bytes :=
  if iv = [] ∨ authTag.length ∉ tagLengths then none
  else if authTag <+: c.tag key iv encrypted then some (c.ctr key iv encrypted) else none

/-! ### `CryptoUtil` -/

structure RandomBytes (n : ℕ) where
  bytes : Bytes
  length_bytes : bytes.length = n

def colon : UInt16 := 58

def textOf (s : String) : Text := toText s.toList

def legacySalt : Bytes := encodeUtf8 (textOf "livora_wallet_encryption_salt_kdf_v1")

def badFormat : String := "Invalid encrypted text format"

def refused : String := "No se pudo descifrar la información o la firma AuthTag no es válida"

def deriveKeyPbkdf2 (secretKey : Text) (salt : Bytes) : c.Key :=
  c.pbkdf2Sync (encodeUtf8 secretKey) salt

def deriveKeyLegacySha256 (secretKey : Text) : c.Key := c.sha256 (encodeUtf8 secretKey)

def joined (parts : List Text) : Text := [colon].intercalate parts

/-- `${saltHex}:${ivHex}:${authTagHex}:${encryptedHex}` -/
def encrypt (salt : RandomBytes 16) (iv : RandomBytes 12) (text secretKey : Text) : Text :=
  let key := deriveKeyPbkdf2 c secretKey salt.bytes
  let encrypted := c.ctr key iv.bytes (encodeUtf8 text)
  joined [toHex salt.bytes, toHex iv.bytes, toHex (c.tag key iv.bytes encrypted), toHex encrypted]

def decryptSalted (secretKey saltHex ivHex authTagHex encryptedText : Text) : Except String Bytes :=
  if saltHex.length ≠ 32 ∨ ivHex.length ≠ 24 ∨ authTagHex.length ≠ 32 then .error badFormat
  else
    match decipher c (deriveKeyPbkdf2 c secretKey (fromHex saltHex)) (fromHex ivHex)
      (fromHex authTagHex)
      (fromHex encryptedText) with
    | some decrypted => .ok decrypted
    | none => .error refused

/-- The key with the fixed salt first, and the plain digest where that one fails. -/
def decryptLegacy (secretKey ivHex authTagHex encryptedText : Text) : Except String Bytes :=
  if ivHex.length ≠ 24 ∨ authTagHex.length ≠ 32 then .error badFormat
  else
    match (decipher c (deriveKeyPbkdf2 c secretKey legacySalt) (fromHex ivHex) (fromHex authTagHex)
      (fromHex encryptedText)).or
        (decipher c (deriveKeyLegacySha256 c secretKey) (fromHex ivHex) (fromHex authTagHex)
          (fromHex encryptedText)) with
    | some decrypted => .ok decrypted
    | none => .error refused

def decryptToBuffer (encryptedFormat secretKey : Text) : Except String Bytes :=
  match encryptedFormat.splitOn colon with
  | [saltHex, ivHex, authTagHex, encryptedText] =>
    decryptSalted c secretKey saltHex ivHex authTagHex encryptedText
  | [ivHex, authTagHex, encryptedText] => decryptLegacy c secretKey ivHex authTagHex encryptedText
  | _ => .error badFormat

def decrypt (encryptedFormat secretKey : Text) : Except String Text :=
  (decryptToBuffer c encryptedFormat secretKey).map decodeUtf8

/-! ### What a text is opened with -/

structure Opening where
  key : c.Key
  iv : Bytes
  authTag : Bytes
  encrypted : Bytes

variable {c}

def Opening.made (key : c.Key) (iv : RandomBytes 12) (text : Text) : Opening c :=
  let encrypted := c.ctr key iv.bytes (encodeUtf8 text)
  ⟨key, iv.bytes, c.tag key iv.bytes encrypted, encrypted⟩

def Opening.under (o : Opening c) (key : c.Key) : Opening c := ⟨key, o.iv, o.authTag, o.encrypted⟩

def Opening.record (o : Opening c) : Text := joined [toHex o.iv, toHex o.authTag, toHex o.encrypted]

def Opening.opened (o : Opening c) : Option Bytes := decipher c o.key o.iv o.authTag o.encrypted

variable (c) in
/-- What a text is tried with, in this order; nothing where it has another shape. -/
def openings (encryptedFormat secretKey : Text) : List (Opening c) :=
  match encryptedFormat.splitOn colon with
  | [saltHex, ivHex, authTagHex, encryptedText] =>
    if saltHex.length = 32 ∧ ivHex.length = 24 ∧ authTagHex.length = 32 then
      [⟨deriveKeyPbkdf2 c secretKey (fromHex saltHex), fromHex ivHex, fromHex authTagHex,
        fromHex encryptedText⟩]
    else []
  | [ivHex, authTagHex, encryptedText] =>
    if ivHex.length = 24 ∧ authTagHex.length = 32 then
      [⟨deriveKeyPbkdf2 c secretKey legacySalt, fromHex ivHex, fromHex authTagHex,
        fromHex encryptedText⟩,
        ⟨deriveKeyLegacySha256 c secretKey, fromHex ivHex, fromHex authTagHex,
          fromHex encryptedText⟩]
    else []
  | _ => []

/-- The tag is that of no other key, initialization vector or ciphertext. -/
def Authentic (o : Opening c) : Prop :=
  ∀ key iv encrypted, c.tag key iv encrypted = o.authTag → key = o.key ∧ iv = o.iv ∧
    encrypted = o.encrypted

/-- Either the tag, a whole one, is another, or something else is. -/
def Altered (o o' : Opening c) : Prop :=
  o'.authTag.length = 16 ∧
    (o'.authTag ≠ o.authTag ∧ o'.key = o.key ∧ o'.iv = o.iv ∧ o'.encrypted = o.encrypted ∨
      o'.authTag = o.authTag ∧ ¬(o'.key = o.key ∧ o'.iv = o.iv ∧ o'.encrypted = o.encrypted))

section Records

variable {salt : RandomBytes 16} {iv : RandomBytes 12} {text secretKey encryptedFormat : Text}
    {o o' : Opening c}
  {key : c.Key}

theorem decryptToBuffer_ok {b : Bytes} : decryptToBuffer c encryptedFormat secretKey = .ok b ↔
    (openings c encryptedFormat secretKey).findSome? Opening.opened = some b := by
  unfold decryptToBuffer openings
  split
  · rename_i saltHex ivHex authTagHex encryptedText hparts
    unfold decryptSalted
    by_cases hshape : saltHex.length = 32 ∧ ivHex.length = 24 ∧ authTagHex.length = 32
    · rw [if_neg (by omega), if_pos hshape, List.findSome?_singleton]
      unfold Opening.opened
      cases decipher c (deriveKeyPbkdf2 c secretKey (fromHex saltHex)) (fromHex ivHex)
        (fromHex authTagHex)
          (fromHex encryptedText) with
      | some decrypted => simp
      | none => simp
    · rw [if_pos (by omega), if_neg hshape]
      simp
  · rename_i ivHex authTagHex encryptedText hparts
    unfold decryptLegacy
    by_cases hshape : ivHex.length = 24 ∧ authTagHex.length = 32
    · rw [if_neg (by omega), if_pos hshape, List.findSome?_cons, List.findSome?_singleton]
      unfold Opening.opened
      cases decipher c (deriveKeyPbkdf2 c secretKey legacySalt) (fromHex ivHex) (fromHex authTagHex)
          (fromHex encryptedText) with
      | some first => simp
      | none =>
        cases decipher c (deriveKeyLegacySha256 c secretKey) (fromHex ivHex) (fromHex authTagHex)
            (fromHex encryptedText) with
        | some second => simp
        | none => simp
    · rw [if_pos (by omega), if_neg hshape]
      simp
  · simp

theorem decryptToBuffer_of_no_openings (h : openings c encryptedFormat secretKey = []) :
    decryptToBuffer c encryptedFormat secretKey = .error badFormat := by
  unfold openings at h
  unfold decryptToBuffer
  split
  · rename_i saltHex ivHex authTagHex encryptedText hparts
    rw [hparts] at h
    dsimp only at h
    split at h
    · cases h
    · exact if_pos (by omega)
  · rename_i ivHex authTagHex encryptedText hparts
    rw [hparts] at h
    dsimp only at h
    split at h
    · cases h
    · exact if_pos (by omega)
  · rfl

/-! ### Opening what was sealed -/

theorem opened_made (key : c.Key) (iv : RandomBytes 12) (text : Text) :
    (Opening.made key iv text).opened = some (encodeUtf8 text) := by
  have hiv : iv.bytes ≠ [] := by
    intro h
    have hlength := iv.length_bytes
    rw [h] at hlength
    cases hlength
  unfold Opening.opened Opening.made decipher
  dsimp only
  rw [if_neg, if_pos (List.prefix_refl _), c.ctr_ctr]
  rw [c.length_tag]
  exact not_or.mpr ⟨hiv, by decide⟩

theorem opened_of_tag_ne (hlength : o.authTag.length = 16)
    (h : c.tag o.key o.iv o.encrypted ≠ o.authTag) :
    o.opened = none := by
  unfold Opening.opened decipher
  split
  · rfl
  · refine if_neg fun hprefix => h ?_
    have htag := List.IsPrefix.eq_of_length hprefix (by rw [hlength, c.length_tag])
    exact htag.symm

theorem opened_altered (hauth : Authentic (Opening.made key iv text))
    (h : Altered (Opening.made key iv text) o) : o.opened = none := by
  obtain ⟨hlength, h⟩ := h
  refine opened_of_tag_ne hlength fun htag => ?_
  rcases h with ⟨hne, hkey, hiv, hencrypted⟩ | ⟨hsame, hne⟩
  · rw [hkey, hiv, hencrypted] at htag
    exact hne htag.symm
  · exact hne (hauth _ _ _ (htag.trans hsame))

theorem hexValue_colon : hexValue colon = none := by decide

theorem splitOn_joined {l : List Bytes} (h : l ≠ []) :
    (joined (l.map toHex)).splitOn colon = l.map toHex := by
  refine List.splitOn_intercalate colon (fun part hpart => ?_) (by simpa using h)
  obtain ⟨bytes, -, rfl⟩ := List.mem_map.mp hpart
  exact not_mem_toHex hexValue_colon bytes

theorem splitOn_encrypt : (encrypt c salt iv text secretKey).splitOn colon =
    let made := Opening.made (deriveKeyPbkdf2 c secretKey salt.bytes) iv text
    [toHex salt.bytes, toHex made.iv, toHex made.authTag, toHex made.encrypted] :=
  splitOn_joined (l := [salt.bytes, _, _, _]) (List.cons_ne_nil _ _)

theorem splitOn_record :
    o.record.splitOn colon = [toHex o.iv, toHex o.authTag, toHex o.encrypted] :=
  splitOn_joined (l := [o.iv, o.authTag, o.encrypted]) (List.cons_ne_nil _ _)

theorem length_toHex_made (key : c.Key) (iv : RandomBytes 12) (text : Text) :
    (toHex (Opening.made key iv text).iv).length = 24 ∧
      (toHex (Opening.made key iv text).authTag).length = 32 := by
  rw [length_toHex, length_toHex]
  exact ⟨by rw [Opening.made, iv.length_bytes], by rw [Opening.made, c.length_tag]⟩

theorem openings_encrypt {other : Text} : openings c (encrypt c salt iv text secretKey) other =
    [(Opening.made (deriveKeyPbkdf2 c secretKey salt.bytes) iv text).under
      (deriveKeyPbkdf2 c other salt.bytes)] := by
  have hsalt : (toHex salt.bytes).length = 32 := by rw [length_toHex, salt.length_bytes]
  unfold openings
  rw [splitOn_encrypt]
  dsimp only
  rw [if_pos ⟨hsalt, length_toHex_made _ iv text⟩, fromHex_toHex, fromHex_toHex, fromHex_toHex,
    fromHex_toHex]
  rfl

theorem openings_record {other : Text} : openings c (Opening.made key iv text).record other =
    [(Opening.made key iv text).under (deriveKeyPbkdf2 c other legacySalt),
      (Opening.made key iv text).under (deriveKeyLegacySha256 c other)] := by
  unfold openings
  rw [splitOn_record]
  dsimp only
  rw [if_pos (length_toHex_made key iv text), fromHex_toHex, fromHex_toHex, fromHex_toHex]
  rfl

theorem altered_key {other : c.Key} (h : other ≠ key) :
    Altered (Opening.made key iv text) ((Opening.made key iv text).under other) :=
  ⟨c.length_tag _ _ _, .inr ⟨rfl, fun hsame => h hsame.1⟩⟩

theorem decrypt_of_opened {b : Bytes}
    (h : (openings c encryptedFormat secretKey).findSome? Opening.opened = some b) :
    decrypt c encryptedFormat secretKey = .ok (decodeUtf8 b) := by
  rw [decrypt, decryptToBuffer_ok.mpr h]
  rfl

theorem decrypt_of_refused (h : ∀ o ∈ openings c encryptedFormat secretKey, o.opened = none) :
    ∃ e, decrypt c encryptedFormat secretKey = .error e := by
  cases hresult : decryptToBuffer c encryptedFormat secretKey with
  | error e => exact ⟨e, by rw [decrypt, hresult]; rfl⟩
  | ok b =>
    obtain ⟨o, ho, hopened⟩ := List.exists_of_findSome?_eq_some (decryptToBuffer_ok.mp hresult)
    rw [h o ho] at hopened
    cases hopened

end Records

/-! ### The two formats -/

def Salted (encryptedFormat saltHex ivHex authTagHex encryptedText : Text) : Prop :=
  encryptedFormat.splitOn colon = [saltHex, ivHex, authTagHex, encryptedText] ∧
    saltHex.length = 32 ∧ ivHex.length = 24 ∧ authTagHex.length = 32

def Legacy (encryptedFormat ivHex authTagHex encryptedText : Text) : Prop :=
  encryptedFormat.splitOn colon = [ivHex, authTagHex, encryptedText] ∧
    ivHex.length = 24 ∧ authTagHex.length = 32

/-- The bytes of a three-part record of which either the initialization vector or the ciphertext is
another, or the tag alone, a whole one: then it is none that another of the keys gives. -/
def ChangedLegacy (o : Opening c) (iv authTag encrypted : Bytes) (keys : List c.Key) : Prop :=
  authTag.length = 16 ∧
    (authTag = o.authTag ∧ ¬(iv = o.iv ∧ encrypted = o.encrypted) ∨
      authTag ≠ o.authTag ∧ iv = o.iv ∧ encrypted = o.encrypted ∧
        ∀ key ∈ keys, key = o.key ∨ c.tag key iv encrypted ≠ authTag)

/-- What `CryptoUtil` promises, whatever the module `crypto` computes. -/
structure Faithful (c : NodeCrypto) : Prop where
  roundTrip : ∀ salt iv text secretKey, WellFormed text →
    decrypt c (encrypt c salt iv text secretKey) secretKey = .ok text
  legacy : ∀ key iv text secretKey, WellFormed text →
    key = deriveKeyPbkdf2 c secretKey legacySalt ∨
      key = deriveKeyLegacySha256 c secretKey ∧ Authentic (Opening.made key iv text) →
    decrypt c (Opening.made key iv text).record secretKey = .ok text
  fourParts : ∀ salt iv text secretKey, ∃ saltHex ivHex authTagHex encryptedText,
    Salted (encrypt c salt iv text secretKey) saltHex ivHex authTagHex encryptedText
  threeParts : ∀ key iv text, ∃ ivHex authTagHex encryptedText,
    Legacy (Opening.made (c := c) key iv text).record ivHex authTagHex encryptedText
  salted : ∀ encryptedFormat saltHex ivHex authTagHex encryptedText secretKey,
    Salted encryptedFormat saltHex ivHex authTagHex encryptedText →
    openings c encryptedFormat secretKey =
      [⟨deriveKeyPbkdf2 c secretKey (fromHex saltHex), fromHex ivHex, fromHex authTagHex,
        fromHex encryptedText⟩]
  older : ∀ encryptedFormat ivHex authTagHex encryptedText secretKey,
    Legacy encryptedFormat ivHex authTagHex encryptedText →
    openings c encryptedFormat secretKey =
      [⟨deriveKeyPbkdf2 c secretKey legacySalt, fromHex ivHex, fromHex authTagHex,
        fromHex encryptedText⟩,
        ⟨deriveKeyLegacySha256 c secretKey, fromHex ivHex, fromHex authTagHex,
          fromHex encryptedText⟩]
  otherShape : ∀ encryptedFormat secretKey,
    (∀ saltHex ivHex authTagHex encryptedText,
      ¬Salted encryptedFormat saltHex ivHex authTagHex encryptedText) →
    (∀ ivHex authTagHex encryptedText, ¬Legacy encryptedFormat ivHex authTagHex encryptedText) →
    decrypt c encryptedFormat secretKey = .error badFormat
  opened : ∀ encryptedFormat secretKey text, decrypt c encryptedFormat secretKey = .ok text →
    ∃ o ∈ openings c encryptedFormat secretKey, ∃ b, o.opened = some b ∧ text = decodeUtf8 b
  otherKey : ∀ salt iv text secretKey other,
    Authentic (Opening.made (deriveKeyPbkdf2 c secretKey salt.bytes) iv text) →
    deriveKeyPbkdf2 c other salt.bytes ≠ deriveKeyPbkdf2 c secretKey salt.bytes →
    ∃ e, decrypt c (encrypt c salt iv text secretKey) other = .error e
  altered : ∀ key iv text encryptedFormat secretKey, Authentic (Opening.made key iv text) →
    (∀ o ∈ openings c encryptedFormat secretKey, Altered (Opening.made key iv text) o) →
    ∃ e, decrypt c encryptedFormat secretKey = .error e
  changed : ∀ (salt : RandomBytes 16) iv text secretKey encryptedFormat saltHex ivHex authTagHex encryptedText,
    Authentic (Opening.made (deriveKeyPbkdf2 c secretKey salt.bytes) iv text) →
    Salted encryptedFormat saltHex ivHex authTagHex encryptedText →
    Altered (Opening.made (deriveKeyPbkdf2 c secretKey salt.bytes) iv text)
      ⟨deriveKeyPbkdf2 c secretKey (fromHex saltHex), fromHex ivHex, fromHex authTagHex,
        fromHex encryptedText⟩ →
    ∃ e, decrypt c encryptedFormat secretKey = .error e
  changedLegacy : ∀ key iv text secretKey encryptedFormat ivHex authTagHex encryptedText,
    Authentic (Opening.made key iv text) → Legacy encryptedFormat ivHex authTagHex encryptedText →
    ChangedLegacy (Opening.made key iv text) (fromHex ivHex) (fromHex authTagHex)
      (fromHex encryptedText)
      [deriveKeyPbkdf2 c secretKey legacySalt, deriveKeyLegacySha256 c secretKey] →
    ∃ e, decrypt c encryptedFormat secretKey = .error e

section Formats

variable {key : c.Key} {iv : RandomBytes 12} {text secretKey encryptedFormat : Text}

theorem openings_salted {saltHex ivHex authTagHex encryptedText : Text}
    (h : Salted encryptedFormat saltHex ivHex authTagHex encryptedText) :
    openings c encryptedFormat secretKey =
      [⟨deriveKeyPbkdf2 c secretKey (fromHex saltHex), fromHex ivHex, fromHex authTagHex,
        fromHex encryptedText⟩] := by
  rw [openings, h.1]
  exact if_pos h.2

theorem openings_legacy {ivHex authTagHex encryptedText : Text}
    (h : Legacy encryptedFormat ivHex authTagHex encryptedText) :
    openings c encryptedFormat secretKey =
      [⟨deriveKeyPbkdf2 c secretKey legacySalt, fromHex ivHex, fromHex authTagHex,
        fromHex encryptedText⟩,
        ⟨deriveKeyLegacySha256 c secretKey, fromHex ivHex, fromHex authTagHex,
          fromHex encryptedText⟩] := by
  rw [openings, h.1]
  exact if_pos h.2

theorem decrypt_legacy (htext : WellFormed text)
    (h : key = deriveKeyPbkdf2 c secretKey legacySalt ∨
      key = deriveKeyLegacySha256 c secretKey ∧ Authentic (Opening.made key iv text)) :
    decrypt c (Opening.made key iv text).record secretKey = .ok text := by
  rw [← decodeUtf8_encodeUtf8 htext]
  refine decrypt_of_opened ?_
  rw [openings_record, decodeUtf8_encodeUtf8 htext]
  by_cases hfixed : deriveKeyPbkdf2 c secretKey legacySalt = key
  · have hopened := opened_made key iv text
    rw [hfixed, List.findSome?_cons_of_isSome]
    · exact hopened
    · exact Option.isSome_of_eq_some hopened
  · -- the first key is refused, and the second is the one that sealed the record
    obtain ⟨hkey, hauth⟩ := h.resolve_left (Ne.symm hfixed)
    rw [List.findSome?_cons_of_isNone (by rw [opened_altered hauth (altered_key hfixed)]; rfl),
      ← hkey, List.findSome?_singleton]
    exact opened_made key iv text

theorem decrypt_otherShape
    (h₄ : ∀ saltHex ivHex authTagHex encryptedText,
      ¬Salted encryptedFormat saltHex ivHex authTagHex encryptedText)
    (h₃ : ∀ ivHex authTagHex encryptedText,
      ¬Legacy encryptedFormat ivHex authTagHex encryptedText) :
    decrypt c encryptedFormat secretKey = .error badFormat := by
  have hnone : openings c encryptedFormat secretKey = [] := by
    unfold openings
    split
    · rename_i hparts
      exact if_neg fun h => h₄ _ _ _ _ ⟨hparts, h⟩
    · rename_i hparts
      exact if_neg fun h => h₃ _ _ _ ⟨hparts, h⟩
    · rfl
  rw [decrypt, decryptToBuffer_of_no_openings hnone]
  rfl

theorem opened_changedLegacy {iv' authTag encrypted : Bytes} {keys : List c.Key} {key' : c.Key}
    (hauth : Authentic (Opening.made key iv text))
    (h : ChangedLegacy (Opening.made key iv text) iv' authTag encrypted keys)
    (hkey' : key' ∈ keys) :
    Opening.opened ⟨key', iv', authTag, encrypted⟩ = none := by
  obtain ⟨hlength, ⟨htag, hne⟩ | ⟨htag, hiv, hencrypted, hkeys⟩⟩ := h
  · exact opened_altered hauth ⟨hlength, .inr ⟨htag, fun hsame => hne hsame.2⟩⟩
  · rcases hkeys key' hkey' with hsame | hother
    · exact opened_altered hauth ⟨hlength, .inl ⟨htag, hsame, hiv, hencrypted⟩⟩
    · exact opened_of_tag_ne hlength hother

theorem exists_opened (h : decrypt c encryptedFormat secretKey = .ok text) :
    ∃ o ∈ openings c encryptedFormat secretKey, ∃ b, o.opened = some b ∧ text = decodeUtf8 b := by
  cases hresult : decryptToBuffer c encryptedFormat secretKey with
  | error e =>
    rw [decrypt, hresult] at h
    cases h
  | ok b =>
    rw [decrypt, hresult] at h
    cases h
    obtain ⟨o, ho, hopened⟩ := List.exists_of_findSome?_eq_some (decryptToBuffer_ok.mp hresult)
    exact ⟨o, ho, b, hopened, rfl⟩

end Formats

/-- A text comes back from its record, of either format and under either key; every other shape is
refused; and so is a record whose parts read as other bytes, or one tried under a secret that gives
another key. -/
theorem decrypt_faithful (c : NodeCrypto) : Faithful c where
  roundTrip salt iv text secretKey htext := by
    rw [← decodeUtf8_encodeUtf8 htext]
    refine decrypt_of_opened ?_
    rw [openings_encrypt, decodeUtf8_encodeUtf8 htext, List.findSome?_singleton]
    exact opened_made _ iv text
  legacy key iv text secretKey htext h := decrypt_legacy htext h
  fourParts salt iv text secretKey :=
    ⟨_, _, _, _,
      splitOn_encrypt, by rw [length_toHex, salt.length_bytes], length_toHex_made _ iv text⟩
  threeParts key iv text := ⟨_, _, _, splitOn_record, length_toHex_made key iv text⟩
  salted encryptedFormat saltHex ivHex authTagHex encryptedText secretKey h := openings_salted h
  older encryptedFormat ivHex authTagHex encryptedText secretKey h := openings_legacy h
  otherShape encryptedFormat secretKey h₄ h₃ := decrypt_otherShape h₄ h₃
  opened encryptedFormat secretKey text h := exists_opened h
  otherKey salt iv text secretKey other hauth hkey := by
    refine decrypt_of_refused fun o ho => opened_altered hauth ?_
    rw [openings_encrypt, List.mem_singleton] at ho
    rw [ho]
    exact altered_key hkey
  altered key iv text encryptedFormat secretKey hauth h :=
    decrypt_of_refused fun o ho => opened_altered hauth (h o ho)
  changed salt iv text secretKey encryptedFormat saltHex ivHex authTagHex encryptedText hauth hparts h := by
    refine decrypt_of_refused fun o ho => opened_altered hauth ?_
    rw [openings_salted hparts, List.mem_singleton] at ho
    rwa [ho]
  changedLegacy key iv text secretKey encryptedFormat ivHex authTagHex encryptedText hauth hparts h := by
    refine decrypt_of_refused fun o ho => ?_
    rw [openings_legacy hparts] at ho
    simp only [List.mem_cons, List.not_mem_nil, or_false] at ho
    rcases ho with rfl | rfl
    · exact opened_changedLegacy hauth h (List.mem_cons_self ..)
    · exact opened_changedLegacy hauth h (List.mem_cons_of_mem _ (List.mem_cons_self ..))

/-! ### A record of one letter -/

def someSalt : RandomBytes 16 := ⟨List.replicate 16 7, List.length_replicate⟩

def someIv : RandomBytes 12 := ⟨List.replicate 12 9, List.length_replicate⟩

def letter : Text := textOf "j"

def someKey : Bytes × Bytes := (encodeUtf8 (textOf "k"), someSalt.bytes)

/-- The tag of the record is that of no other. -/
def someTag (key : Bytes × Bytes) (iv encrypted : Bytes) : Bytes :=
  List.replicate 16
    (if (key, iv, encrypted) = (someKey, someIv.bytes, encodeUtf8 letter) then 1 else 0)

theorem length_someTag (key : Bytes × Bytes) (iv encrypted : Bytes) :
    (someTag key iv encrypted).length = 16 :=
  List.length_replicate

/-- A key is its secret and its salt, and the key stream is all noughts. -/
def plain : NodeCrypto where
  Key := Bytes × Bytes
  pbkdf2Sync secretKey salt := (secretKey, salt)
  sha256 secretKey := (secretKey, [])
  ctr _ _ text := text
  tag := someTag
  ctr_ctr _ _ _ := rfl
  length_tag := length_someTag

theorem authentic_letter :
    Authentic (Opening.made (c := plain)
      (deriveKeyPbkdf2 plain (textOf "k") someSalt.bytes) someIv letter) := by
  intro (key : Bytes × Bytes) iv encrypted h
  have hone : (Opening.made (c := plain) (deriveKeyPbkdf2 plain (textOf "k") someSalt.bytes) someIv
      letter).authTag = List.replicate 16 1 := by decide +kernel
  have htag : someTag key iv encrypted = List.replicate 16 1 := h.trans hone
  unfold someTag at htag
  by_cases hsame : (key, iv, encrypted) = (someKey, someIv.bytes, encodeUtf8 letter)
  · cases hsame
    exact ⟨rfl, rfl, rfl⟩
  · rw [if_neg hsame] at htag
    exact absurd htag (by decide)

theorem otherKey_letter :
    deriveKeyPbkdf2 plain (textOf "l") someSalt.bytes ≠
      deriveKeyPbkdf2 plain (textOf "k") someSalt.bytes := by
  have hkey : (encodeUtf8 (textOf "l"), someSalt.bytes) ≠ someKey := by decide +kernel
  exact hkey

theorem decrypt_faithful_letter :
    decrypt plain (encrypt plain someSalt someIv letter (textOf "k")) (textOf "k") = .ok letter ∧
      ∃ e, decrypt plain (encrypt plain someSalt someIv letter (textOf "k"))
      (textOf "l") = .error e :=
  ⟨(decrypt_faithful plain).roundTrip someSalt someIv letter (textOf "k") ⟨['j'], rfl⟩,
    (decrypt_faithful plain).otherKey someSalt someIv letter (textOf "k")
      (textOf "l") authentic_letter
      otherKey_letter⟩

def upperCase : Text := (encrypt plain someSalt someIv letter (textOf "k")).dropLast ++ [65]

/-- The record with four bytes left of its tag, and no digits after them. -/
def shortTag : Text :=
  joined [toHex someSalt.bytes, toHex someIv.bytes,
    (toHex (someTag someKey someIv.bytes (encodeUtf8 letter))).take 8 ++ List.replicate 24 122,
    toHex (encodeUtf8 letter)]

/-- Half a surrogate pair does not come back; and both modified records give their text. -/
theorem modified_accepted :
    decrypt plain (encrypt plain someSalt someIv [0xD800] (textOf "k"))
    (textOf "k") = .ok [0xFFFD] ∧
      (upperCase ≠ encrypt plain someSalt someIv letter (textOf "k") ∧
        decrypt plain upperCase (textOf "k") = .ok letter) ∧
      shortTag ≠ encrypt plain someSalt someIv letter (textOf "k") ∧
        decrypt plain shortTag (textOf "k") = .ok letter :=
  ⟨by decide +kernel, ⟨by decide +kernel, by decide +kernel⟩, by decide +kernel, by decide +kernel⟩

end Livora.KeyCiphers
