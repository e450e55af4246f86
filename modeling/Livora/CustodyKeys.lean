import Livora.PinVerification
import Livora.SequenceManager

/-! The encryption of the custody keys. `CryptoUtil` seals a private key under a secret, and each
component takes the secret from the configuration by its own rule. -/

namespace Livora.CustodyKeys

open PinVerification (truthy)
open SequenceManager (trim)

/-! ### `CryptoUtil` -/

def isHexDigit (c : Char) : Bool := c.isDigit || ('a' ≤ c && c ≤ 'f')

structure Hex (bytes : ℕ) where
  digits : List Char
  length_digits : digits.length = 2 * bytes
  hex : ∀ d ∈ digits, isHexDigit d = true

structure Sealed where
  authTag : Hex 16
  encrypted : List Char
  hex : ∀ d ∈ encrypted, isHexDigit d = true

/-- The salt of a record, or the fixed text that older records were made with. -/
inductive Salt where
  | random (digits : List Char)
  | fixed (text : String)

/-- The module `crypto`: AES-256-GCM, and how its keys are derived. -/
structure NodeCrypto where
  Key : Type
  pbkdf2Sync : String → Salt → Key
  sha256 : String → Key
  cipher : Key → List Char → String → Sealed
  decipher : Key → (iv authTag encrypted : List Char) → Option String

/-- What is sealed is opened under the same secret, and refused under another. -/
structure NodeCrypto.Authenticated (c : NodeCrypto) : Prop where
  opens : ∀ key iv text, c.decipher key iv (c.cipher key iv text).authTag.digits
    (c.cipher key iv text).encrypted = some text
  refuses : ∀ secret other salt iv text, secret ≠ other →
    c.decipher (c.pbkdf2Sync other salt) iv
      (c.cipher (c.pbkdf2Sync secret salt) iv text).authTag.digits
      (c.cipher (c.pbkdf2Sync secret salt) iv text).encrypted = none

variable (c : NodeCrypto)

def legacySalt : Salt := .fixed "livora_wallet_encryption_salt_kdf_v1"

def badFormat : String := "Invalid encrypted text format"

def refused : String := "No se pudo descifrar la información o la firma AuthTag no es válida"

/-- `${salt}:${iv}:${authTag}:${encrypted}` -/
def encrypt (salt : Hex 16) (iv : Hex 12) (text secretKey : String) : String :=
  let made := c.cipher (c.pbkdf2Sync secretKey (.random salt.digits)) iv.digits text
  String.ofList ([':'].intercalate [salt.digits, iv.digits, made.authTag.digits, made.encrypted])

def decryptSalted (secretKey : String) (salt iv authTag encrypted : List Char) :
    Except String String :=
  if salt.length ≠ 32 ∨ iv.length ≠ 24 ∨ authTag.length ≠ 32 then .error badFormat
  else
    match c.decipher (c.pbkdf2Sync secretKey (.random salt)) iv authTag encrypted with
    | some text => .ok text
    | none => .error refused

/-- The older records, by the key of either kind. -/
def decryptLegacy (secretKey : String) (iv authTag encrypted : List Char) : Except String String :=
  if iv.length ≠ 24 ∨ authTag.length ≠ 32 then .error badFormat
  else
    match (c.decipher (c.pbkdf2Sync secretKey legacySalt) iv authTag encrypted).or
      (c.decipher (c.sha256 secretKey) iv authTag encrypted) with
    | some text => .ok text
    | none => .error refused

def decrypt (encryptedFormat secretKey : String) : Except String String :=
  match encryptedFormat.toList.splitOn ':' with
  | [salt, iv, authTag, encrypted] => decryptSalted c secretKey salt iv authTag encrypted
  | [iv, authTag, encrypted] => decryptLegacy c secretKey iv authTag encrypted
  | _ => .error badFormat

section Records

variable {c} {salt : Hex 16} {iv : Hex 12} {text secret other : String}

theorem not_mem_colon {digits : List Char} (h : ∀ d ∈ digits, isHexDigit d = true) : ':' ∉ digits :=
  fun hmem => absurd (h ':' hmem) (by decide)

theorem decrypt_encrypt : decrypt c (encrypt c salt iv text secret) other =
    decryptSalted c other salt.digits iv.digits
      (c.cipher (c.pbkdf2Sync secret (.random salt.digits)) iv.digits text).authTag.digits
      (c.cipher (c.pbkdf2Sync secret (.random salt.digits)) iv.digits text).encrypted := by
  rw [decrypt, encrypt, String.toList_ofList, List.splitOn_intercalate]
  · intro part hpart
    simp only [List.mem_cons, List.not_mem_nil, or_false] at hpart
    rcases hpart with rfl | rfl | rfl | rfl
    · exact not_mem_colon salt.hex
    · exact not_mem_colon iv.hex
    · exact not_mem_colon (Hex.hex _)
    · exact not_mem_colon (Sealed.hex _)
  · exact List.cons_ne_nil _ _

theorem decrypt_iff (hc : c.Authenticated) :
    decrypt c (encrypt c salt iv text secret) other = .ok text ↔ other = secret := by
  rw [decrypt_encrypt, decryptSalted, if_neg]
  · by_cases hsame : other = secret
    · subst hsame
      simp [hc.opens]
    · simp [hc.refuses secret other _ _ _ (Ne.symm hsame), hsame]
  · simp [salt.length_digits, iv.length_digits, Hex.length_digits]

end Records

/-! ### The configuration -/

structure Env where
  encryptionMasterKey : Option String
  walletEncryptionKey : Option String
  encryptionKey : Option String
  nodeEnv : Option String
deriving DecidableEq

/-- `toLowerCase`, as far as it leads to letters of the alphabet: the sign for Kelvin is a capital
k. -/
def toLowerCase (text : List Char) : List Char :=
  text.map fun c => if c = '\u212A' then 'k' else c.toLower

def includes (text part : List Char) : Bool := text.tails.any fun rest => part.isPrefixOf rest

def invalidFallbacks : List String :=
  ["default-secret-key-32-chars-long!!", "test_isolated_wallet_encryption_key_32c",
    "livora_wallet_aes256_secret!",
      "0123456789abcdef0123456789abcdef0123456789abcdef0123456789abcdef",
    "d7a5e8f1c3b2a49018e7d6c5b4a39281f0e1d2c3b4a596877869504132231405",
    "your_32_byte_wallet_encryption_key", "your_64_character_hex_encryption_master_key_here",
    "default_fallback"]

def trimmed (key : String) : String := String.ofList (trim key.toList)

def invalidKey (key : String) : Bool :=
  trimmed key = "" || invalidFallbacks.contains (trimmed key) ||
    includes (toLowerCase (trim key.toList)) "fallback".toList ||
    includes (toLowerCase (trim key.toList)) "default-secret".toList

/-- `UsersService`, which asks for it when the module starts. -/
def getMasterEncryptionKey (env : Env) : Except String String :=
  match (truthy env.encryptionMasterKey).or
    ((truthy env.walletEncryptionKey).or (truthy env.encryptionKey)) with
  | none => .error "FATAL: ENCRYPTION_MASTER_KEY must be configured"
  | some key =>
    if invalidKey key then .error "FATAL: ENCRYPTION_MASTER_KEY must be configured" else .ok
      (trimmed key)

def register (env : Env) (salt : Hex 16) (iv : Hex 12) (privateKey : String) :
    Except String String := do
  let encryptionKey ← getMasterEncryptionKey env
  pure (encrypt c salt iv privateKey encryptionKey)

def testKey : String := "test_isolated_wallet_encryption_key_32c"

/-- `WALLET_ENCRYPTION_KEY || ENCRYPTION_KEY` -/
def walletSecret (env : Env) : Option String :=
  (truthy env.walletEncryptionKey).or (truthy env.encryptionKey)

/-- `WalletsService.getDecryptedPrivateKey`, where there is a vault. -/
def getDecryptedPrivateKey (env : Env) (encryptedKey : String) : Except String String :=
  if walletSecret env = none ∧ env.nodeEnv ≠ some "test" then
    .error ("CRITICAL SECURITY ERROR: La variable WALLET_ENCRYPTION_KEY es obligatoria para descifrar " ++
      "claves de custodia Web3.")
  else decrypt c encryptedKey ((walletSecret env).getD testKey)

/-- The jobs of `BlockchainProcessor`. -/
def jobPrivateKey (env : Env) (encryptedKey : String) : Except String String :=
  decrypt c encryptedKey ((truthy env.walletEncryptionKey).getD "livora_wallet_aes256_secret!")

/-- `WALLET_ENCRYPTION_KEY || ENCRYPTION_KEY || (test ? testKey : '')` -/
def delegatedSecret (env : Env) : Option String :=
  (walletSecret env).or (if env.nodeEnv = some "test" then some testKey else none)

/-- `verifyPin`, where the collector has a vault. -/
def verifyPinPrivateKey (env : Env) (encryptedKey : String) : Except String String :=
  match delegatedSecret env with
  | none => .error "CRITICAL SECURITY ERROR: WALLET_ENCRYPTION_KEY es obligatoria para transferencias delegadas."
  | some secret => decrypt c encryptedKey secret

/-- `reportNoShow`, where the household has a vault: without a secret nothing is decrypted. -/
def noShowPrivateKey (env : Env) (encryptedKey : String) : Option (Except String String) :=
  (delegatedSecret env).map (decrypt c encryptedKey)

/-! ### Agreement -/

/-- Every component reads the private key from the record. -/
structure Unlocks (env : Env) (encryptedKey privateKey : String) : Prop where
  wallets : getDecryptedPrivateKey c env encryptedKey = .ok privateKey
  jobs : jobPrivateKey c env encryptedKey = .ok privateKey
  verifyPin : verifyPinPrivateKey c env encryptedKey = .ok privateKey
  reportNoShow : noShowPrivateKey c env encryptedKey = some (.ok privateKey)

/-- The key of the wallets is set, and is the master key without the blanks around it. -/
def Agreed (env : Env) : Prop :=
  ∃ key, truthy env.walletEncryptionKey = some key ∧
    key = trimmed ((truthy env.encryptionMasterKey).getD key)

variable {c} {env : Env} {salt : Hex 16} {iv : Hex 12} {privateKey encryptedKey secret : String}

theorem master_valid (h : getMasterEncryptionKey env = .ok secret) : secret ∉ invalidFallbacks := by
  unfold getMasterEncryptionKey at h
  split at h
  · cases h
  · split at h
    · cases h
    · rename_i hvalid
      cases h
      intro hmem
      simp [invalidKey, hmem] at hvalid

theorem master_of_wallet {key : String} (hkey : truthy env.walletEncryptionKey = some key)
    (h : getMasterEncryptionKey env = .ok secret) :
    secret = trimmed ((truthy env.encryptionMasterKey).getD key) := by
  unfold getMasterEncryptionKey at h
  rw [hkey] at h
  cases hmaster : truthy env.encryptionMasterKey with
  | none =>
    simp only [hmaster, Option.none_or, Option.some_or] at h
    split at h
    · cases h
    · exact (Except.ok.inj h).symm
  | some master =>
    simp only [hmaster, Option.some_or] at h
    split at h
    · cases h
    · exact (Except.ok.inj h).symm

theorem decrypt_with_wallet {key : String} (hkey : truthy env.walletEncryptionKey = some key) :
    getDecryptedPrivateKey c env encryptedKey = decrypt c encryptedKey key ∧
      jobPrivateKey c env encryptedKey = decrypt c encryptedKey key ∧
      verifyPinPrivateKey c env encryptedKey = decrypt c encryptedKey key ∧
      noShowPrivateKey c env encryptedKey = some (decrypt c encryptedKey key) := by
  have hsecret : walletSecret env = some key := by
    rw [walletSecret, hkey, Option.some_or]
  have hdelegated : delegatedSecret env = some key := by
    rw [delegatedSecret, hsecret, Option.some_or]
  refine ⟨?_, ?_, ?_, ?_⟩
  · rw [getDecryptedPrivateKey, hsecret, if_neg (fun hnone => by cases hnone.1), Option.getD_some]
  · rw [jobPrivateKey, hkey, Option.getD_some]
  · simp only [verifyPinPrivateKey, hdelegated]
  · rw [noShowPrivateKey, hdelegated, Option.map_some]

/-- The private key of a user is read by every component exactly where the key of the wallets is set
and is the master key without the blanks around it. -/
theorem unlocks_iff_agreed (hc : c.Authenticated)
    (hregister : register c env salt iv privateKey = .ok encryptedKey) :
    Unlocks c env encryptedKey privateKey ↔ Agreed env := by
  unfold register at hregister
  cases hmaster : getMasterEncryptionKey env with
  | error e =>
    rw [hmaster] at hregister
    cases hregister
  | ok secret =>
    rw [hmaster] at hregister
    obtain rfl : encrypt c salt iv privateKey secret = encryptedKey := Except.ok.inj hregister
    cases hkey : truthy env.walletEncryptionKey with
    | none =>
      constructor
      · intro h
        have hjobs := h.jobs
        rw [jobPrivateKey, hkey, Option.getD_none, decrypt_iff hc] at hjobs
        exact absurd (hjobs ▸ by decide) (master_valid hmaster)
      · rintro ⟨key, hsome, -⟩
        rw [hkey] at hsome
        cases hsome
    | some key =>
      have hsecret := master_of_wallet hkey hmaster
      constructor
      · intro h
        have hjobs := h.jobs
        rw [jobPrivateKey, hkey, Option.getD_some, decrypt_iff hc] at hjobs
        exact ⟨key, hkey, hjobs.trans hsecret⟩
      · rintro ⟨key', hkey', htrimmed⟩
        cases hkey.symm.trans hkey'
        have hread : decrypt c (encrypt c salt iv privateKey secret) key = .ok privateKey :=
          (decrypt_iff hc).mpr (htrimmed.trans hsecret.symm)
        obtain ⟨hwallets, hjobs, hverify, hreport⟩ := decrypt_with_wallet hkey
        exact ⟨hwallets.trans hread, hjobs.trans hread, hverify.trans hread,
          hreport.trans (congrArg some hread)⟩

/-! ### A cipher that keeps the secret beside the text -/

/-- A text, each character as so many noughts. -/
def unary (text : String) : List Char :=
  ['1'].intercalate ([] :: text.toList.map fun ch => List.replicate ch.toNat '0')

def unaryText (digits : List Char) : String :=
  String.ofList ((digits.splitOn '1').tail.map fun run => Char.ofNat run.length)

theorem unaryText_unary (text : String) : unaryText (unary text) = text := by
  rw [unaryText, unary, List.splitOn_intercalate]
  · rw [List.tail_cons, List.map_map]
    have hback : ((fun run : List Char => Char.ofNat run.length) ∘
        fun ch : Char => List.replicate ch.toNat '0') = id := by
      funext ch
      simp [Char.ofNat_toNat]
    rw [hback, List.map_id, String.ofList_toList]
  · intro run hrun
    rcases List.mem_cons.mp hrun with rfl | hrun
    · exact List.not_mem_nil
    · obtain ⟨ch, -, rfl⟩ := List.mem_map.mp hrun
      exact fun hmem => absurd (List.eq_of_mem_replicate hmem) (by decide)
  · exact List.cons_ne_nil _ _

theorem mem_intercalate {runs : List (List Char)} (h : ∀ run ∈ runs, ∀ d ∈ run, d = '0') :
    ∀ d ∈ ['1'].intercalate runs, d = '0' ∨ d = '1' := by
  induction runs with
  | nil => exact fun d hd => absurd hd List.not_mem_nil
  | cons run runs ih =>
    cases runs with
    | nil => exact fun d hd => .inl (h run List.mem_cons_self d (by simpa using hd))
    | cons next runs =>
      intro d hd
      rw [List.intercalate_cons_cons, List.mem_append, List.mem_append] at hd
      rcases hd with (hd | hd) | hd
      · exact .inl (h run List.mem_cons_self d hd)
      · exact .inr (List.mem_singleton.mp hd)
      · exact ih (fun r hr => h r (List.mem_cons_of_mem _ hr)) d hd

theorem digits_unary (text : String) : ∀ d ∈ unary text, d = '0' ∨ d = '1' := by
  refine mem_intercalate fun run hrun d hd => ?_
  rcases List.mem_cons.mp hrun with rfl | hrun
  · cases hd
  · obtain ⟨ch, -, rfl⟩ := List.mem_map.mp hrun
    exact List.eq_of_mem_replicate hd

/-- The secret and the text, side by side. -/
def keepBoth (secret text : String) : Sealed where
  authTag := ⟨List.replicate 32 '0', rfl, fun _ hd => (List.eq_of_mem_replicate hd).symm ▸ rfl⟩
  encrypted := ['2'].intercalate [unary secret, unary text]
  hex d hd := by
    have hcases : d ∈ unary secret ∨ d = '2' ∨ d ∈ unary text := by
      simpa [List.intercalate] using hd
    rcases hcases with h | rfl | h
    · rcases digits_unary secret d h with rfl | rfl <;> rfl
    · rfl
    · rcases digits_unary text d h with rfl | rfl <;> rfl

def plain : NodeCrypto where
  Key := String
  pbkdf2Sync secret _ := secret
  sha256 secret := secret
  cipher key _ text := keepBoth key text
  decipher key _ _ encrypted :=
    match encrypted.splitOn '2' with
    | [secret, text] => if unaryText secret = key then some (unaryText text) else none
    | _ => none

theorem decipher_plain (secret other text : String) (iv authTag : List Char) :
    plain.decipher other iv authTag (keepBoth secret text).encrypted =
      if secret = other then some text else none := by
  have hnone (s : String) : '2' ∉ unary s := fun hmem => by
    rcases digits_unary s '2' hmem with h | h <;> exact absurd h (by decide)
  have hsplit : (keepBoth secret text).encrypted.splitOn '2' = [unary secret, unary text] := by
    refine List.splitOn_intercalate '2' (fun part hpart => ?_) (List.cons_ne_nil _ _)
    simp only [List.mem_cons, List.not_mem_nil, or_false] at hpart
    rcases hpart with rfl | rfl
    · exact hnone secret
    · exact hnone text
  simp only [plain, hsplit, unaryText_unary]

theorem plain_authenticated : plain.Authenticated where
  opens key _ text := (decipher_plain key key text _ _).trans (if_pos rfl)
  refuses secret other _ _ text hne := (decipher_plain secret other text _ _).trans (if_neg hne)

def noughts (bytes : ℕ) : Hex bytes :=
  ⟨List.replicate (2 * bytes) '0', List.length_replicate, fun _ hd =>
    (List.eq_of_mem_replicate hd).symm ▸ rfl⟩

def oneKey : Env := ⟨none, some "7f3a9c", some "another", some "production"⟩

def twoKeys : Env := ⟨some "4be1d0", some "7f3a9c", none, some "production"⟩

theorem unlocks_iff_agreed_oneKey : ∃ encryptedKey,
    register plain oneKey (noughts 16) (noughts 12) "SECRET" = .ok encryptedKey ∧
      (Unlocks plain oneKey encryptedKey "SECRET" ↔ Agreed oneKey) ∧ Agreed oneKey := by
  have hmaster : getMasterEncryptionKey oneKey = .ok "7f3a9c" := by decide +kernel
  have hregister : register plain oneKey (noughts 16) (noughts 12) "SECRET" =
      .ok (encrypt plain (noughts 16) (noughts 12) "SECRET" "7f3a9c") := by
    rw [register, hmaster]
    rfl
  exact ⟨_, hregister, unlocks_iff_agreed plain_authenticated hregister,
    "7f3a9c", by decide +kernel, by decide +kernel⟩

/-- With a master key beside the key of the wallets every component is refused. -/
theorem locked_twoKeys : ∃ encryptedKey,
    register plain twoKeys (noughts 16) (noughts 12) "SECRET" = .ok encryptedKey ∧
      getDecryptedPrivateKey plain twoKeys encryptedKey ≠ .ok "SECRET" ∧
      jobPrivateKey plain twoKeys encryptedKey ≠ .ok "SECRET" ∧
      verifyPinPrivateKey plain twoKeys encryptedKey ≠ .ok "SECRET" ∧
      noShowPrivateKey plain twoKeys encryptedKey ≠ some (.ok "SECRET") := by
  have hmaster : getMasterEncryptionKey twoKeys = .ok "4be1d0" := by decide +kernel
  have hregister : register plain twoKeys (noughts 16) (noughts 12) "SECRET" =
      .ok (encrypt plain (noughts 16) (noughts 12) "SECRET" "4be1d0") := by
    rw [register, hmaster]
    rfl
  have hrefused : decrypt plain
    (encrypt plain (noughts 16) (noughts 12) "SECRET" "4be1d0") "7f3a9c" ≠
      .ok "SECRET" := fun h => absurd ((decrypt_iff plain_authenticated).mp h) (by decide +kernel)
  have hkey : truthy twoKeys.walletEncryptionKey = some "7f3a9c" := by decide +kernel
  refine ⟨_, hregister, ?_⟩
  obtain ⟨hwallets, hjobs, hverify, hreport⟩ := decrypt_with_wallet (c := plain) hkey
  rw [hwallets, hjobs, hverify, hreport]
  exact ⟨hrefused, hrefused, hrefused, fun h => hrefused (Option.some.inj h)⟩

end Livora.CustodyKeys
