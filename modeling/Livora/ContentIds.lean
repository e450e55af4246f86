import Livora.RadixTexts
import Livora.ResponsePasses

/-! The content identifier that the service makes of a payload where Pinata cannot be asked: the
multihash of its SHA-256 digest in base58btc. It has the form that the interceptor knows a name by,
and it says the digest. -/

namespace Livora.ContentIds

open RadixTexts RadixTexts.Alphabet
open ResponsePasses (isBase58 isCidV0)

abbrev Digest := {hash : Bytes // hash.length = 32}

/-- `123456789ABCDEFGHJKLMNPQRSTUVWXYZabcdefghijkmnopqrstuvwxyz` -/
def alphabetChars : List Char :=
  ['1', '2', '3', '4', '5', '6', '7', '8', '9', 'A', 'B', 'C', 'D', 'E', 'F', 'G', 'H', 'J', 'K',
    'L', 'M',
   'N', 'P', 'Q', 'R', 'S', 'T', 'U', 'V', 'W', 'X', 'Y', 'Z', 'a', 'b', 'c', 'd', 'e', 'f', 'g',
     'h', 'i',
   'j', 'k', 'm', 'n', 'o', 'p', 'q', 'r', 's', 't', 'u', 'v', 'w', 'x', 'y', 'z']

theorem nodup_alphabetChars : alphabetChars.Nodup := by decide

theorem two_le_alphabetChars : 2 ≤ alphabetChars.length := by decide

def base58btc : Alphabet := ⟨alphabetChars, nodup_alphabetChars, two_le_alphabetChars⟩

def multihash (hash : Digest) : Bytes := 0x12 :: 0x20 :: hash.val

/-- The number is read from the hexadecimal text of the bytes, and each byte has two digits
there. -/
def encoded (hash : Digest) : List Char := base58btc.encode (multihash hash)

/-- What is hashed: a Buffer as it is, a text, or the JSON of anything else. -/
inductive Payload where
  | buffer (bytes : Bytes)
  | text (s : String)
  | json (stringified : String)

def Payload.raw : Payload → Bytes
  | buffer bytes => bytes
  | text s => s.toUTF8.toList
  | json stringified => stringified.toUTF8.toList

def computeIpfsCidV0 (sha256 : Bytes → Digest) (payload : Payload) : String :=
  String.ofList (encoded (sha256 payload.raw))

variable {hash : Digest}

/-! ### The range of a multihash -/

theorem number_multihash (hash : Digest) :
    0x1220 * 256 ^ 32 ≤ number (multihash hash) ∧ number (multihash hash) < 0x1221 * 256 ^ 32 := by
  have hrange := @lt_number_append [0x12, 0x20] hash.val
  rw [hash.property] at hrange
  exact hrange

theorem encoded_eq (hash : Digest) : encoded hash = base58btc.write (number (multihash hash))
    [] := by
  have hleading : leading (multihash hash) = 0 := rfl
  rw [encoded, encode, hleading, List.replicate_zero, List.nil_append]

theorem base_base58btc : base58btc.base = 58 := rfl

theorem length_encoded (hash : Digest) : (encoded hash).length = 46 := by
  obtain ⟨hlow, hhigh⟩ := number_multihash hash
  rw [encoded_eq]
  refine length_write (k := 45) ?_ ?_
  · rw [base_base58btc]
    exact le_trans (by norm_num) hlow
  · rw [base_base58btc]
    exact hhigh.trans (by norm_num)

theorem number_div (hash : Digest) : number (multihash hash) / 58 ^ 44 = 23 * 58 + 44 := by
  obtain ⟨hlow, hhigh⟩ := number_multihash hash
  refine Nat.div_eq_of_lt_le ?_ ?_
  · exact le_trans (by norm_num) hlow
  · exact hhigh.trans_le (by norm_num)

theorem encoded_start (hash : Digest) : ['Q', 'm'] <+: encoded hash := by
  have hlength := length_encoded hash
  rw [encoded_eq] at hlength
  have hfirst := getElem?_write (i := 0) hlength (by omega)
  have hsecond := getElem?_write (i := 1) hlength (by omega)
  rw [base_base58btc] at hfirst hsecond
  have hlead : number (multihash hash) / 58 ^ 45 = 23 := by
    rw [pow_succ, ← Nat.div_div_eq_div_mul, number_div]
  rw [show 45 - 0 = 45 from rfl, hlead] at hfirst
  rw [show 45 - 1 = 44 from rfl, number_div] at hsecond
  rw [encoded_eq]
  generalize base58btc.write (number (multihash hash)) [] = text at *
  match text with
  | [] => cases hfirst
  | [c] => cases hsecond
  | c :: c' :: rest =>
    obtain rfl : c = 'Q' := Option.some.inj hfirst
    obtain rfl : c' = 'm' := Option.some.inj hsecond
    exact ⟨rest, rfl⟩

/-! ### The form of a name -/

theorem isBase58_alphabet : alphabetChars.all isBase58 = true := by decide

theorem mem_alphabet {c : Char} (h : c ∈ encoded hash) : c ∈ base58btc.chars := by
  rw [encoded_eq] at h
  exact mem_chars_of_mem_write h

theorem isCidV0_encoded (hash : Digest) : isCidV0 (encoded hash) = true := by
  have hall : ((encoded hash).drop 2).all isBase58 = true := by
    refine List.all_eq_true.mpr fun c hc => ?_
    exact List.all_eq_true.mp isBase58_alphabet c (mem_alphabet (List.mem_of_mem_drop hc))
  rw [isCidV0, List.isPrefixOf_iff_prefix.mpr (encoded_start hash), length_encoded, hall]
  rfl

theorem encoded_injective : Function.Injective encoded := by
  intro hash hash' h
  have hbytes : multihash hash = multihash hash' := by
    refine Option.some.inj ?_
    rw [← decode_encode (a := base58btc) (multihash hash),
      ← decode_encode (a := base58btc) (multihash hash')]
    exact congrArg base58btc.decode h
  exact Subtype.ext (List.cons.inj (List.cons.inj hbytes).2).2

theorem toList_computeIpfsCidV0 (sha256 : Bytes → Digest) (payload : Payload) :
    (computeIpfsCidV0 sha256 payload).toList = encoded (sha256 payload.raw) :=
  String.toList_ofList

/-- Every payload gets a name of 46 characters that begins with `Qm`, has the form of a CID v0 and
is read back as the two bytes of the multihash and the digest of the payload; payloads of different
digests get different names. -/
theorem names_of_digests (sha256 : Bytes → Digest) :
    (∀ payload, ((computeIpfsCidV0 sha256 payload).toList).length = 46 ∧
      ['Q', 'm'] <+: (computeIpfsCidV0 sha256 payload).toList ∧
      (∀ c ∈ (computeIpfsCidV0 sha256 payload).toList, c ∈ base58btc.chars) ∧
      isCidV0 (computeIpfsCidV0 sha256 payload).toList = true ∧
      base58btc.decode (computeIpfsCidV0 sha256 payload).toList =
        some (0x12 :: 0x20 :: (sha256 payload.raw).val)) ∧
    ∀ payload payload', computeIpfsCidV0 sha256 payload = computeIpfsCidV0 sha256 payload' →
      sha256 payload.raw = sha256 payload'.raw := by
  constructor
  · intro payload
    rw [toList_computeIpfsCidV0]
    exact ⟨length_encoded _, encoded_start _, fun c hc => mem_alphabet hc, isCidV0_encoded _,
      decode_encode (multihash _)⟩
  · intro payload payload' h
    refine encoded_injective ?_
    rw [← toList_computeIpfsCidV0, ← toList_computeIpfsCidV0, h]

end Livora.ContentIds
