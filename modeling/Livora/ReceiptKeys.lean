import Livora.ChannelCallers
import Livora.Notarizations

/-! The names under which a batch is recorded on the chain. The key of the contract holds all 32
digits of the batch's UUID, the entry that stands for a receipt only the first 16 of them. -/

namespace Livora.ReceiptKeys

open StellarXdr
open Notarizations (hexValue cleanUuid entryName)

/-- The text of a UUID: 32 hexadecimal digits of either case, dashes aside. -/
structure BatchUuid where
  text : String
  digits : (cleanUuid text).length = 32
  hexadecimal : ∀ c ∈ cleanUuid text, (hexValue c).isSome

def BatchUuid.value (id : BatchUuid) : List (Option ℕ) := (cleanUuid id.text).map hexValue

/-! ### The bytes of the digits -/

theorem hexValue_lt {c : Char} {n : ℕ} (h : hexValue c = some n) : n < 16 := by
  unfold hexValue at h
  have hupper {a b : Char} (hle : a ≤ b) : a.toNat ≤ b.toNat := hle
  split at h
  · rename_i hc
    have := hupper hc.2
    have hnine : '9'.toNat = 57 := rfl
    have hzero : '0'.toNat = 48 := rfl
    simp only [Option.some.injEq] at h
    omega
  · split at h
    · rename_i hc
      have := hupper hc.2
      have hf : 'f'.toNat = 102 := rfl
      have ha : 'a'.toNat = 97 := rfl
      simp only [Option.some.injEq] at h
      omega
    · split at h
      · rename_i hc
        have := hupper hc.2
        have hf : 'F'.toNat = 70 := rfl
        have ha : 'A'.toNat = 65 := rfl
        simp only [Option.some.injEq] at h
        omega
      · cases h

theorem fromHex_inj : ∀ {l l' : List Char}, (∀ c ∈ l, (hexValue c).isSome) →
    (∀ c ∈ l', (hexValue c).isSome) →
    l.length = l'.length → l.length % 2 = 0 →
    Notarizations.fromHex l = Notarizations.fromHex l' → l.map hexValue = l'.map hexValue
  | [], [], _, _, _, _, _ => rfl
  | [_], _, _, _, _, heven, _ => by simp at heven
  | c :: d :: l, [], _, _, hlength, _, _ => by simp at hlength
  | c :: d :: l, [_], _, _, hlength, _, _ => by simp at hlength
  | c :: d :: l, c' :: d' :: l', hhex, hhex', hlength, heven, h => by
    obtain ⟨x, hx⟩ := Option.isSome_iff_exists.mp (hhex c (by simp))
    obtain ⟨y, hy⟩ := Option.isSome_iff_exists.mp (hhex d (by simp))
    obtain ⟨x', hx'⟩ := Option.isSome_iff_exists.mp (hhex' c' (by simp))
    obtain ⟨y', hy'⟩ := Option.isSome_iff_exists.mp (hhex' d' (by simp))
    simp only [Notarizations.fromHex, hx, hy, hx', hy', List.cons.injEq] at h
    obtain ⟨hbyte, hrest⟩ := h
    have hbound := hexValue_lt hx
    have hbound' := hexValue_lt hx'
    have hlow := hexValue_lt hy
    have hlow' := hexValue_lt hy'
    have hnat := congrArg UInt8.toNat hbyte
    simp only [UInt8.toNat_ofNat'] at hnat
    have hfirst : x = x' := by omega
    have hsecond : y = y' := by omega
    have ih := fromHex_inj (fun e he => hhex e (by simp [he])) (fun e he => hhex' e (by simp [he]))
      (by simpa using hlength) (by simp only [List.length_cons] at heven; omega) hrest
    simp only [List.map_cons, hx, hy, hx', hy', hfirst, hsecond, ih]

theorem length_fromHex : ∀ {l : List Char}, (∀ c ∈ l, (hexValue c).isSome) →
    (Notarizations.fromHex l).length = l.length / 2
  | [], _ => rfl
  | [_], _ => by simp [Notarizations.fromHex]
  | c :: d :: l, hhex => by
    obtain ⟨x, hx⟩ := Option.isSome_iff_exists.mp (hhex c (by simp))
    obtain ⟨y, hy⟩ := Option.isSome_iff_exists.mp (hhex d (by simp))
    have hrest : ∀ e ∈ l, (hexValue e).isSome := fun e he => hhex e (by simp [he])
    have ih := length_fromHex hrest
    simp only [Notarizations.fromHex, hx, hy, List.length_cons, ih]
    omega

/-! ### The two names -/

theorem hexDigit_eq (c : Char) : ChannelCallers.hexDigit c = hexValue c := by
  unfold ChannelCallers.hexDigit hexValue
  have hle {a : Char} (h : a ≤ c) : a.toNat ≤ c.toNat := h
  have hzero : '0'.toNat = 48 := rfl
  have ha : 'a'.toNat = 97 := rfl
  have hA : 'A'.toNat = 65 := rfl
  split
  · rfl
  · split
    · rename_i hc
      have := hle hc.1
      rw [Option.some.injEq]
      omega
    · split
      · rename_i hc
        have := hle hc.1
        rw [Option.some.injEq]
        omega
      · rfl

theorem fromHex_eq : ∀ l : List Char, ChannelCallers.fromHex l = Notarizations.fromHex l
  | [] => rfl
  | [_] => by simp [Notarizations.fromHex, ChannelCallers.fromHex]
  | c :: d :: l => by
    cases hc : hexValue c <;> cases hd : hexValue d <;>
      simp only [ChannelCallers.fromHex, Notarizations.fromHex, hexDigit_eq, fromHex_eq l, hc, hd]

theorem registered_uuid32 (batchId : String) :
    ChannelCallers.uuid32 batchId = Notarizations.uuid32 batchId := by
  refine BytesN.ext_bytes ?_
  simp only [ChannelCallers.uuid32, Notarizations.uuid32, Notarizations.copyTo, cleanUuid,
    fromHex_eq, List.take_append, List.take_replicate, List.length_take]
  congr 2
  omega

theorem uuid32_inj {a b : BatchUuid}
    (h : Notarizations.uuid32 a.text = Notarizations.uuid32 b.text) :
    a.value = b.value := by
  have hlength (id : BatchUuid) : (Notarizations.fromHex (cleanUuid id.text)).length = 16 := by
    rw [length_fromHex id.hexadecimal, id.digits]
  have hbytes := congrArg BytesN.bytes h
  simp only [Notarizations.uuid32, Notarizations.copyTo] at hbytes
  rw [List.take_of_length_le (by rw [hlength]; omega),
    List.take_of_length_le (by rw [hlength]; omega)] at hbytes
  have hsame := List.append_inj_left hbytes (by rw [hlength, hlength])
  exact fromHex_inj a.hexadecimal b.hexadecimal (by rw [a.digits, b.digits])
    (by rw [a.digits]) hsame

theorem entryName_inj {a b : String} :
    entryName a = entryName b ↔ (cleanUuid a).take 16 = (cleanUuid b).take 16 := by
  constructor
  · intro h
    have hlist := congrArg String.toList h
    simpa only [entryName, String.toList_append, String.toList_ofList, List.append_cancel_left_eq]
      using hlist
  · intro h
    rw [entryName, entryName, h]

/-- Neither registering nor notarising one batch uses a key of the other, in the contract or in the
entries of the fallback. -/
structure KeysDiffer (a b : String) : Prop where
  registered : ChannelCallers.uuid32 a ≠ ChannelCallers.uuid32 b
  notarized : Notarizations.uuid32 a ≠ Notarizations.uuid32 b
  crossed : ChannelCallers.uuid32 a ≠ Notarizations.uuid32 b
  entered : entryName a ≠ entryName b

/-- Two batches have keys of their own exactly if the first 16 digits of their UUIDs differ. -/
theorem keysDiffer_iff (a b : BatchUuid) (h : a.value ≠ b.value) :
    KeysDiffer a.text b.text ↔ (cleanUuid a.text).take 16 ≠ (cleanUuid b.text).take 16 := by
  have hkey : Notarizations.uuid32 a.text ≠ Notarizations.uuid32 b.text :=
    fun he => h (uuid32_inj he)
  constructor
  · exact fun hdiffer he => hdiffer.entered (entryName_inj.mpr he)
  · refine fun hne => ⟨?_, hkey, ?_, fun he => hne (entryName_inj.mp he)⟩
    · rwa [registered_uuid32, registered_uuid32]
    · rwa [registered_uuid32]

theorem ofReception_digits : (cleanUuid "6f1d2c3b-4a59-4687-9abc-000000000001").length = 32 := by
  decide

theorem ofReception_hexadecimal :
    ∀ c ∈ cleanUuid "6f1d2c3b-4a59-4687-9abc-000000000001", (hexValue c).isSome :=
  List.all_eq_true.mp (by decide)

theorem likeReception_digits : (cleanUuid "6f1d2c3b-4a59-4687-9abc-000000000002").length = 32 := by
  decide

theorem likeReception_hexadecimal :
    ∀ c ∈ cleanUuid "6f1d2c3b-4a59-4687-9abc-000000000002", (hexValue c).isSome :=
  List.all_eq_true.mp (by decide)

def ofReception : BatchUuid := ⟨_, ofReception_digits, ofReception_hexadecimal⟩

def likeReception : BatchUuid := ⟨_, likeReception_digits, likeReception_hexadecimal⟩

theorem keysDiffer_iff_reception :
    KeysDiffer ofReception.text likeReception.text ↔
      (cleanUuid ofReception.text).take 16 ≠ (cleanUuid likeReception.text).take 16 :=
  keysDiffer_iff ofReception likeReception (by decide)

theorem entries_collide :
    ofReception.value ≠ likeReception.value ∧
      entryName ofReception.text = entryName likeReception.text ∧
      ¬KeysDiffer ofReception.text likeReception.text := by
  have hname : entryName ofReception.text = entryName likeReception.text := by decide
  exact ⟨by decide, hname, fun h => h.entered hname⟩

/-! ### What the fallback overwrites -/

/-- The value of an account's entry: the last one written under the name. -/
def entryUnder (c : Notarizations.Chain) (account : Address) (name : String) : Option String :=
  ((c.entries.filter fun entry => entry.1 == account && entry.2.1 == name).getLast?).map
    fun entry => entry.2.2

variable {net : Notarizations.Network} {signer : Address} {c : Notarizations.Chain}
    {l : Notarizations.Ledger}

theorem entryUnder_fallback (req : Notarizations.Request) (batchId : String) :
    entryUnder (c.include net signer l (Notarizations.fallbackTx req)) signer (entryName batchId) =
      if (cleanUuid req.batchId).take 16 = (cleanUuid batchId).take 16 then
        some (Notarizations.entryValue req.ipfsCid)
      else entryUnder c signer (entryName batchId) := by
  have hentries : (c.include net signer l (Notarizations.fallbackTx req)).entries =
      c.entries ++ [(signer, entryName req.batchId, Notarizations.entryValue req.ipfsCid)] := rfl
  rw [entryUnder, entryUnder, hentries, List.filter_append]
  by_cases hname : entryName req.batchId = entryName batchId
  · rw [if_pos (entryName_inj.mp hname)]
    simp [hname]
  · rw [if_neg fun h => hname (entryName_inj.mpr h)]
    simp [hname]

end Livora.ReceiptKeys
