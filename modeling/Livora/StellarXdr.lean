import Livora.CheckedWords
import Mathlib.Data.List.Basic
import Mathlib.Tactic.Ring

/-! The part of the Stellar XDR encoding that a contract message uses: account
and contract addresses, 128-bit integers and one vector of them. Every union
arm starts with its four-byte discriminant and integers are big-endian, so no
encoding is a proper prefix of another and a message determines its fields. -/

namespace Livora.StellarXdr

open CheckedWords

abbrev Bytes := List UInt8

structure BytesN (n : ℕ) where
  bytes : Bytes
  length_eq : bytes.length = n
deriving DecidableEq

theorem BytesN.ext_bytes {n : ℕ} {a b : BytesN n} (h : a.bytes = b.bytes) : a = b := by
  cases a
  cases b
  simp_all

def BytesN.fill (n : ℕ) (b : UInt8) : BytesN n := ⟨List.replicate n b, List.length_replicate⟩

abbrev I128 := SWord 128

/-- An on-chain address: an account named by its ed25519 key, or a contract id. -/
inductive Address where
  | account (key : BytesN 32)
  | contract (id : BytesN 32)
deriving DecidableEq

/-- `k` big-endian bytes of `n`. -/
def beBytes : ℕ → ℕ → Bytes
  | 0, _ => []
  | k + 1, n => beBytes k (n / 256) ++ [UInt8.ofNat (n % 256)]

@[simp] theorem beBytes_length (k n : ℕ) : (beBytes k n).length = k := by
  induction k generalizing n with
  | zero => rfl
  | succ k ih => simp [beBytes, ih]

theorem beBytes_injective {k m n : ℕ} (hm : m < 256 ^ k) (hn : n < 256 ^ k)
    (h : beBytes k m = beBytes k n) : m = n := by
  induction k generalizing m n with
  | zero => simp at hm hn; omega
  | succ k ih =>
    simp only [beBytes] at h
    obtain ⟨hhigh, hlow⟩ := List.append_inj h (by simp)
    have hm' : m / 256 < 256 ^ k := by
      rw [Nat.div_lt_iff_lt_mul (by norm_num)]; simpa [pow_succ] using hm
    have hn' : n / 256 < 256 ^ k := by
      rw [Nat.div_lt_iff_lt_mul (by norm_num)]; simpa [pow_succ] using hn
    have hdiv := ih hm' hn' hhigh
    have hbyte : (UInt8.ofNat (m % 256)).toNat = (UInt8.ofNat (n % 256)).toNat := by
      rw [List.singleton_inj.mp hlow]
    simp only [UInt8.toNat_ofNat'] at hbyte
    omega

/-- Two's complement residue, the value the sixteen bytes of an `i128` spell. -/
def residue (x : I128) : ℕ := (x.val % 2 ^ 128).toNat

theorem residue_lt (x : I128) : residue x < 256 ^ 16 := by
  have : x.val % 2 ^ 128 < 2 ^ 128 := Int.emod_lt_of_pos _ (by norm_num)
  unfold residue
  omega

theorem residue_injective {x y : I128} (h : residue x = residue y) : x = y := by
  obtain ⟨hxl, hxu⟩ := x.fits
  obtain ⟨hyl, hyu⟩ := y.fits
  apply SWord.ext
  unfold residue at h
  norm_num at hxl hxu hyl hyu h
  omega

inductive ScVal where
  | i128 (x : I128)
  | address (a : Address)
deriving DecidableEq

/-- `SCAddress`: address type, then the key type for an account, then 32 bytes. -/
def Address.scAddress : Address → Bytes
  | .account key => beBytes 4 0 ++ beBytes 4 0 ++ key.bytes
  | .contract id => beBytes 4 1 ++ id.bytes

def ScVal.toXdr : ScVal → Bytes
  | .i128 x => beBytes 4 10 ++ beBytes 16 (residue x)
  | .address a => beBytes 4 18 ++ a.scAddress

/-- `ScVal::Vec(Some(elements))`. -/
def scvVec (elements : List ScVal) : Bytes :=
  beBytes 4 16 ++ beBytes 4 1 ++ beBytes 4 elements.length ++ elements.flatMap ScVal.toXdr

def Address.toXdr (a : Address) : Bytes := (ScVal.address a).toXdr

theorem Address.toXdr_length (a : Address) :
    a.toXdr.length = match a with | .account _ => 44 | .contract _ => 40 := by
  cases a with
  | account key => simp [toXdr, ScVal.toXdr, scAddress, key.length_eq]
  | contract id => simp [toXdr, ScVal.toXdr, scAddress, id.length_eq]

/-- The 32 bytes of an address: the key of an account, the id of a contract. -/
def Address.trailing : Address → BytesN 32
  | .account key => key
  | .contract id => id

theorem Address.toXdr_drop (a : Address) :
    a.toXdr.drop (a.toXdr.length - 32) = a.trailing.bytes := by
  rw [toXdr_length]
  cases a with
  | account key =>
    have hsplit : (account key).toXdr =
        (beBytes 4 18 ++ (beBytes 4 0 ++ beBytes 4 0)) ++ key.bytes := by
      simp [toXdr, ScVal.toXdr, scAddress]
    rw [hsplit, List.drop_left' (by simp)]
    rfl
  | contract id =>
    have hsplit : (contract id).toXdr = (beBytes 4 18 ++ beBytes 4 1) ++ id.bytes := by
      simp [toXdr, ScVal.toXdr, scAddress]
    rw [hsplit, List.drop_left' (by simp)]
    rfl

private theorem discriminant_ne {j k : ℕ} {u v : Bytes} (hj : j < 256 ^ 4) (hk : k < 256 ^ 4)
    (h : j ≠ k) : beBytes 4 j ++ u ≠ beBytes 4 k ++ v := fun e =>
  h (beBytes_injective hj hk (List.append_inj e (by simp)).1)

theorem Address.scAddress_append_inj {a b : Address} {u v : Bytes}
    (h : a.scAddress ++ u = b.scAddress ++ v) : a = b ∧ u = v := by
  cases a with
  | account key =>
    cases b with
    | account key' =>
      simp only [scAddress, List.append_assoc, List.append_cancel_left_eq] at h
      obtain ⟨hb, huv⟩ := List.append_inj h (by rw [key.length_eq, key'.length_eq])
      exact ⟨by rw [BytesN.ext_bytes hb], huv⟩
    | contract id =>
      simp only [scAddress, List.append_assoc] at h
      exact absurd h (discriminant_ne (by norm_num) (by norm_num) (by norm_num))
  | contract id =>
    cases b with
    | account key =>
      simp only [scAddress, List.append_assoc] at h
      exact absurd h (discriminant_ne (by norm_num) (by norm_num) (by norm_num))
    | contract id' =>
      simp only [scAddress, List.append_assoc, List.append_cancel_left_eq] at h
      obtain ⟨hb, huv⟩ := List.append_inj h (by rw [id.length_eq, id'.length_eq])
      exact ⟨by rw [BytesN.ext_bytes hb], huv⟩

theorem ScVal.toXdr_append_inj {a b : ScVal} {u v : Bytes}
    (h : a.toXdr ++ u = b.toXdr ++ v) : a = b ∧ u = v := by
  cases a with
  | i128 x =>
    cases b with
    | i128 y =>
      simp only [toXdr, List.append_assoc, List.append_cancel_left_eq] at h
      obtain ⟨hb, huv⟩ := List.append_inj h (by simp)
      have hres := beBytes_injective (residue_lt x) (residue_lt y) hb
      exact ⟨by rw [residue_injective hres], huv⟩
    | address b =>
      simp only [toXdr, List.append_assoc] at h
      exact absurd h (discriminant_ne (by norm_num) (by norm_num) (by norm_num))
  | address a =>
    cases b with
    | i128 y =>
      simp only [toXdr, List.append_assoc] at h
      exact absurd h (discriminant_ne (by norm_num) (by norm_num) (by norm_num))
    | address b =>
      simp only [toXdr, List.append_assoc, List.append_cancel_left_eq] at h
      obtain ⟨rfl, huv⟩ := Address.scAddress_append_inj h
      exact ⟨rfl, huv⟩

theorem ScVal.toXdr_ne_nil (a : ScVal) : a.toXdr ≠ [] := by
  intro h
  have hlen := congrArg List.length h
  cases a <;> simp [toXdr] at hlen

theorem scvVec_injective : Function.Injective scvVec := by
  intro xs ys h
  simp only [scvVec, List.append_assoc, List.append_cancel_left_eq] at h
  have helems := (List.append_inj h (by simp)).2
  clear h
  induction xs generalizing ys with
  | nil =>
    cases ys with
    | nil => rfl
    | cons y ys => exact absurd (List.append_eq_nil_iff.mp helems.symm).1 y.toXdr_ne_nil
  | cons x xs ih =>
    cases ys with
    | nil => exact absurd (List.append_eq_nil_iff.mp helems).1 x.toXdr_ne_nil
    | cons y ys =>
      simp only [List.flatMap_cons] at helems
      obtain ⟨rfl, hrest⟩ := ScVal.toXdr_append_inj helems
      rw [ih hrest]

end Livora.StellarXdr
