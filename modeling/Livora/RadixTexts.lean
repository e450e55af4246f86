import Mathlib.Data.List.GetD
import Mathlib.Data.List.TakeWhile
import Mathlib.Data.Nat.Digits.Lemmas

/-! Byte strings as texts in the digits of an alphabet. A byte string is one number, written from
its last digit on; its leading zeros, which the number does not show, are written one by one. -/

namespace Livora.RadixTexts

abbrev Bytes := List UInt8

structure Alphabet where
  chars : List Char
  nodup : chars.Nodup
  two_le : 2 ≤ chars.length

/-! ### Numbers -/

namespace Alphabet

def base (a : Alphabet) : ℕ := a.chars.length

def char (a : Alphabet) (d : ℕ) : Char := a.chars.getD d ' '

/-- The digits of `num` in front of what is written already. -/
def write (a : Alphabet) (num : ℕ) (encoded : List Char) : List Char :=
  if _h : 0 < num then a.write (num / a.base) (a.char (num % a.base) :: encoded) else encoded
termination_by num
decreasing_by exact Nat.div_lt_self _h a.two_le

def digit (a : Alphabet) (c : Char) : Option ℕ :=
  if c ∈ a.chars then some (a.chars.idxOf c) else none

def read (a : Alphabet) (text : List Char) : Option ℕ :=
  text.foldlM (fun n c => (a.digit c).map (n * a.base + ·)) 0

variable {a : Alphabet} {n k d : ℕ}

theorem one_lt_base (a : Alphabet) : 1 < a.base := a.two_le

theorem char_mem (h : d < a.base) : a.char d ∈ a.chars := by
  rw [char, List.getD_eq_getElem _ _ h]
  exact List.getElem_mem h

theorem digit_char (h : d < a.base) : a.digit (a.char d) = some d := by
  have hindex : a.chars.idxOf (a.char d) = d := by
    rw [char, List.getD_eq_getElem _ _ h]
    exact a.nodup.idxOf_getElem d h
  rw [digit, if_pos (char_mem h), hindex]

theorem char_inj (h : d < a.base) (hk : k < a.base) (hchar : a.char d = a.char k) : d = k :=
  Option.some.inj ((digit_char h).symm.trans (hchar ▸ digit_char hk))

theorem write_eq (a : Alphabet) (n : ℕ) (encoded : List Char) :
    a.write n encoded = (Nat.digits a.base n).reverse.map a.char ++ encoded := by
  induction n using Nat.strong_induction_on generalizing encoded with
  | h n ih =>
    rw [write]
    split
    · rename_i hpos
      rw [ih _ (Nat.div_lt_self hpos a.one_lt_base), Nat.digits_def' a.one_lt_base hpos,
        List.reverse_cons, List.map_append, List.append_assoc]
      rfl
    · rename_i hzero
      obtain rfl := Nat.eq_zero_of_not_pos hzero
      simp

theorem read_digits {ds : List ℕ} (h : ∀ d ∈ ds, d < a.base) :
    a.read (ds.reverse.map a.char) = some (Nat.ofDigits a.base ds) := by
  induction ds with
  | nil => rfl
  | cons d ds ih =>
    have hrest := ih fun e he => h e (List.mem_cons_of_mem _ he)
    unfold read at hrest ⊢
    rw [List.reverse_cons, List.map_append, List.foldlM_append, hrest]
    simp [digit_char (h d List.mem_cons_self), Nat.ofDigits_cons, Nat.mul_comm, Nat.add_comm]

theorem mem_chars_of_mem_write {c : Char} (h : c ∈ a.write n []) : c ∈ a.chars := by
  rw [write_eq, List.append_nil] at h
  obtain ⟨d, hd, rfl⟩ := List.mem_map.mp h
  exact char_mem (Nat.digits_lt_base a.one_lt_base (List.mem_reverse.mp hd))

theorem length_write (hlow : a.base ^ k ≤ n) (hhigh : n < a.base ^ (k + 1)) :
    (a.write n []).length = k + 1 := by
  rw [write_eq, List.append_nil, List.length_map, List.length_reverse]
  have hle := (Nat.digits_length_le_iff a.one_lt_base n).mpr hhigh
  have hlt := (Nat.lt_digits_length_iff a.one_lt_base n).mpr hlow
  omega

theorem getElem?_write {i : ℕ} (hlength : (a.write n []).length = k + 1) (hi : i ≤ k) :
    (a.write n [])[i]? = some (a.char (n / a.base ^ (k - i) % a.base)) := by
  rw [write_eq, List.append_nil, List.length_map, List.length_reverse] at hlength
  have hindex : k - i < (Nat.digits a.base n).length := by omega
  rw [write_eq, List.append_nil, List.getElem?_map, List.getElem?_reverse (by omega), hlength,
    show k + 1 - 1 - i = k - i by omega, ← Nat.getD_digits n (k - i) (b := a.base) a.one_lt_base,
    List.getD_eq_getElem _ _ hindex, List.getElem?_eq_getElem hindex, Option.map_some]

end Alphabet

/-! ### Bytes -/

def number (bytes : Bytes) : ℕ := bytes.foldl (fun n b => n * 256 + b.toNat) 0

def bytesOf (n : ℕ) : Bytes := (Nat.digits 256 n).reverse.map UInt8.ofNat

theorem number_eq (bytes : Bytes) :
    number bytes = Nat.ofDigits 256 (bytes.reverse.map UInt8.toNat) := by
  induction bytes using List.reverseRecOn with
  | nil => rfl
  | append_singleton bytes b ih =>
    rw [number, List.foldl_append, ← number, ih, List.reverse_append]
    simp [Nat.ofDigits_cons, Nat.mul_comm, Nat.add_comm]

theorem number_replicate_append (k : ℕ) (bytes : Bytes) :
    number (List.replicate k 0 ++ bytes) = number bytes := by
  have hzeros : number (List.replicate k 0) = 0 := by
    rw [number_eq]
    simp [Nat.ofDigits_replicate_zero]
  rw [number, List.foldl_append, ← number, hzeros, number]

theorem bytesOf_number {bytes : Bytes} (h : ∀ b ∈ bytes.head?, b ≠ 0) :
    bytesOf (number bytes) = bytes := by
  have hdigits : Nat.digits 256 (number bytes) = bytes.reverse.map UInt8.toNat := by
    rw [number_eq]
    refine Nat.digits_ofDigits 256 (by decide) _ (fun d hd => ?_) fun hne => ?_
    · obtain ⟨b, -, rfl⟩ := List.mem_map.mp hd
      exact b.toNat_lt
    · cases bytes with
      | nil => exact absurd rfl hne
      | cons b bytes =>
        have hb := h b rfl
        simpa [← UInt8.toNat_inj] using hb
  rw [bytesOf, hdigits, ← List.map_reverse, List.reverse_reverse, List.map_map]
  simp [Function.comp_def]

theorem lt_number_append {bytes rest : Bytes} :
    number bytes * 256 ^ rest.length ≤ number (bytes ++ rest) ∧
      number (bytes ++ rest) < (number bytes + 1) * 256 ^ rest.length := by
  induction rest using List.reverseRecOn with
  | nil => simp
  | append_singleton rest b ih =>
    have hnumber : number (bytes ++ (rest ++ [b])) = number (bytes ++ rest) * 256 + b.toNat := by
      simp [number, List.foldl_append]
    have hb := b.toNat_lt
    rw [hnumber, List.length_append, List.length_singleton, pow_succ, ← Nat.mul_assoc,
      ← Nat.mul_assoc]
    omega

/-! ### Byte strings as texts -/

namespace Alphabet

variable {a : Alphabet}

def leading (bytes : Bytes) : ℕ := (bytes.takeWhile (· == 0)).length

def encode (a : Alphabet) (bytes : Bytes) : List Char :=
  List.replicate (leading bytes) (a.char 0) ++ a.write (number bytes) []

def decode (a : Alphabet) (text : List Char) : Option Bytes :=
  (a.read text).map fun n => List.replicate (text.takeWhile (· == a.char 0)).length 0 ++ bytesOf n

theorem bytes_eq (bytes : Bytes) :
    bytes = List.replicate (leading bytes) 0 ++ bytes.dropWhile (· == 0) := by
  have hzeros : bytes.takeWhile (· == 0) = List.replicate (leading bytes) 0 :=
    List.eq_replicate_iff.mpr ⟨rfl, fun b hb => by simpa using List.mem_takeWhile_imp hb⟩
  rw [← hzeros, List.takeWhile_append_dropWhile]

theorem takeWhile_write (n : ℕ) : (a.write n []).takeWhile (· == a.char 0) = [] := by
  rw [write_eq, List.append_nil]
  cases hdigits : (Nat.digits a.base n).reverse with
  | nil => rfl
  | cons d rest =>
    have hlast : (Nat.digits a.base n).getLast? = some d := by
      rw [List.getLast?_eq_head?_reverse, hdigits]; rfl
    have hn : n ≠ 0 := by
      rintro rfl
      simp at hlast
    have hne : Nat.digits a.base n ≠ [] := Nat.digits_ne_nil_iff_ne_zero.mpr hn
    rw [List.getLast?_eq_getLast_of_ne_nil hne] at hlast
    have hd : d ≠ 0 := Option.some.inj hlast ▸ Nat.getLast_digit_ne_zero a.base hn
    have hlt : d < a.base := Nat.digits_lt_base a.one_lt_base
      (List.mem_reverse.mp (hdigits ▸ List.mem_cons_self))
    have hchar : a.char d ≠ a.char 0 := fun h =>
      hd (char_inj hlt (Nat.zero_lt_one.trans a.one_lt_base) h)
    simp [hchar]

theorem read_encode (bytes : Bytes) : a.read (a.encode bytes) = some (number bytes) := by
  have htext : a.encode bytes =
      (Nat.digits a.base (number bytes) ++
        List.replicate (leading bytes) 0).reverse.map a.char := by
    rw [encode, write_eq, List.append_nil, List.reverse_append, List.map_append,
      List.reverse_replicate, List.map_replicate]
  rw [htext, read_digits, Nat.ofDigits_append_replicate_zero, Nat.ofDigits_digits]
  intro d hd
  rcases List.mem_append.mp hd with hd | hd
  · exact Nat.digits_lt_base a.one_lt_base hd
  · rw [List.eq_of_mem_replicate hd]
    exact Nat.zero_lt_one.trans a.one_lt_base

theorem decode_encode (bytes : Bytes) : a.decode (a.encode bytes) = some bytes := by
  have hzeros : ((a.encode bytes).takeWhile (· == a.char 0)).length = leading bytes := by
    rw [encode, List.takeWhile_append_of_pos fun c hc => by simp [List.eq_of_mem_replicate hc],
      takeWhile_write, List.append_nil, List.length_replicate]
  have hnumber : number bytes = number (bytes.dropWhile (· == 0)) := by
    conv_lhs => rw [bytes_eq bytes]
    exact number_replicate_append _ _
  have hhead : ∀ b ∈ (bytes.dropWhile (· == 0)).head?, b ≠ 0 := by
    intro b hb hzero
    have hnot := List.head?_dropWhile_not (· == 0) bytes
    rw [hb] at hnot
    simp [hzero] at hnot
  rw [decode, read_encode, Option.map_some, hzeros, hnumber, bytesOf_number hhead, ← bytes_eq]

end Alphabet

end Livora.RadixTexts
