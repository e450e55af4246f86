import Mathlib.Data.List.Basic
import Mathlib.Tactic.Common

/-! How texts are written as bytes: hexadecimal digits, UTF-16 code units, UTF-8. A
surrogate without its other half has no UTF-8 and is replaced; so is what is no
UTF-8 when it is read back. -/

namespace Livora.TextEncodings

/-- A text as its UTF-16 code units. -/
abbrev Text := List UInt16

abbrev Bytes := List UInt8

/-! ### Hexadecimal -/

/-- The digit of a number below 16, in lower case. -/
def hexDigit (n : ℕ) : UInt16 := UInt16.ofNat (if n < 10 then 48 + n else 87 + n)

def hexValue (u : UInt16) : Option ℕ :=
  if 48 ≤ u.toNat ∧ u.toNat ≤ 57 then some (u.toNat - 48)
  else if 97 ≤ u.toNat ∧ u.toNat ≤ 102 then some (u.toNat - 87)
  else if 65 ≤ u.toNat ∧ u.toNat ≤ 70 then some (u.toNat - 55)
  else none

def toHex (bytes : Bytes) : Text :=
  bytes.flatMap fun b => [hexDigit (b.toNat / 16), hexDigit (b.toNat % 16)]

/-- The digits up to the first that is none; half a byte at the end is dropped. -/
def fromHex : Text → Bytes
  | high :: low :: rest =>
    match hexValue high, hexValue low with
    | some a, some b => UInt8.ofNat (16 * a + b) :: fromHex rest
    | _, _ => []
  | _ => []

theorem toNat_hexDigit {n : ℕ} (h : n < 16) :
    (hexDigit n).toNat = if n < 10 then 48 + n else 87 + n := by
  rw [hexDigit, UInt16.toNat_ofNat_of_lt']
  split <;> (simp only [UInt16.size]; omega)

theorem hexValue_hexDigit {n : ℕ} (h : n < 16) : hexValue (hexDigit n) = some n := by
  rw [hexValue, toNat_hexDigit h]
  by_cases hsmall : n < 10
  · rw [if_pos hsmall, if_pos (by omega)]
    congr 1
    omega
  · rw [if_neg hsmall, if_neg (by omega), if_pos (by omega)]
    congr 1
    omega

theorem fromHex_toHex (bytes : Bytes) : fromHex (toHex bytes) = bytes := by
  induction bytes with
  | nil => rfl
  | cons b rest ih =>
    have hb := b.toNat_lt
    have hcons : toHex (b :: rest) = hexDigit (b.toNat / 16) :: hexDigit
      (b.toNat % 16) :: toHex rest := rfl
    rw [hcons, fromHex, hexValue_hexDigit (by omega), hexValue_hexDigit (by omega), ih]
    dsimp only
    rw [Nat.div_add_mod, UInt8.ofNat_toNat]

theorem length_toHex (bytes : Bytes) : (toHex bytes).length = 2 * bytes.length := by
  induction bytes with
  | nil => rfl
  | cons b rest ih =>
    change ((toHex rest).length + 1) + 1 = _
    rw [ih, List.length_cons]
    omega

theorem not_mem_toHex {u : UInt16} (h : hexValue u = none) (bytes : Bytes) : u ∉ toHex bytes := by
  intro hmem
  obtain ⟨b, -, hu⟩ := List.mem_flatMap.mp hmem
  have hb := b.toNat_lt
  simp only [List.mem_cons, List.not_mem_nil, or_false] at hu
  rcases hu with rfl | rfl
  · rw [hexValue_hexDigit (by omega)] at h
    cases h
  · rw [hexValue_hexDigit (by omega)] at h
    cases h

/-! ### UTF-16 -/

def replacement : Char := Char.ofNat 0xFFFD

def highSurrogate (u : UInt16) : Bool := 0xD800 ≤ u.toNat && u.toNat < 0xDC00

def lowSurrogate (u : UInt16) : Bool := 0xDC00 ≤ u.toNat && u.toNat < 0xE000

def units (c : Char) : Text :=
  if c.toNat < 0x10000 then [UInt16.ofNat c.toNat]
  else [UInt16.ofNat (0xD800 + (c.toNat - 0x10000) / 0x400),
    UInt16.ofNat (0xDC00 + (c.toNat - 0x10000) % 0x400)]

def toText (cs : List Char) : Text := cs.flatMap units

def single (u : UInt16) : Char :=
  if highSurrogate u || lowSurrogate u then replacement else Char.ofNat u.toNat

def paired (u v : UInt16) : Char :=
  Char.ofNat (0x10000 + (u.toNat - 0xD800) * 0x400 + (v.toNat - 0xDC00))

def chars : Text → List Char
  | [] => []
  | [u] => [single u]
  | u :: v :: rest =>
    if highSurrogate u && lowSurrogate v then paired u v :: chars rest else single u :: chars
      (v :: rest)

theorem chars_cons_of_single {u : UInt16} (h : highSurrogate u = false) (rest : Text) :
    chars (u :: rest) = single u :: chars rest := by
  cases rest with
  | nil => rfl
  | cons v rest => rw [chars, h, Bool.false_and, if_neg Bool.false_ne_true]

theorem chars_units (c : Char) (rest : Text) : chars (units c ++ rest) = c :: chars rest := by
  have hvalid : c.toNat < 0xD800 ∨ 0xDFFF < c.toNat ∧ c.toNat < 0x110000 := c.valid
  unfold units
  split
  · rename_i hsmall
    have hnat : (UInt16.ofNat c.toNat).toNat = c.toNat :=
      UInt16.toNat_ofNat_of_lt' (by simp only [UInt16.size]; omega)
    have hhigh : highSurrogate (UInt16.ofNat c.toNat) = false := by
      rw [highSurrogate, hnat, Bool.and_eq_false_iff, decide_eq_false_iff_not,
        decide_eq_false_iff_not]
      omega
    have hlow : lowSurrogate (UInt16.ofNat c.toNat) = false := by
      rw [lowSurrogate, hnat, Bool.and_eq_false_iff, decide_eq_false_iff_not,
        decide_eq_false_iff_not]
      omega
    rw [List.singleton_append, chars_cons_of_single hhigh, single, hhigh, hlow, Bool.or_false,
      if_neg Bool.false_ne_true, hnat, Char.ofNat_toNat]
  · rename_i hlarge
    have hu : (UInt16.ofNat (0xD800 + (c.toNat - 0x10000) / 0x400)).toNat =
        0xD800 + (c.toNat - 0x10000) / 0x400 :=
      UInt16.toNat_ofNat_of_lt' (by simp only [UInt16.size]; omega)
    have hv : (UInt16.ofNat (0xDC00 + (c.toNat - 0x10000) % 0x400)).toNat =
        0xDC00 + (c.toNat - 0x10000) % 0x400 :=
      UInt16.toNat_ofNat_of_lt' (by simp only [UInt16.size]; omega)
    have hpair : (highSurrogate (UInt16.ofNat (0xD800 + (c.toNat - 0x10000) / 0x400)) &&
        lowSurrogate (UInt16.ofNat (0xDC00 + (c.toNat - 0x10000) % 0x400))) = true := by
      simp only [highSurrogate, lowSurrogate, hu, hv, Bool.and_eq_true, decide_eq_true_eq]
      omega
    have hvalue : 0x10000 + (0xD800 + (c.toNat - 0x10000) / 0x400 - 0xD800) * 0x400 +
        (0xDC00 + (c.toNat - 0x10000) % 0x400 - 0xDC00) = c.toNat := by omega
    rw [List.cons_append, List.cons_append, List.nil_append, chars, if_pos hpair, paired, hu,
      hv, hvalue, Char.ofNat_toNat]

theorem chars_toText (cs : List Char) : chars (toText cs) = cs := by
  induction cs with
  | nil => rfl
  | cons c cs ih => rw [toText, List.flatMap_cons, chars_units, ← toText, ih]

/-! ### UTF-8 -/

def charBytes (c : Char) : Bytes :=
  let n := c.toNat
  if n < 0x80 then [UInt8.ofNat n]
  else if n < 0x800 then [UInt8.ofNat (0xC0 + n / 0x40), UInt8.ofNat (0x80 + n % 0x40)]
  else if n < 0x10000 then
    [UInt8.ofNat (0xE0 + n / 0x1000), UInt8.ofNat (0x80 + n / 0x40 % 0x40),
      UInt8.ofNat (0x80 + n % 0x40)]
  else
    [UInt8.ofNat (0xF0 + n / 0x40000), UInt8.ofNat (0x80 + n / 0x1000 % 0x40),
      UInt8.ofNat (0x80 + n / 0x40 % 0x40), UInt8.ofNat (0x80 + n % 0x40)]

/-- A character that has begun: how many bytes are missing, what was read, and the bounds of the
next byte. -/
structure Begun where
  missing : ℕ
  value : ℕ
  lower : ℕ
  upper : ℕ

inductive Lead where
  | char (c : Char)
  | begun (b : Begun)
  | none

/-- What a byte begins; the shortest form only, and no surrogates. -/
def lead (n : ℕ) : Lead :=
  if n < 0x80 then .char (Char.ofNat n)
  else if n < 0xC2 then .none
  else if n < 0xE0 then .begun ⟨1, n - 0xC0, 0x80, 0xBF⟩
  else if n < 0xF0 then
    .begun ⟨2, n - 0xE0, if n = 0xE0 then 0xA0 else 0x80, if n = 0xED then 0x9F else 0xBF⟩
  else if n < 0xF5 then
    .begun ⟨3, n - 0xF0, if n = 0xF0 then 0x90 else 0x80, if n = 0xF4 then 0x8F else 0xBF⟩
  else .none

/-- A character broken off is replaced, and the byte that broke it off begins anew. -/
def decodeFrom : Option Begun → Bytes → List Char
  | none, [] => []
  | some _, [] => [replacement]
  | none, byte :: rest =>
    match lead byte.toNat with
    | .char c => c :: decodeFrom none rest
    | .begun b => decodeFrom (some b) rest
    | .none => replacement :: decodeFrom none rest
  | some b, byte :: rest =>
    if b.lower ≤ byte.toNat ∧ byte.toNat ≤ b.upper then
      if b.missing ≤ 1 then Char.ofNat (b.value * 0x40 + byte.toNat % 0x40) :: decodeFrom none rest
      else decodeFrom (some ⟨b.missing - 1, b.value * 0x40 + byte.toNat % 0x40, 0x80, 0xBF⟩) rest
    else
      match lead byte.toNat with
      | .char c => replacement :: c :: decodeFrom none rest
      | .begun b => replacement :: decodeFrom (some b) rest
      | .none => replacement :: replacement :: decodeFrom none rest

def encodeUtf8 (text : Text) : Bytes := (chars text).flatMap charBytes

def decodeUtf8 (bytes : Bytes) : Text := toText (decodeFrom none bytes)

section Utf8

variable {n : ℕ} {rest : Bytes} {b : Begun}

theorem decodeFrom_last (hn : n < 256) (hlower : b.lower ≤ n) (hupper : n ≤ b.upper)
    (hmissing : b.missing ≤ 1) :
    decodeFrom (some b)
    (UInt8.ofNat n :: rest) = Char.ofNat (b.value * 0x40 + n % 0x40) :: decodeFrom none rest := by
  have hnat : (UInt8.ofNat n).toNat = n := UInt8.toNat_ofNat_of_lt' hn
  rw [decodeFrom, hnat, if_pos ⟨hlower, hupper⟩, if_pos hmissing]

theorem decodeFrom_next (hn : n < 256) (hlower : b.lower ≤ n) (hupper : n ≤ b.upper)
    (hmissing : 1 < b.missing) :
    decodeFrom (some b) (UInt8.ofNat n :: rest) =
      decodeFrom (some ⟨b.missing - 1, b.value * 0x40 + n % 0x40, 0x80, 0xBF⟩) rest := by
  have hnat : (UInt8.ofNat n).toNat = n := UInt8.toNat_ofNat_of_lt' hn
  rw [decodeFrom, hnat, if_pos ⟨hlower, hupper⟩, if_neg (by omega)]

theorem decodeFrom_begin (hn : n < 256) (h : lead n = .begun b) :
    decodeFrom none (UInt8.ofNat n :: rest) = decodeFrom (some b) rest := by
  have hnat : (UInt8.ofNat n).toNat = n := UInt8.toNat_ofNat_of_lt' hn
  rw [decodeFrom, hnat, h]

theorem decodeFrom_char {c : Char} (hn : n < 256) (h : lead n = .char c) :
    decodeFrom none (UInt8.ofNat n :: rest) = c :: decodeFrom none rest := by
  have hnat : (UInt8.ofNat n).toNat = n := UInt8.toNat_ofNat_of_lt' hn
  rw [decodeFrom, hnat, h]

theorem decodeFrom_charBytes (c : Char) :
    decodeFrom none (charBytes c ++ rest) = c :: decodeFrom none rest := by
  have hvalid : c.toNat < 0xD800 ∨ 0xDFFF < c.toNat ∧ c.toNat < 0x110000 := c.valid
  have hself := Char.ofNat_toNat c
  generalize hn : c.toNat = n at *
  unfold charBytes
  simp only [hn]
  split_ifs with h1 h2 h3
  · have hlead : lead n = .char c := by rw [lead, if_pos h1, hself]
    exact decodeFrom_char (by omega) hlead
  · have hlead : lead (0xC0 + n / 0x40) = .begun ⟨1, n / 0x40, 0x80, 0xBF⟩ := by
      rw [lead, if_neg (by omega), if_neg (by omega), if_pos (by omega), Nat.add_sub_cancel_left]
    have hvalue : n / 0x40 * 0x40 + (0x80 + n % 0x40) % 0x40 = n := by omega
    rw [List.cons_append, List.cons_append, List.nil_append, decodeFrom_begin (by omega) hlead,
      decodeFrom_last (by omega) (by dsimp only; omega) (by dsimp only; omega) (Nat.le_refl 1),
        hvalue, hself]
  · have hlead : lead (0xE0 + n / 0x1000) =
        .begun ⟨2, n / 0x1000, if 0xE0 + n / 0x1000 = 0xE0 then 0xA0 else 0x80,
          if 0xE0 + n / 0x1000 = 0xED then 0x9F else 0xBF⟩ := by
      rw [lead, if_neg (by omega), if_neg (by omega), if_neg (by omega), if_pos (by omega),
        Nat.add_sub_cancel_left]
    have hvalue : (n / 0x1000 * 0x40 + (0x80 + n / 0x40 % 0x40) % 0x40) * 0x40 +
        (0x80 + n % 0x40) % 0x40 = n := by omega
    rw [List.cons_append, List.cons_append, List.cons_append, List.nil_append,
      decodeFrom_begin (by omega) hlead,
      decodeFrom_next (by omega) (by dsimp only; split <;> omega) (by dsimp only; split <;> omega)
        (by dsimp only; omega),
      decodeFrom_last (by omega) (by dsimp only; omega) (by dsimp only; omega)
        (by dsimp only; omega)]
    dsimp only
    rw [hvalue, hself]
  · have hlead : lead (0xF0 + n / 0x40000) =
        .begun ⟨3, n / 0x40000, if 0xF0 + n / 0x40000 = 0xF0 then 0x90 else 0x80,
          if 0xF0 + n / 0x40000 = 0xF4 then 0x8F else 0xBF⟩ := by
      rw [lead, if_neg (by omega), if_neg (by omega), if_neg (by omega), if_neg (by omega),
        if_pos (by omega), Nat.add_sub_cancel_left]
    have hvalue : ((n / 0x40000 * 0x40 + (0x80 + n / 0x1000 % 0x40) % 0x40) * 0x40 +
        (0x80 + n / 0x40 % 0x40) % 0x40) * 0x40 + (0x80 + n % 0x40) % 0x40 = n := by omega
    rw [List.cons_append, List.cons_append, List.cons_append, List.cons_append, List.nil_append,
      decodeFrom_begin (by omega) hlead,
      decodeFrom_next (by omega) (by dsimp only; split <;> omega) (by dsimp only; split <;> omega)
        (by dsimp only; omega),
      decodeFrom_next (by omega) (by dsimp only; omega) (by dsimp only; omega)
        (by dsimp only; omega),
      decodeFrom_last (by omega) (by dsimp only; omega) (by dsimp only; omega)
        (by dsimp only; omega)]
    dsimp only
    rw [hvalue, hself]

theorem decodeFrom_flatMap (cs : List Char) : decodeFrom none (cs.flatMap charBytes) = cs := by
  induction cs with
  | nil => rfl
  | cons c cs ih => rw [List.flatMap_cons, decodeFrom_charBytes, ih]

def WellFormed (text : Text) : Prop := ∃ cs, text = toText cs

theorem decodeUtf8_encodeUtf8 {text : Text} (h : WellFormed text) :
    decodeUtf8 (encodeUtf8 text) = text := by
  obtain ⟨cs, rfl⟩ := h
  rw [decodeUtf8, encodeUtf8, chars_toText, decodeFrom_flatMap]

end Utf8

end Livora.TextEncodings
