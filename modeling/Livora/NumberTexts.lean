import Livora.DecimalTexts
import Livora.DoubleRounding
import Mathlib.Data.List.DropRight

/-! Numbers in the texts of a script: what a number is written as, and the two ways of reading a
text, as a whole and as far as it goes. The sign of zero is left aside. -/

namespace Livora.NumberTexts

open DoubleRounding DecimalTexts

/-- A number of the language. -/
inductive ScriptNumber where
  | nan
  | infinite (negative : Bool)
  | finite (x : Double)
deriving DecidableEq

/-- The number nearest to `x`. -/
def ScriptNumber.ofRat (x : ℚ) : ScriptNumber :=
  match Double.ofRat? x with
  | some d => .finite d
  | none => .infinite (decide (x < 0))

theorem ScriptNumber.ofRat_eq_finite {x : ℚ} {d : Double} :
    ScriptNumber.ofRat x = .finite d ↔ Double.ofRat? x = some d := by
  unfold ScriptNumber.ofRat
  cases Double.ofRat? x <;> simp

def ScriptNumber.add : ScriptNumber → ScriptNumber → ScriptNumber
  | .finite x, .finite y => .ofRat (x.val + y.val)
  | .infinite a, .infinite b => if a = b then .infinite a else .nan
  | .infinite a, .finite _ => .infinite a
  | .finite _, .infinite b => .infinite b
  | _, _ => .nan

def ScriptNumber.sub : ScriptNumber → ScriptNumber → ScriptNumber
  | .finite x, .finite y => .ofRat (x.val - y.val)
  | .infinite a, .infinite b => if a = b then .nan else .infinite a
  | .infinite a, .finite _ => .infinite a
  | .finite _, .infinite b => .infinite !b
  | _, _ => .nan

def ScriptNumber.mul : ScriptNumber → ScriptNumber → ScriptNumber
  | .finite x, .finite y => .ofRat (x.val * y.val)
  | .infinite a, .infinite b => .infinite (a ^^ b)
  | .infinite a, .finite y => if y.val = 0 then .nan else .infinite (a ^^ decide (y.val < 0))
  | .finite x, .infinite b => if x.val = 0 then .nan else .infinite (decide (x.val < 0) ^^ b)
  | _, _ => .nan

def ScriptNumber.div : ScriptNumber → ScriptNumber → ScriptNumber
  | .finite x, .finite y =>
    if y.val ≠ 0 then .ofRat (x.val / y.val)
    else if x.val = 0 then .nan else .infinite (decide (x.val < 0))
  | .infinite a, .finite y => .infinite (a ^^ decide (y.val < 0))
  | .finite _, .infinite _ => .ofRat 0
  | _, _ => .nan

/-- `Math.round` -/
def ScriptNumber.round : ScriptNumber → ScriptNumber
  | .finite x => .ofRat ⌊x.val + 1 / 2⌋
  | x => x

/-- `Math.max` -/
def ScriptNumber.max : ScriptNumber → ScriptNumber → ScriptNumber
  | .finite x, .finite y => if x.val ≤ y.val then .finite y else .finite x
  | .nan, _ => .nan
  | _, .nan => .nan
  | .infinite true, y => y
  | x, .infinite true => x
  | _, _ => .infinite false

/-! ### Reading -/

def isSpace (c : Char) : Bool :=
  c.toNat ∈ [0x9, 0xA, 0xB, 0xC, 0xD, 0x20, 0xA0, 0x1680, 0x2028, 0x2029, 0x202F, 0x205F, 0x3000,
    0xFEFF] ||
    (decide (0x2000 ≤ c.toNat) && decide (c.toNat ≤ 0x200A))

def trimStart (text : List Char) : List Char := text.dropWhile isSpace

def trim (text : List Char) : List Char := (trimStart text).rdropWhile isSpace

/-- A sign, if there is one: whether it is a minus, and what follows. -/
def sign : List Char → Bool × List Char
  | '+' :: rest => (false, rest)
  | '-' :: rest => (true, rest)
  | rest => (false, rest)

def fraction : List Char → List Char × List Char
  | '.' :: rest => (rest.takeWhile Char.isDigit, rest.dropWhile Char.isDigit)
  | rest => ([], rest)

/-- An exponent counts only with a digit. -/
def exponentPart : List Char → ℤ × List Char
  | [] => (0, [])
  | c :: rest =>
    if (c = 'e' ∨ c = 'E') ∧ (sign rest).2.takeWhile Char.isDigit ≠ [] then
      let size : ℤ := value ((sign rest).2.takeWhile Char.isDigit)
      (if (sign rest).1 then -size else size, (sign rest).2.dropWhile Char.isDigit)
    else (0, c :: rest)

def scanUnsigned (text : List Char) : Option (Decimal × List Char) :=
  let whole := text.takeWhile Char.isDigit
  let frac := fraction (text.dropWhile Char.isDigit)
  if whole ++ frac.1 = [] then none
  else
    let exponent := exponentPart frac.2
    some (⟨value (whole ++ frac.1), exponent.1 - frac.1.length⟩, exponent.2)

def infinity : List Char := ['I', 'n', 'f', 'i', 'n', 'i', 't', 'y']

def signed (negative : Bool) (x : ℚ) : ℚ := if negative then -x else x

/-- The longest decimal literal that the text begins with, as a number. -/
def scan (text : List Char) : Option (ScriptNumber × List Char) :=
  if infinity.isPrefixOf (sign text).2 then
    some (.infinite (sign text).1, (sign text).2.drop infinity.length)
  else
    (scanUnsigned (sign text).2).map fun found =>
      (ScriptNumber.ofRat (signed (sign text).1 found.1.value), found.2)

def radixOf (c : Char) : Option ℕ :=
  if c = 'x' ∨ c = 'X' then some 16 else if c = 'o' ∨ c = 'O' then some 8
  else if c = 'b' ∨ c = 'B' then some 2 else none

/-- Thirty-six where the character is no digit to any radix. -/
def digitValue (c : Char) : ℕ :=
  if c.isDigit then c.toNat - 48 else if 'a' ≤ c ∧ c ≤ 'z' then c.toNat - 87
  else if 'A' ≤ c ∧ c ≤ 'Z' then c.toNat - 55 else 36

def radixLiteral : List Char → Option ℕ
  | '0' :: c :: digits =>
    match radixOf c with
    | some radix =>
      if digits ≠ [] ∧ digits.all fun d => decide (digitValue d < radix) then
        some (digits.foldl (fun n d => n * radix + digitValue d) 0)
      else none
    | none => none
  | _ => none

/-- `Number(text)` -/
def numberOf (text : List Char) : ScriptNumber :=
  if trim text = [] then ScriptNumber.ofRat 0
  else
    match radixLiteral (trim text) with
    | some n => ScriptNumber.ofRat n
    | none =>
      match scan (trim text) with
      | some (x, []) => x
      | _ => .nan

/-- `parseFloat(text)` -/
def parseFloat (text : List Char) : ScriptNumber := ((scan (trimStart text)).map Prod.fst).getD .nan

/-! ### Writing -/

/-- The digits of the significand up to the last that is not zero. -/
def significantDigits (d : Decimal) : List Char :=
  (Nat.toDigits 10 d.significand.natAbs).rdropWhile (· = '0')

/-- The place of the point: behind so many of the digits. -/
def pointOf (d : Decimal) : ℤ := (Nat.toDigits 10 d.significand.natAbs).length + d.exponent

def pointed : List Char → List Char
  | [] => []
  | [c] => [c]
  | c :: rest => c :: '.' :: rest

def exponentText (e : ℤ) : List Char :=
  'e' :: (if e < 0 then '-' else '+') :: Nat.toDigits 10 e.natAbs

def layOut (digits : List Char) (n : ℤ) : List Char :=
  if digits.length ≤ n ∧ n ≤ 21 then digits ++ List.replicate (n - digits.length).toNat '0'
  else if 0 < n ∧ n ≤ 21 then digits.take n.toNat ++ '.' :: digits.drop n.toNat
  else if -6 < n ∧ n ≤ 0 then '0' :: '.' :: (List.replicate (-n).toNat '0' ++ digits)
  else pointed digits ++ exponentText (n - 1)

/-- `x.toString()` -/
def toText (x : Double) : List Char :=
  let d := x.toDecimal
  if significantDigits d = [] then ['0']
  else (if d.significand < 0 then ['-'] else []) ++ layOut (significantDigits d) (pointOf d)

/-! ### What follows a number -/

variable {t w whole frac rest : List Char} {c : Char} {d : Decimal} {x : ScriptNumber}

def Stops (w : List Char) : Prop :=
  ∀ c ∈ w.head?, c.isDigit = false ∧ c ∉ ['.', 'e', 'E', '+', '-'] ∧ c ∉ infinity

theorem Stops.takeWhile (h : Stops w) : w.takeWhile Char.isDigit = [] := by
  cases w with
  | nil => rfl
  | cons c w => rw [List.takeWhile_cons, (h c rfl).1, if_neg Bool.false_ne_true]

theorem Stops.dropWhile (h : Stops w) : w.dropWhile Char.isDigit = w := by
  cases w with
  | nil => rfl
  | cons c w => rw [List.dropWhile_cons, (h c rfl).1, if_neg Bool.false_ne_true]

theorem takeWhile_append (h : Stops w) (t : List Char) :
    (t ++ w).takeWhile Char.isDigit = t.takeWhile Char.isDigit := by
  rw [List.takeWhile_append, h.takeWhile]
  split
  · rename_i hall
    rw [List.append_nil, (List.takeWhile_prefix _).eq_of_length hall]
  · rfl

theorem dropWhile_append (h : Stops w) (t : List Char) :
    (t ++ w).dropWhile Char.isDigit = t.dropWhile Char.isDigit ++ w := by
  rw [List.dropWhile_append]
  split
  · rename_i hnone
    rw [List.isEmpty_iff.mp hnone, h.dropWhile, List.nil_append]
  · rfl

theorem Stops.ne (h : Stops (c :: w)) : c ≠ '.' ∧ c ≠ 'e' ∧ c ≠ 'E' ∧ c ≠ '+' ∧ c ≠ '-' := by
  have hc := (h c rfl).2.1
  simp only [List.mem_cons, List.not_mem_nil, or_false, not_or] at hc
  exact hc

theorem sign_other (hplus : c ≠ '+') (hminus : c ≠ '-') : sign (c :: w) = (false, c :: w) := by
  unfold sign
  split
  · rename_i he
    exact absurd (List.cons.inj he).1 hplus
  · rename_i he
    exact absurd (List.cons.inj he).1 hminus
  · rfl

theorem fraction_other (h : c ≠ '.') : fraction (c :: w) = ([], c :: w) := by
  unfold fraction
  split
  · rename_i he
    exact absurd (List.cons.inj he).1 h
  · rfl

theorem exponentPart_other (h : c ≠ 'e') (h' : c ≠ 'E') : exponentPart (c :: w) = (0, c :: w) := by
  simp [exponentPart, h, h']

theorem sign_append (h : Stops w) (t : List Char) :
    sign (t ++ w) = ((sign t).1, (sign t).2 ++ w) := by
  cases t with
  | nil =>
    cases w with
    | nil => rfl
    | cons c w => exact sign_other h.ne.2.2.2.1 h.ne.2.2.2.2
  | cons a t =>
    by_cases hplus : a = '+'
    · rw [hplus]
      rfl
    by_cases hminus : a = '-'
    · rw [hminus]
      rfl
    rw [List.cons_append, sign_other hplus hminus, sign_other hplus hminus]
    rfl

theorem fraction_append (h : Stops w) (t : List Char) :
    fraction (t ++ w) = ((fraction t).1, (fraction t).2 ++ w) := by
  cases t with
  | nil =>
    cases w with
    | nil => rfl
    | cons c w => exact fraction_other h.ne.1
  | cons a t =>
    by_cases hpoint : a = '.'
    · rw [hpoint, List.cons_append]
      simp only [fraction, takeWhile_append h, dropWhile_append h]
    rw [List.cons_append, fraction_other hpoint, fraction_other hpoint]
    rfl

theorem exponentPart_append (h : Stops w) (t : List Char) :
    exponentPart (t ++ w) = ((exponentPart t).1, (exponentPart t).2 ++ w) := by
  cases t with
  | nil =>
    cases w with
    | nil => rfl
    | cons c w =>
      exact exponentPart_other h.ne.2.1 h.ne.2.2.1
  | cons a t =>
    simp only [List.cons_append, exponentPart, sign_append h, takeWhile_append h,
      dropWhile_append h]
    split <;> rfl

theorem scanUnsigned_append (h : Stops w) (t : List Char) :
    scanUnsigned (t ++ w) = (scanUnsigned t).map fun found => (found.1, found.2 ++ w) := by
  simp only [scanUnsigned, takeWhile_append h, dropWhile_append h, fraction_append h,
    exponentPart_append h]
  split <;> rfl

theorem isPrefixOf_append (p t : List Char) (h : ∀ c ∈ w.head?, c ∉ p) :
    p.isPrefixOf (t ++ w) = p.isPrefixOf t := by
  induction t generalizing p with
  | nil =>
    cases p with
    | nil => rfl
    | cons a p =>
      cases w with
      | nil => rfl
      | cons c w =>
        have hne : a ≠ c := fun he => h c rfl (he ▸ List.mem_cons_self)
        simp [List.isPrefixOf, hne]
  | cons b t ih =>
    cases p with
    | nil => rfl
    | cons a p =>
      have hrest := ih p fun c hc hmem => h c hc (List.mem_cons_of_mem _ hmem)
      rw [List.cons_append, List.isPrefixOf, List.isPrefixOf, hrest]

theorem scan_append (h : Stops w) (t : List Char) :
    scan (t ++ w) = (scan t).map fun found => (found.1, found.2 ++ w) := by
  have hinf := isPrefixOf_append infinity (sign t).2 fun c hc => (h c hc).2.2
  simp only [scan, sign_append h, hinf]
  split
  · rename_i hstarts
    have hlen := (List.isPrefixOf_iff_prefix.mp hstarts).length_le
    rw [List.drop_append_of_le_length hlen]
    rfl
  · rw [scanUnsigned_append h]
    cases scanUnsigned (sign t).2 <;> rfl

/-! ### The two readings -/

theorem isSpace_range (h : isSpace c = true) : c.toNat ≤ 32 ∨ 160 ≤ c.toNat := by
  simp only [isSpace, Bool.or_eq_true, Bool.and_eq_true, decide_eq_true_eq, List.mem_cons,
    List.not_mem_nil, or_false] at h
  omega

theorem isDigit_range (h : c.isDigit = true) : 48 ≤ c.toNat ∧ c.toNat ≤ 57 := by
  simp only [Char.isDigit, Bool.and_eq_true, decide_eq_true_eq, ge_iff_le, UInt32.le_iff_toNat_le]
    at h
  exact h

theorem space_stops (h : isSpace c = true) :
    c.isDigit = false ∧ c ∉ ['.', 'e', 'E', '+', '-'] ∧ c ∉ infinity := by
  have hrange := isSpace_range h
  have hplain : (['.', 'e', 'E', '+', '-'] ++ infinity).all (fun d =>
    decide (32 < d.toNat ∧ d.toNat < 160)) =
      true := by decide
  rw [List.all_eq_true] at hplain
  refine ⟨?_, fun hc => ?_, fun hc => ?_⟩
  · by_contra hdigit
    have hdigit := isDigit_range (Bool.of_not_eq_false hdigit)
    omega
  · have hc := of_decide_eq_true (hplain c (List.mem_append_left _ hc))
    omega
  · have hc := of_decide_eq_true (hplain c (List.mem_append_right _ hc))
    omega

theorem stops_of_spaces (h : ∀ c ∈ w, isSpace c = true) : Stops w := fun c hc =>
  space_stops (h c (List.mem_of_mem_head? hc))

theorem trimStart_eq (text : List Char) : ∃ w, trimStart text = trim text ++ w ∧ Stops w := by
  refine ⟨(trimStart text).rtakeWhile isSpace, List.rdropWhile_append_rtakeWhile.symm, ?_⟩
  refine stops_of_spaces fun c hc => ?_
  exact List.mem_rtakeWhile_imp hc

theorem parseFloat_of_literal {text : List Char} (h : scan (trim text) = some (x, [])) :
    parseFloat text = x := by
  obtain ⟨w, hw, hstops⟩ := trimStart_eq text
  rw [parseFloat, hw, scan_append hstops, h]
  rfl

theorem parseFloat_of_blank {text : List Char} (h : trim text = []) : parseFloat text = .nan := by
  have hstart : trimStart text = [] := by
    rw [trim, List.rdropWhile_eq_nil_iff] at h
    cases htext : trimStart text with
    | nil => rfl
    | cons c rest =>
      have hhead := List.head?_dropWhile_not isSpace text
      rw [show text.dropWhile isSpace = c :: rest from htext] at hhead
      have hhead : isSpace c = false := hhead
      rw [h c (htext ▸ List.mem_cons_self)] at hhead
      cases hhead
  rw [parseFloat, hstart]
  rfl

theorem scan_zero (hdigit : c.isDigit = false) (hpoint : c ≠ '.') (he : c ≠ 'e') (he' : c ≠ 'E') :
    scan ('0' :: c :: rest) = some (ScriptNumber.ofRat 0, c :: rest) := by
  have hwhole : ('0' :: c :: rest).takeWhile Char.isDigit = ['0'] := by
    rw [List.takeWhile_cons_of_pos rfl, List.takeWhile_cons_of_neg (by simp [hdigit])]
  have hafter : ('0' :: c :: rest).dropWhile Char.isDigit = c :: rest := by
    rw [List.dropWhile_cons_of_pos rfl, List.dropWhile_cons_of_neg (by simp [hdigit])]
  have hsign : sign ('0' :: c :: rest) = (false, '0' :: c :: rest) :=
    sign_other (by decide) (by decide)
  have hinf : infinity.isPrefixOf ('0' :: c :: rest) = false := rfl
  have hzero : (Decimal.mk (value ['0']) 0).value = 0 := by
    simp [Decimal.value, value, Nat.ofDigitChars]
  simp [scan, scanUnsigned, hsign, hinf, hwhole, hafter, fraction_other hpoint,
    exponentPart_other he he', hzero, signed]

theorem scan_radix {n : ℕ} (h : radixLiteral t = some n) :
    ∃ rest, scan (t ++ w) = some (ScriptNumber.ofRat 0, rest) := by
  unfold radixLiteral at h
  split at h
  · rename_i c digits
    cases hradix : radixOf c with
    | none =>
      rw [hradix] at h
      cases h
    | some radix =>
      have hletter : c ∈ ['x', 'X', 'o', 'O', 'b', 'B'] := by
        unfold radixOf at hradix
        simp only [List.mem_cons, List.not_mem_nil, or_false]
        split_ifs at hradix <;> tauto
      have hplain : ['x', 'X', 'o', 'O', 'b', 'B'].all
          (fun c => decide (c.isDigit = false ∧ c ≠ '.' ∧ c ≠ 'e' ∧ c ≠ 'E')) = true := by decide
      obtain ⟨hdigit, hpoint, he, he'⟩ := of_decide_eq_true (List.all_eq_true.mp hplain c hletter)
      exact ⟨_, scan_zero hdigit hpoint he he'⟩
  · cases h

theorem parseFloat_of_radix {text : List Char} {n : ℕ} (h : radixLiteral (trim text) = some n) :
    parseFloat text = ScriptNumber.ofRat 0 := by
  obtain ⟨w, hw, -⟩ := trimStart_eq text
  obtain ⟨rest, hscan⟩ := scan_radix (w := w) h
  rw [parseFloat, hw, hscan]
  rfl

theorem parseFloat_of_numberOf {text : List Char} {d : Double} (h : numberOf text = .finite d)
    (hblank : trim text ≠ []) (hradix : radixLiteral (trim text) = none) :
    parseFloat text = .finite d := by
  rw [numberOf, if_neg hblank, hradix] at h
  dsimp only at h
  split at h
  · rename_i x hscan
    rw [← h]
    exact parseFloat_of_literal hscan
  · cases h

/-! ### Reading what was written -/

section Written

variable {digits zeros : List Char} {n e : ℤ}

def Digits (l : List Char) : Prop := ∀ c ∈ l, c.isDigit = true

theorem takeWhile_digits {r : List Char} (h : Digits digits)
    (he : ∀ c ∈ r.head?, c.isDigit = false) :
    (digits ++ r).takeWhile Char.isDigit = digits ∧ (digits ++ r).dropWhile Char.isDigit = r := by
  rw [List.takeWhile_append_of_pos h, List.dropWhile_append_of_pos h]
  cases r with
  | nil => exact ⟨List.append_nil _, rfl⟩
  | cons c r =>
    have hc := he c rfl
    rw [List.takeWhile_cons_of_neg (by simp [hc]), List.dropWhile_cons_of_neg (by simp [hc]),
      List.append_nil]
    exact ⟨rfl, rfl⟩

theorem scanUnsigned_whole {r : List Char} (hdigits : Digits whole) (hne : whole ≠ [])
    (he : ∀ c ∈ r.head?, c.isDigit = false ∧ c ≠ '.') :
    scanUnsigned (whole ++ r) = some (⟨value whole, (exponentPart r).1⟩, (exponentPart r).2) := by
  obtain ⟨htake, hdrop⟩ := takeWhile_digits hdigits fun c hc => (he c hc).1
  have hfrac : fraction r = ([], r) := by
    cases r with
    | nil => rfl
    | cons c r => exact fraction_other (he c rfl).2
  simp [scanUnsigned, htake, hdrop, hfrac, hne]

theorem scanUnsigned_point {r : List Char} (hwhole : Digits whole) (hfrac : Digits frac)
    (hne : whole ++ frac ≠ []) (he : ∀ c ∈ r.head?, c.isDigit = false) :
    scanUnsigned (whole ++ '.' :: (frac ++ r)) =
      some (⟨value (whole ++ frac), (exponentPart r).1 - frac.length⟩, (exponentPart r).2) := by
  obtain ⟨htake, hdrop⟩ := takeWhile_digits (r := '.' :: (frac ++ r)) hwhole fun c hc => by
    rw [← Option.some.inj hc]
    rfl
  obtain ⟨htake', hdrop'⟩ := takeWhile_digits hfrac he
  have hfrac : fraction ('.' :: (frac ++ r)) = (frac, r) := by
    rw [fraction, htake', hdrop']
  simp only [scanUnsigned, htake, hdrop, hfrac, if_neg hne]

theorem digits_singleton (h : c.isDigit = true) : Digits [c] :=
  fun _ hc => List.mem_singleton.mp hc ▸ h

theorem digits_toDigits (n : ℕ) : Digits (Nat.toDigits 10 n) := fun _ h =>
  Nat.isDigit_of_mem_toDigits (by decide) (by decide) h

theorem exponentPart_text (e : ℤ) : exponentPart (exponentText e) = (e, []) := by
  have hsign : sign ((if e < 0 then '-' else '+') :: Nat.toDigits 10 e.natAbs) =
      (decide (e < 0), Nat.toDigits 10 e.natAbs) := by
    by_cases h : e < 0 <;> simp [h, sign]
  obtain ⟨htake, hdrop⟩ := takeWhile_digits (r := []) (digits_toDigits e.natAbs) fun _ h => by
    cases h
  rw [List.append_nil] at htake hdrop
  have hne : Nat.toDigits 10 e.natAbs ≠ [] := Nat.toDigits_ne_nil
  simp only [exponentText, exponentPart, hsign, htake, hdrop, value_toDigits]
  by_cases h : e < 0
  · simp [h, hne, abs_of_neg h]
  · simp [h, hne, abs_of_nonneg (not_lt.mp h)]

theorem value_append_zeros (digits : List Char) (m : ℕ) :
    value (digits ++ List.replicate m '0') = value digits * 10 ^ m := by
  rw [value, Nat.ofDigitChars_append, Nat.ofDigitChars_replicate_zero, mul_comm]
  rfl

theorem value_zeros_append (m : ℕ) (digits : List Char) :
    value (List.replicate m '0' ++ digits) = value digits := by
  rw [value, Nat.ofDigitChars_append, Nat.ofDigitChars_replicate_zero, Nat.mul_zero]
  rfl

theorem scanUnsigned_layOut (hdigits : Digits digits) (hne : digits ≠ []) (n : ℤ) :
    ∃ d : Decimal, scanUnsigned (layOut digits n) = some (d, []) ∧
      d.value = value digits * 10 ^ (n - digits.length) := by
  unfold layOut
  split_ifs with hwhole hinside hbefore
  · -- zeros behind the digits
    have hzeros : Digits (digits ++ List.replicate (n - digits.length).toNat '0') := by
      intro c hc
      rcases List.mem_append.mp hc with hc | hc
      · exact hdigits c hc
      · rw [List.eq_of_mem_replicate hc]
        rfl
    have hscan := scanUnsigned_whole (r := []) hzeros (by simp [hne]) fun _ h => by cases h
    rw [List.append_nil] at hscan
    refine ⟨_, hscan, ?_⟩
    obtain ⟨m, hm⟩ := Int.eq_ofNat_of_zero_le (sub_nonneg.mpr hwhole.1)
    rw [hm, Int.toNat_natCast, Decimal.value, value_append_zeros, zpow_natCast]
    simp [exponentPart]
  · -- the point among the digits
    have hscan := scanUnsigned_point (r := []) (fun c hc => hdigits c (List.mem_of_mem_take hc))
      (fun c hc => hdigits c (List.mem_of_mem_drop (i := n.toNat) hc))
      (by rwa [List.take_append_drop]) fun _ h => by cases h
    rw [List.append_nil, List.take_append_drop] at hscan
    refine ⟨_, hscan, ?_⟩
    have hexp : (exponentPart []).1 - ((digits.drop n.toNat).length : ℤ) = n - digits.length := by
      rw [List.length_drop, exponentPart]
      omega
    rw [Decimal.value, hexp]
    simp
  · -- the point before the digits
    have hzeros : Digits (List.replicate (-n).toNat '0' ++ digits) := by
      intro c hc
      rcases List.mem_append.mp hc with hc | hc
      · rw [List.eq_of_mem_replicate hc]
        rfl
      · exact hdigits c hc
    have hzero : Digits ['0'] := digits_singleton rfl
    have hscan := scanUnsigned_point (r := []) hzero hzeros (by simp) fun _ h => by cases h
    rw [List.append_nil] at hscan
    refine ⟨_, hscan, ?_⟩
    have hexp : (exponentPart []).1 - ((List.replicate (-n).toNat '0' ++ digits).length : ℤ) =
        n - digits.length := by
      rw [List.length_append, List.length_replicate, exponentPart]
      omega
    have hvalue : value (['0'] ++ (List.replicate (-n).toNat '0' ++ digits)) = value digits := by
      rw [show ['0'] = List.replicate 1 '0' from rfl, value_zeros_append, value_zeros_append]
    rw [Decimal.value, hexp, hvalue]
    simp
  · -- an exponent
    have hexp := exponentPart_text (n - 1)
    have hhead : ∀ c ∈ (exponentText (n - 1)).head?, c.isDigit = false ∧ c ≠ '.' := by
      intro c hc
      rw [← Option.some.inj hc]
      decide
    cases digits with
    | nil => exact absurd rfl hne
    | cons c rest =>
      cases rest with
      | nil =>
        have hscan := scanUnsigned_whole hdigits hne hhead
        rw [hexp] at hscan
        exact ⟨_, hscan, by simp [Decimal.value]⟩
      | cons c' rest =>
        have hscan := scanUnsigned_point (digits_singleton (hdigits c List.mem_cons_self))
          (fun a ha => hdigits a (List.mem_cons_of_mem _ ha)) (by simp) fun a ha => (hhead a ha).1
        rw [hexp] at hscan
        refine ⟨_, hscan, ?_⟩
        have hplaces : n - 1 - ((c' :: rest).length : ℤ) = n - ((c :: c' :: rest).length : ℤ) := by
          simp only [List.length_cons]
          omega
        rw [Decimal.value, hplaces]
        simp

theorem head_layOut (hdigits : Digits digits) (hne : digits ≠ []) (n : ℤ) :
    ∃ c r, layOut digits n = c :: r ∧ c.isDigit = true := by
  cases digits with
  | nil => exact absurd rfl hne
  | cons c digits =>
    have hc := hdigits c List.mem_cons_self
    unfold layOut
    split_ifs with hwhole hinside hbefore
    · exact ⟨c, _, rfl, hc⟩
    · obtain ⟨m, hm⟩ : ∃ m, n.toNat = m + 1 := ⟨n.toNat - 1, by omega⟩
      rw [hm]
      exact ⟨c, _, rfl, hc⟩
    · exact ⟨'0', _, rfl, rfl⟩
    · cases digits with
      | nil => exact ⟨c, _, rfl, hc⟩
      | cons c' digits => exact ⟨c, _, rfl, hc⟩

theorem scan_signed {r : List Char} (hc : c.isDigit = true)
    (hscan : scanUnsigned (c :: r) = some (d, [])) (negative : Bool) :
    scan ((if negative then ['-'] else []) ++ c :: r) =
      some (ScriptNumber.ofRat (signed negative d.value), []) := by
  have hrange := isDigit_range hc
  have hsign : sign (c :: r) = (false, c :: r) := by
    refine sign_other ?_ ?_
    · rintro rfl
      exact absurd hrange (by decide)
    · rintro rfl
      exact absurd hrange (by decide)
  have hinf : infinity.isPrefixOf (c :: r) = false := by
    have hne : 'I' ≠ c := by
      rintro rfl
      exact absurd hrange (by decide)
    simp [infinity, List.isPrefixOf, hne]
  cases negative with
  | false =>
    rw [if_neg Bool.false_ne_true, List.nil_append, scan, hsign, hinf, hscan]
    rfl
  | true =>
    rw [if_pos rfl, List.singleton_append, scan, sign, hinf, hscan]
    rfl

theorem significantDigits_append (d : Decimal) :
    ∃ m, Nat.toDigits 10 d.significand.natAbs = significantDigits d ++ List.replicate m '0' := by
  refine ⟨((Nat.toDigits 10 d.significand.natAbs).rtakeWhile (· = '0')).length, ?_⟩
  have hzeros : (Nat.toDigits 10 d.significand.natAbs).rtakeWhile (· = '0') =
      List.replicate ((Nat.toDigits 10 d.significand.natAbs).rtakeWhile (· = '0')).length '0' :=
    List.eq_replicate_iff.mpr ⟨rfl, fun c hc => by simpa using List.mem_rtakeWhile_imp hc⟩
  rw [← hzeros]
  exact List.rdropWhile_append_rtakeWhile.symm

theorem digits_significantDigits (d : Decimal) : Digits (significantDigits d) := fun _ hc =>
  digits_toDigits _ _ ((List.rdropWhile_prefix _ _).subset hc)

theorem signed_value {d d' : Decimal}
    (h : d'.value = value (significantDigits d) * 10 ^ (pointOf d - (significantDigits d).length)) :
    signed (decide (d.significand < 0)) d'.value = d.value := by
  obtain ⟨m, hm⟩ := significantDigits_append d
  have hsize : d.significand.natAbs = value (significantDigits d) * 10 ^ m := by
    rw [← value_append_zeros, ← hm, value_toDigits]
  have hplace : pointOf d - (significantDigits d).length = m + d.exponent := by
    rw [pointOf, hm, List.length_append, List.length_replicate]
    omega
  have hvalue : d'.value = d.significand.natAbs * 10 ^ d.exponent := by
    rw [h, hplace, zpow_add₀ (by norm_num), zpow_natCast, hsize]
    push_cast
    ring
  rw [hvalue, Decimal.value, signed]
  by_cases hneg : d.significand < 0
  · have habs : ((d.significand.natAbs : ℕ) : ℚ) = -d.significand := by
      rw [← Int.cast_natCast, Int.ofNat_natAbs_of_nonpos hneg.le, Int.cast_neg]
    simp [hneg, habs]
  · have habs : ((d.significand.natAbs : ℕ) : ℚ) = d.significand := by
      rw [← Int.cast_natCast, Int.natAbs_of_nonneg (not_lt.mp hneg)]
    simp [hneg, habs]

theorem value_of_no_digits {d : Decimal} (h : significantDigits d = []) : d.value = 0 := by
  obtain ⟨m, hm⟩ := significantDigits_append d
  have hsize : d.significand.natAbs = 0 := by
    rw [← value_toDigits d.significand.natAbs, hm, value_append_zeros, h]
    exact Nat.zero_mul _
  rw [Decimal.value, Int.natAbs_eq_zero.mp hsize, Int.cast_zero, zero_mul]

theorem scan_toText (x : Double) : scan (toText x) = some (.finite x, []) := by
  have hparse : Double.ofRat? x.toDecimal.value = some x := Double.parse_toDecimal x
  unfold toText
  dsimp only
  split
  · rename_i hnone
    rw [value_of_no_digits hnone] at hparse
    rw [← ScriptNumber.ofRat_eq_finite.mpr hparse]
    have hread := scan_signed (c := '0') (r := []) (d := ⟨0, 0⟩) rfl rfl false
    simpa [signed, Decimal.value] using hread
  · rename_i hnone
    obtain ⟨d, hscan, hvalue⟩ :=
      scanUnsigned_layOut (digits_significantDigits _) hnone (pointOf x.toDecimal)
    obtain ⟨c, r, hlay, hc⟩ := head_layOut (digits_significantDigits _) hnone (pointOf x.toDecimal)
    have hread := scan_signed hc (hlay ▸ hscan) (decide (x.toDecimal.significand < 0))
    rw [signed_value hvalue, ScriptNumber.ofRat_eq_finite.mpr hparse, ← hlay] at hread
    simpa using hread

theorem head_toText (x : Double) : ∃ c r, toText x = c :: r ∧ (c.isDigit = true ∨ c = '-') := by
  unfold toText
  dsimp only
  split
  · exact ⟨'0', [], rfl, .inl rfl⟩
  · rename_i hnone
    obtain ⟨c, r, hlay, hc⟩ := head_layOut (digits_significantDigits _) hnone (pointOf x.toDecimal)
    rw [hlay]
    split
    · exact ⟨'-', _, rfl, .inr rfl⟩
    · exact ⟨c, r, rfl, .inl hc⟩

theorem trimStart_toText (x : Double) : trimStart (toText x) = toText x := by
  obtain ⟨c, r, htext, hc⟩ := head_toText x
  have hspace : isSpace c = false := by
    rcases hc with hdigit | rfl
    · by_contra hspace
      have hdigit := isDigit_range hdigit
      have hspace := isSpace_range (Bool.of_not_eq_false hspace)
      omega
    · rfl
  rw [trimStart, htext, List.dropWhile_cons_of_neg (by simp [hspace])]

theorem parseFloat_toText (x : Double) : parseFloat (toText x) = .finite x := by
  rw [parseFloat, trimStart_toText, scan_toText]
  rfl

end Written

end Livora.NumberTexts
