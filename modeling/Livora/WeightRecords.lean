import Livora.NumberTexts
import Livora.RoundingOrder

/-! The weights of a request as they are validated and as they are read afterwards. A weight is a
number or a text; the validator and the composite take the text as a whole, the reception and the
worker as far as it is a decimal. -/

namespace Livora.WeightRecords

open DoubleRounding NumberTexts

/-- A value of the body; of what is neither number nor text only what `Number` and `String` make of
it. -/
inductive Value where
  | number (x : ScriptNumber)
  | text (s : String)
  | other (asNumber : ScriptNumber) (asText : String)
deriving DecidableEq

/-- `Number(val)` -/
def Value.toNumber : Value → ScriptNumber
  | number x => x
  | text s => numberOf s.toList
  | other asNumber _ => asNumber

/-- `String(num)` -/
def numText : ScriptNumber → List Char
  | .nan => ['N', 'a', 'N']
  | .infinite negative => if negative then '-' :: infinity else infinity
  | .finite x => toText x

/-- `String(val)` -/
def Value.toText : Value → List Char
  | number x => numText x
  | text s => s.toList
  | other _ asText => asText.toList

/-! ### The validator -/

structure IsValidWeightRecordOptions where
  min : Option ℚ
  maxDecimalPlaces : Option ℕ
  allowEmpty : Option Bool

namespace IsValidWeightRecordOptions

variable (options : IsValidWeightRecordOptions)

/-- `options?.min ?? 0.5` -/
def minimum : ℚ := options.min.getD (1 / 2)

def places : ℕ := options.maxDecimalPlaces.getD 2

def mayBeEmpty : Bool := options.allowEmpty.getD false

end IsValidWeightRecordOptions

open IsValidWeightRecordOptions

inductive Input where
  | missing
  | notObject
  | object (entries : List (String × Value))

def belowMinimum (min : ℚ) : ScriptNumber → Bool
  | .nan => false
  | .infinite negative => negative
  | .finite x => decide (x.val < min)

/-- `parts.length > 1 && parts[1].length > maxDecimalPlaces` -/
def moreDecimals (maxDecimalPlaces : ℕ) (text : List Char) : Bool :=
  match text.splitOn '.' with
  | _ :: decimals :: _ => decide (maxDecimalPlaces < decimals.length)
  | _ => false

def isFinite : ScriptNumber → Bool
  | .finite _ => true
  | _ => false

/-- Number, or a text that is one. -/
def numeric (val : Value) : Bool :=
  match val with
  | .number _ => true
  | .text _ => decide (val.toNumber ≠ .nan)
  | .other _ _ => false

def validEntry (options : IsValidWeightRecordOptions) (entry : String × Value) : Bool :=
  let num := entry.2.toNumber
  decide (trim entry.1.toList ≠ []) && numeric entry.2 && isFinite num &&
    !belowMinimum options.minimum num && !moreDecimals options.places (numText num)

def validate (options : IsValidWeightRecordOptions) : Input → Bool
  | .missing => options.mayBeEmpty
  | .notObject => false
  | .object entries => if entries = [] then options.mayBeEmpty else entries.all (validEntry options)

/-! ### The readers -/

/-- `x || 0` -/
def orZero : ScriptNumber → ScriptNumber
  | .nan => ScriptNumber.ofRat 0
  | x => x

/-- A weight of `totalActualKg` in `receiveBatch`. -/
def receptionWeight (val : Value) : ScriptNumber := orZero (parseFloat val.toText)

/-- A weight of `getTotalWeightKg` and `getMaterialsBreakdown`. -/
def compositeWeight (val : Value) : ScriptNumber := orZero val.toNumber

/-- `typeof rawWeight === 'number' ? rawWeight : parseFloat(String(rawWeight)) || 0` -/
def workerWeight : Value → ScriptNumber
  | .number x => x
  | val => orZero (parseFloat val.toText)

def creditedWeight (val : Value) : ScriptNumber := workerWeight val

/-- A weight of `buildWeightVectors`. -/
def vectorWeight (val : Value) : ScriptNumber := workerWeight val

/-- The actual weight of `receiveBatch`. -/
def totalActualKg (entries : List (String × Value)) : ScriptNumber :=
  entries.foldl (fun total entry => total.add (receptionWeight entry.2)) (.ofRat 0)

/-- The weight of a `BatchLeaf`. -/
def getTotalWeightKg (materials : List (String × Value)) : ScriptNumber :=
  materials.foldl (fun sum entry => sum.add (compositeWeight entry.2)) (.ofRat 0)

/-- Everyone takes the value for the number of kilograms. -/
structure ReadAs (val : Value) (x : Double) : Prop where
  nonneg : 0 ≤ x.val
  validator : val.toNumber = .finite x
  reception : receptionWeight val = .finite x
  composite : compositeWeight val = .finite x
  credit : creditedWeight val = .finite x
  vector : vectorWeight val = .finite x

/-- A text that spells a number other than zero in hexadecimal, octal or binary. -/
def otherRadix : Value → Bool
  | .text s => (radixLiteral (trim s.toList)).any fun n => decide (n ≠ 0)
  | _ => false

variable {options : IsValidWeightRecordOptions} {entries : List (String × Value)}
    {entry : String × Value}
  {val : Value} {x : Double}

theorem validEntry_of_validate (h : validate options (.object entries) = true)
    (he : entry ∈ entries) :
    validEntry options entry = true := by
  have hne : entries ≠ [] := List.ne_nil_of_mem he
  rw [validate, if_neg hne] at h
  exact List.all_eq_true.mp h entry he

theorem number_of_validEntry (h : validEntry options entry = true) :
    ∃ x, entry.2.toNumber = .finite x ∧ options.minimum ≤ x.val := by
  simp only [validEntry, Bool.and_eq_true, Bool.not_eq_true'] at h
  obtain ⟨⟨⟨-, hfinite⟩, hmin⟩, -⟩ := h
  cases hnum : entry.2.toNumber with
  | nan =>
    rw [hnum] at hfinite
    cases hfinite
  | infinite negative =>
    rw [hnum] at hfinite
    cases hfinite
  | finite x =>
    rw [hnum] at hmin
    exact ⟨x, rfl, by simpa [belowMinimum] using hmin⟩

theorem numeric_of_validEntry (h : validEntry options entry = true) : numeric entry.2 = true := by
  simp only [validEntry, Bool.and_eq_true] at h
  exact h.1.1.1.2

/-! ### The same number -/

theorem readAs_number (h0 : 0 ≤ x.val) : ReadAs (.number (.finite x)) x where
  nonneg := h0
  validator := rfl
  reception := by
    rw [receptionWeight, Value.toText, numText, parseFloat_toText]
    rfl
  composite := rfl
  credit := rfl
  vector := rfl

theorem readAs_text {s : String} (h0 : 0 ≤ x.val) (hnumber : numberOf s.toList = .finite x)
    (hparse : orZero (parseFloat s.toList) = .finite x) : ReadAs (.text s) x where
  nonneg := h0
  validator := hnumber
  reception := hparse
  composite := by
    rw [compositeWeight, Value.toNumber, hnumber]
    rfl
  credit := hparse
  vector := hparse

theorem zero_finite : |(0 : ℚ)| < 2 ^ 1024 := by norm_num

theorem zero_representable : Representable 0 := ⟨0, 0, by simp⟩

theorem ofRat_zero : ScriptNumber.ofRat 0 = .finite ⟨0, zero_representable, zero_finite⟩ :=
  ScriptNumber.ofRat_eq_finite.mpr (Double.ofRat?_eq_some.mpr fl_zero.symm)

theorem val_of_ofRat {q : ℚ} (h : ScriptNumber.ofRat q = .finite x) : x.val = fl q :=
  Double.ofRat?_eq_some.mp (ScriptNumber.ofRat_eq_finite.mp h)

theorem fl_natCast_ne_zero {n : ℕ} (h : n ≠ 0) : fl n ≠ 0 := by
  have hone : fl 1 = 1 := by
    have := fl_intCast (n := 1) (by norm_num)
    simpa using this
  have hle : (1 : ℚ) ≤ n := by exact_mod_cast Nat.one_le_iff_ne_zero.mpr h
  have hmono := fl_mono hle
  rw [hone] at hmono
  exact (zero_lt_one.trans_le hmono).ne'

/-- An accepted text is read as one number, but for one in another radix, of which a zero is
read. -/
theorem readAs_text_iff {s : String} (h0 : 0 ≤ x.val) (hx : numberOf s.toList = .finite x) :
    (∃ y, ReadAs (.text s) y) ↔ otherRadix (.text s) = false := by
  by_cases hblank : trim s.toList = []
  · have hzero : ScriptNumber.ofRat 0 = .finite x := by rwa [numberOf, if_pos hblank] at hx
    have hparse : orZero (parseFloat s.toList) = .finite x := by
      rw [parseFloat_of_blank hblank]
      exact hzero
    refine iff_of_true ⟨x, readAs_text h0 hx hparse⟩ ?_
    rw [otherRadix, hblank]
    rfl
  cases hradix : radixLiteral (trim s.toList) with
  | none =>
    have hparse := parseFloat_of_numberOf hx hblank hradix
    refine iff_of_true ⟨x, readAs_text h0 hx (by rw [hparse]; rfl)⟩ ?_
    rw [otherRadix, hradix]
    rfl
  | some n =>
    have hnumber : ScriptNumber.ofRat n = .finite x := by
      rwa [numberOf, if_neg hblank, hradix] at hx
    by_cases hn : n = 0
    · have hzero : ScriptNumber.ofRat 0 = .finite x := by rwa [hn, Nat.cast_zero] at hnumber
      have hparse : orZero (parseFloat s.toList) = .finite x := by
        rw [parseFloat_of_radix hradix, hzero]
        rfl
      refine iff_of_true ⟨x, readAs_text h0 hx hparse⟩ ?_
      rw [otherRadix, hradix, hn]
      rfl
    · refine iff_of_false ?_ ?_
      · rintro ⟨y, hread⟩
        obtain rfl : x = y := ScriptNumber.finite.inj (hx.symm.trans hread.validator)
        have hparse := hread.reception
        rw [receptionWeight, Value.toText, parseFloat_of_radix hradix, ofRat_zero] at hparse
        have hzero : (0 : ℚ) = x.val := congrArg Double.val (ScriptNumber.finite.inj hparse)
        rw [val_of_ofRat hnumber] at hzero
        exact fl_natCast_ne_zero hn hzero.symm
      · rw [otherRadix, hradix]
        simp [hn]

theorem readAs_iff (hmin : 0 ≤ options.minimum) (h : validEntry options entry = true) :
    (∃ x, ReadAs entry.2 x) ↔ otherRadix entry.2 = false := by
  obtain ⟨x, hx, hle⟩ := number_of_validEntry h
  have hnumeric := numeric_of_validEntry h
  have h0 := hmin.trans hle
  cases hval : entry.2 with
  | number y =>
    rw [hval] at hx
    obtain rfl : y = .finite x := hx
    exact iff_of_true ⟨x, readAs_number h0⟩ rfl
  | text s =>
    rw [hval] at hx
    exact readAs_text_iff h0 hx
  | other asNumber asText =>
    rw [hval] at hnumeric
    cases hnumeric

theorem totals_agree (h : ∀ entry ∈ entries, ∃ x, ReadAs entry.2 x) :
    totalActualKg entries = getTotalWeightKg entries := by
  refine List.foldl_ext _ _ _ fun total entry he => ?_
  obtain ⟨x, hread⟩ := h entry he
  rw [hread.reception, hread.composite]

/-- Every entry of an accepted record is one number of kilograms to all that read it, exactly when
none is a text in another radix. -/
theorem readings_agree_iff (hmin : 0 ≤ options.minimum)
    (h : validate options (.object entries) = true) :
    (∀ entry ∈ entries, ∃ x, ReadAs entry.2 x) ↔ ∀ entry ∈ entries, otherRadix entry.2 = false :=
  forall₂_congr fun _ he => readAs_iff hmin (validEntry_of_validate h he)

/-- The options of `ReceiveBatchDto`. -/
def materialsActual : IsValidWeightRecordOptions := ⟨some (1 / 2), some 2, none⟩

/-- A number, and a text with an exponent and blanks around it. -/
def weighed : List (String × Value) :=
  [("PET", .number (.ofRat (5 / 2))), ("CARTON", .text " 1e1 ")]

theorem readings_agree_iff_weighed : validate materialsActual (.object weighed) = true ∧
    ∀ entry ∈ weighed, ∃ x, ReadAs entry.2 x := by
  have hmin : 0 ≤ materialsActual.minimum := by norm_num [materialsActual, minimum]
  have hvalid : validate materialsActual (.object weighed) = true := by decide +kernel
  exact ⟨hvalid, (readings_agree_iff hmin hvalid).mpr (by decide +kernel)⟩

/-- Sixteen kilograms to the validator and the composite, none to the reception and the worker. -/
theorem hexadecimal_off :
    validate materialsActual (.object [("PET", .text "0x10")]) = true ∧
      compositeWeight (.text "0x10") = .ofRat 16 ∧ receptionWeight (.text "0x10") = .ofRat 0 ∧
      creditedWeight (.text "0x10") = .ofRat 0 ∧ ¬ ∃ x, ReadAs (.text "0x10") x := by
  have hcomposite : compositeWeight (.text "0x10") = .ofRat 16 := by decide +kernel
  have hreception : receptionWeight (.text "0x10") = .ofRat 0 := by decide +kernel
  refine ⟨by decide +kernel, hcomposite, hreception, by decide +kernel, ?_⟩
  rintro ⟨x, hread⟩
  have hsame : ScriptNumber.ofRat 16 = ScriptNumber.ofRat 0 :=
    (hcomposite.symm.trans hread.composite).trans (hreception.symm.trans hread.reception).symm
  exact absurd hsame (by decide +kernel)

end Livora.WeightRecords
