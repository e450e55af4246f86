import Livora.DecimalTexts
import Livora.StoreBooks
import Livora.SequenceManager
import Mathlib.Tactic.IntervalCases

/-! The correlative numbers of `ComplaintsService`: their texts, the maximum that the database reads
off them for a new counter, and the table scan that stands in where there is no counter. -/

namespace Livora.ComplaintNumbers

open DecimalTexts DoubleRounding
open SequenceManager (isSpace)

/-- The type of a counter, `R` for a claim and `Q` for a complaint. -/
inductive CounterType where
  | r
  | q
deriving DecidableEq

def CounterType.char : CounterType → Char
  | .r => 'R'
  | .q => 'Q'

structure Key where
  year : ℕ
  type : CounterType
deriving DecidableEq

/-- `claimType.toUpperCase() === 'RECLAMO'`: only letters of the alphabet become the ones of the
word. -/
def typeOf (claimType : String) : CounterType :=
  if claimType.toList.map Char.toUpper = "RECLAMO".toList then .r else .q

def Key.text (k : Key) (digits : List Char) : List Char :=
  k.type.char :: '-' :: (digits ++ '-' :: Nat.toDigits 10 k.year)

def format (k : Key) (sequence : ℕ) : String := String.ofList (k.text (padded 5 sequence))

/-- A number of the form `R-<digits>-<year>` or `Q-<digits>-<year>`. -/
structure IsNumber (k : Key) (digits : List Char) (text : String) : Prop where
  text_eq : text.toList = k.text digits
  nonempty : digits ≠ []
  isDigit : ∀ c ∈ digits, c.isDigit = true

def WellFormed (text : String) : Prop := ∃ k digits, IsNumber k digits text

def sequenceOf (k : Key) (text : String) : Option ℕ :=
  match text.toList.splitOn '-' with
  | [type, digits, year] =>
    if type = [k.type.char] ∧ year = Nat.toDigits 10 k.year ∧ digits ≠ [] ∧
      digits.all Char.isDigit = true then
      some (value digits)
    else none
  | _ => none

def sequences (k : Key) (numbers : List String) : List ℕ := numbers.filterMap (sequenceOf k)

def top (k : Key) (numbers : List String) : ℕ := (sequences k numbers).foldr max 0

/-! ### The statement of the counter -/

/-- `split_part(text, '-', n)` -/
def splitPart (text : List Char) (n : ℕ) : List Char := (text.splitOn '-').getD (n - 1) []

/-- `regexp_replace(text, '\D', '', 'g')`: in the template of the query, `\D` is the letter
alone. -/
def regexpReplace (text : List Char) : List Char := text.filter (· ≠ 'D')

/-- `NULLIF(text, '')` -/
def nullIf (text : List Char) : Option (List Char) := if text = [] then none else some text

/-- `text::integer` does not throw: the digits are those of a number of 32 bits. -/
def castable (text : List Char) : Bool := text.all Char.isDigit && decide (value text < 2 ^ 31)

/-- `text LIKE 'R-%-2026'` -/
def like (k : Key) (text : List Char) : Bool :=
  [k.type.char, '-'].isPrefixOf text && ('-' :: Nat.toDigits 10 k.year).isSuffixOf (text.drop 2)

def parts (k : Key) (numbers : List String) : List (List Char) :=
  ((numbers.map String.toList).filter (like k)).filterMap fun text =>
    nullIf (regexpReplace (splitPart text 2))

/-- `COALESCE((SELECT MAX(...) FROM complaints WHERE ...), 0)`; none where it throws. -/
def scanMax (k : Key) (numbers : List String) : Option ℕ :=
  if (parts k numbers).all castable then some (((parts k numbers).map value).foldr max 0) else none

/-! ### The table scan -/

/-- `parseInt(text, 10)` of a text without a minus; none for `NaN`. -/
def parseInt (text : List Char) : Option ℚ :=
  let rest := text.dropWhile isSpace
  let digits := (if rest.head? = some '+' then rest.tail else rest).takeWhile Char.isDigit
  if digits = [] then none else some (fl (value digits))

/-- `{ startsWith: 'R-', endsWith: '-2026' }` -/
def startsAndEnds (k : Key) (text : List Char) : Bool :=
  [k.type.char, '-'].isPrefixOf text && ('-' :: Nat.toDigits 10 k.year).isSuffixOf text

def scanned (k : Key) (maxSequence : ℚ) (text : List Char) : ℚ :=
  match text.splitOn '-' with
  | [p0, p1, p2] =>
    if p0 = [k.type.char] ∧ p2 = Nat.toDigits 10 k.year then
      match parseInt p1 with
      | some seq => if maxSequence < seq then seq else maxSequence
      | none => maxSequence
    else maxSequence
  | _ => maxSequence

def maxSequence (k : Key) (numbers : List String) : ℚ :=
  ((numbers.map String.toList).filter (startsAndEnds k)).foldl (scanned k) 0

/-- `String(x)` of a whole number: its digits, or the fewest that read as it where there are
others. -/
def wholeDigits (x : ℚ) : List Char :=
  if x < 2 ^ 53 then Nat.toDigits 10 ⌊x⌋.toNat else (StoreBooks.numberText x).toList

def fallbackNumber (k : Key) (numbers : List String) : String :=
  String.ofList (k.text (padStart 5 (wholeDigits (fl (maxSequence k numbers + 1)))))

/-! ### Texts -/

variable {k k' : Key} {digits : List Char} {text : String} {numbers : List String} {n : ℕ}

theorem char_inj {t t' : CounterType} (h : t.char = t'.char) : t = t' := by
  cases t <;> cases t' <;> first | rfl | exact absurd h (by decide)

theorem char_ne_dash (t : CounterType) : t.char ≠ '-' := by
  cases t <;> decide

theorem isNumber_format (k : Key) (n : ℕ) : IsNumber k (padded 5 n) (format k n) :=
  ⟨String.toList_ofList, padded_ne_nil 5 n, fun _ hc => isDigit_padded hc⟩

theorem IsNumber.not_mem (h : IsNumber k digits text) : '-' ∉ digits := fun hc => by
  have hdash := h.isDigit '-' hc
  cases hdash

theorem IsNumber.splitOn_eq (h : IsNumber k digits text) :
    text.toList.splitOn '-' = [[k.type.char], digits, Nat.toDigits 10 k.year] := by
  have htype : '-' ∉ [k.type.char] := fun hc => char_ne_dash k.type (List.mem_singleton.mp hc).symm
  rw [h.text_eq, Key.text, ← List.singleton_append,
    List.splitOn_append_cons_self_of_not_mem htype,
      List.splitOn_append_cons_self_of_not_mem h.not_mem,
    List.splitOn_eq_singleton (not_mem_toDigits _ rfl)]

theorem sequenceOf_number (h : IsNumber k' digits text) :
    sequenceOf k text = if k' = k then some (value digits) else none := by
  have hsame : [k'.type.char] = [k.type.char] ∧ Nat.toDigits 10 k'.year = Nat.toDigits 10 k.year ↔
      k' = k := by
    constructor
    · rintro ⟨htype, hyear⟩
      obtain ⟨year, type⟩ := k
      obtain ⟨year', type'⟩ := k'
      obtain rfl := char_inj (List.cons.inj htype).1
      obtain rfl := toDigits_inj hyear
      rfl
    · rintro rfl
      exact ⟨rfl, rfl⟩
  have hall : digits.all Char.isDigit = true := List.all_eq_true.mpr h.isDigit
  simp only [sequenceOf, h.splitOn_eq, hall, ne_eq, h.nonempty, not_false_eq_true, and_true, hsame]

theorem sequenceOf_format : sequenceOf k (format k' n) = if k' = k then some n else none := by
  rw [sequenceOf_number (isNumber_format k' n), value_padded]

theorem format_inj {m : ℕ} (h : format k m = format k' n) : k = k' ∧ m = n := by
  have hsequence : sequenceOf k (format k m) = some m := by rw [sequenceOf_format, if_pos rfl]
  rw [h, sequenceOf_format] at hsequence
  split at hsequence
  · rename_i hk
    exact ⟨hk.symm, (Option.some.inj hsequence).symm⟩
  · cases hsequence

theorem sequences_append (numbers more : List String) :
    sequences k (numbers ++ more) = sequences k numbers ++ sequences k more := List.filterMap_append

theorem foldr_max_lt_iff {ns : List ℕ} {bound : ℕ} (hpos : 0 < bound) :
    ns.foldr max 0 < bound ↔ ∀ n ∈ ns, n < bound := by
  induction ns with
  | nil => simp [hpos]
  | cons n ns ih => simp [ih]

theorem le_top (h : n ∈ sequences k numbers) : n ≤ top k numbers :=
  Nat.lt_succ_iff.mp ((foldr_max_lt_iff (Nat.succ_pos _)).mp (Nat.lt_succ_self _) n h)

/-! ### The maximum -/

theorem like_number (h : IsNumber k' digits text) : like k text.toList = true ↔ k' = k := by
  have hsuffix : ('-' :: Nat.toDigits 10 k.year) <:+ digits ++ '-' :: Nat.toDigits 10 k'.year ↔
      k'.year = k.year := by
    constructor
    · rintro ⟨front, hfront⟩
      exact (toDigits_inj (append_cons_inj_right (not_mem_toDigits _ rfl) (not_mem_toDigits _ rfl)
        hfront).2).symm
    · intro hyear
      exact ⟨digits, by rw [hyear]⟩
  have htype : k.type.char = k'.type.char ↔ k'.type = k.type :=
    ⟨fun h => (char_inj h).symm, fun h => by rw [h]⟩
  obtain ⟨year, type⟩ := k
  obtain ⟨year', type'⟩ := k'
  simp only [like, h.text_eq, Key.text, List.isPrefixOf_cons_cons, List.isPrefixOf_nil_left,
    List.drop_succ_cons,
    List.drop_zero, Bool.and_eq_true, List.isSuffixOf_iff_suffix, hsuffix, beq_iff_eq, htype,
      Key.mk.injEq,
    and_true, beq_self_eq_true]
  exact and_comm

theorem part_number (h : IsNumber k' digits text) :
    nullIf (regexpReplace (splitPart text.toList 2)) = some digits := by
  have hkept : regexpReplace digits = digits := List.filter_eq_self.mpr fun c hc => by
    refine decide_eq_true fun hd => ?_
    have hdigit := h.isDigit c hc
    rw [hd] at hdigit
    cases hdigit
  rw [splitPart, h.splitOn_eq]
  change nullIf (regexpReplace digits) = some digits
  rw [hkept]
  exact if_neg h.nonempty

theorem parts_spec (hwf : ∀ x ∈ numbers, WellFormed x) :
    (parts k numbers).map value = sequences k numbers ∧ ∀ p ∈ parts k numbers,
      p.all Char.isDigit = true := by
  induction numbers with
  | nil => exact ⟨rfl, fun _ hp => by cases hp⟩
  | cons x xs ih =>
    obtain ⟨hvalues, hdigits⟩ := ih fun y hy => hwf y (List.mem_cons_of_mem _ hy)
    obtain ⟨k', digits, hnumber⟩ := hwf x List.mem_cons_self
    have hsequences : sequences k (x :: xs) =
        if k' = k then value digits :: sequences k xs else sequences k xs := by
      rw [sequences, List.filterMap_cons, sequenceOf_number hnumber]
      split <;> split <;> simp_all [sequences]
    by_cases hk : k' = k
    · have hparts : parts k (x :: xs) = digits :: parts k xs := by
        rw [parts, List.map_cons, List.filter_cons_of_pos ((like_number hnumber).mpr hk)]
        exact List.filterMap_cons_some (part_number hnumber)
      rw [hparts, hsequences, if_pos hk, List.map_cons, hvalues]
      refine ⟨rfl, fun p hp => ?_⟩
      rcases List.mem_cons.mp hp with rfl | hp
      · exact List.all_eq_true.mpr hnumber.isDigit
      · exact hdigits p hp
    · have hparts : parts k (x :: xs) = parts k xs := by
        rw [parts, List.map_cons, List.filter_cons_of_neg fun h => hk ((like_number hnumber).mp h),
          ← parts]
      rw [hparts, hsequences, if_neg hk]
      exact ⟨hvalues, hdigits⟩

theorem scanMax_eq (hwf : ∀ x ∈ numbers, WellFormed x) :
    scanMax k numbers = if top k numbers < 2 ^ 31 then some (top k numbers) else none := by
  obtain ⟨hvalues, hdigits⟩ := parts_spec (k := k) hwf
  have hcast : (parts k numbers).all castable = true ↔ top k numbers < 2 ^ 31 := by
    rw [top, foldr_max_lt_iff (by decide), ← hvalues, List.forall_mem_map, List.all_eq_true]
    refine forall₂_congr fun p hp => ?_
    rw [castable, hdigits p hp, Bool.true_and, decide_eq_true_iff]
  rw [scanMax, hvalues, ← top]
  exact if_congr hcast rfl rfl

/-! ### The scan -/

theorem isSpace_of_isDigit {c : Char} (h : c.isDigit = true) : isSpace c = false := by
  have hrange : 48 ≤ c.toNat ∧ c.toNat ≤ 57 := by
    simp only [Char.isDigit, Bool.and_eq_true, decide_eq_true_eq, ge_iff_le, UInt32.le_iff_toNat_le]
      at h
    exact h
  unfold isSpace
  generalize c.toNat = n at hrange
  obtain ⟨hlow, hhigh⟩ := hrange
  interval_cases n <;> rfl

theorem parseInt_digits (hne : digits ≠ []) (hdigits : ∀ c ∈ digits, c.isDigit = true) :
    parseInt digits = some (fl (value digits)) := by
  cases digits with
  | nil => exact absurd rfl hne
  | cons c cs =>
    have hc := hdigits c List.mem_cons_self
    have hplus : c ≠ '+' := fun h => by
      rw [h] at hc
      cases hc
    have htake : (c :: cs).takeWhile Char.isDigit = c :: cs :=
      List.takeWhile_eq_self_iff.mpr hdigits
    simp only [parseInt, List.dropWhile_cons, isSpace_of_isDigit hc, Bool.false_eq_true, if_false,
      List.head?_cons, Option.some.injEq, hplus, htake, reduceCtorEq]

theorem startsAndEnds_number (h : IsNumber k' digits text) : startsAndEnds k text.toList = true ↔
    k' = k := by
  have hsuffix : ('-' :: Nat.toDigits 10 k.year) <:+
      (k'.type.char :: '-' :: digits) ++ '-' :: Nat.toDigits 10 k'.year ↔ k'.year = k.year := by
    constructor
    · rintro ⟨front, hfront⟩
      exact (toDigits_inj (append_cons_inj_right (not_mem_toDigits _ rfl) (not_mem_toDigits _ rfl)
        hfront).2).symm
    · intro hyear
      exact ⟨_, by rw [hyear]⟩
  have htype : k.type.char = k'.type.char ↔ k'.type = k.type :=
    ⟨fun h => (char_inj h).symm, fun h => by rw [h]⟩
  have htext : text.toList = (k'.type.char :: '-' :: digits) ++ '-' :: Nat.toDigits 10 k'.year :=
    h.text_eq
  have hprefix : [k.type.char, '-'].isPrefixOf text.toList = true ↔ k'.type = k.type := by
    rw [h.text_eq, Key.text]
    simp [htype]
  rw [startsAndEnds, Bool.and_eq_true, hprefix, List.isSuffixOf_iff_suffix, htext, hsuffix]
  obtain ⟨year, type⟩ := k
  obtain ⟨year', type'⟩ := k'
  rw [Key.mk.injEq]
  exact and_comm

theorem fl_natCast {n : ℕ} (h : n < 2 ^ 53) : fl (n : ℚ) = n :=
  fl_of_representable (Double.natCast_representable h)

theorem scanned_number (h : IsNumber k digits text) (hlt : value digits < 2 ^ 53) (m : ℕ) :
    scanned k m text.toList = (max m (value digits) : ℕ) := by
  simp only [scanned, h.splitOn_eq, true_and, if_true, parseInt_digits h.nonempty h.isDigit,
    fl_natCast hlt, Nat.cast_lt]
  split
  · rw [max_eq_right (by omega)]
  · rw [max_eq_left (by omega)]

theorem maxSequence_eq (hwf : ∀ x ∈ numbers, WellFormed x) (hlt : top k numbers < 2 ^ 53) :
    maxSequence k numbers = top k numbers := by
  have hfold (m : ℕ) : ((numbers.map String.toList).filter (startsAndEnds k)).foldl (scanned k)
    (m : ℚ) =
      (max m (top k numbers) : ℕ) := by
    induction numbers generalizing m with
    | nil => simp [top, sequences]
    | cons x xs ih =>
      obtain ⟨k', digits, hnumber⟩ := hwf x List.mem_cons_self
      have hwf' : ∀ y ∈ xs, WellFormed y := fun y hy => hwf y (List.mem_cons_of_mem _ hy)
      by_cases hk : k' = k
      · subst hk
        have htop : top k' (x :: xs) = max (value digits) (top k' xs) := by
          rw [top, sequences,
            List.filterMap_cons_some (by rw [sequenceOf_number hnumber, if_pos rfl])]
          rfl
        rw [htop, max_lt_iff] at hlt
        rw [List.map_cons, List.filter_cons_of_pos ((startsAndEnds_number hnumber).mpr rfl),
          List.foldl_cons, scanned_number hnumber hlt.1, ih hwf' hlt.2, htop, max_assoc]
      · have htop : top k (x :: xs) = top k xs := by
          rw [top, sequences,
            List.filterMap_cons_none (by rw [sequenceOf_number hnumber, if_neg hk])]
          rfl
        rw [htop] at hlt
        rw [List.map_cons, List.filter_cons_of_neg fun h =>
          hk ((startsAndEnds_number hnumber).mp h), ih hwf' hlt, htop]
  have hzero := hfold 0
  rwa [Nat.zero_max, Nat.cast_zero] at hzero

theorem fallbackNumber_eq (hwf : ∀ x ∈ numbers, WellFormed x) (hlt : top k numbers + 1 < 2 ^ 53) :
    fallbackNumber k numbers = format k (top k numbers + 1) := by
  have hnext : fl (maxSequence k numbers + 1) = ((top k numbers + 1 : ℕ) : ℚ) := by
    rw [maxSequence_eq hwf (by omega), ← fl_natCast hlt, Nat.cast_add, Nat.cast_one]
  have hdigits : wholeDigits ((top k numbers + 1 : ℕ) : ℚ) =
      Nat.toDigits 10 (top k numbers + 1) := by
    have hsmall : ((top k numbers + 1 : ℕ) : ℚ) < 2 ^ 53 := by exact_mod_cast hlt
    rw [wholeDigits, if_pos hsmall, Int.floor_natCast, Int.toNat_natCast]
  rw [fallbackNumber, hnext, hdigits]
  rfl

end Livora.ComplaintNumbers
