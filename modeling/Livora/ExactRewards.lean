import Livora.ExactDecimals
import Livora.NumberRecords
import Livora.RewardStrategies
import Mathlib.Algebra.BigOperators.Group.List.Basic
import Mathlib.Algebra.Order.BigOperators.Group.List
import Mathlib.Data.List.Perm.Basic

/-! The rewards of a collection with the rounding of the machine taken out: the shares
add up to the value but for the three roundings to cents, grow with the weights, and do
not depend on the order in which the materials are listed. A material that is named like
a property of every object has no number for a rate, and with it nothing has a number. -/

namespace Livora.ExactRewards

open DoubleRounding ExactDecimals NumberRecords
open RewardStrategies (NumberRecord)

abbrev MaterialRecord := Record String ℚ

/-- What arithmetic comes to; `none` is `NaN`. -/
abbrev Number := Option ℚ

structure BreakdownEntry where
  weight : ℚ
  rate : Number
  subtotal : Number
deriving DecidableEq

structure RewardCalculation where
  totalEstimatedValue : Number
  householdAmount : Number
  treasuryAmount : Number
  requiredEscrow : Number
  breakdown : List (String × BreakdownEntry)
deriving DecidableEq

/-- The properties of `Object.prototype`: functions, and the prototype itself. -/
def inheritedNames : List String :=
  ["constructor", "__defineGetter__", "__defineSetter__", "hasOwnProperty", "__lookupGetter__",
    "__lookupSetter__", "isPrototypeOf", "propertyIsEnumerable", "toString", "valueOf", "__proto__",
    "toLocaleString"]

section Strategies

variable (arith : ℚ → ℚ) (toUpperCase : String → String) (weights agreedRates : List (String × ℚ))

/-- `agreedRates[name]`: an entry of the record, or else what every object has under that name,
which is no number. -/
def property (name : String) : Option Number :=
  match agreedRates.lookup name with
  | some rate => some (some rate)
  | none => if name ∈ inheritedNames then some none else none

/-- A rate that is there and not zero. -/
def rateUnder (name : String) : Option Number := (property agreedRates name).filter (· ≠ some 0)

/-- `agreedRates[mat] || agreedRates[mat.toUpperCase()] || 1.0` -/
def rateOf (mat : String) : Number :=
  ((rateUnder agreedRates mat).or (rateUnder agreedRates (toUpperCase mat))).getD (some 1)

def subtotalOf (entry : String × ℚ) : Number :=
  (rateOf toUpperCase agreedRates entry.1).map fun rate => arith (entry.2 * rate)

def totalValue : Number :=
  weights.foldl (fun total entry => total.bind fun value =>
    (subtotalOf arith toUpperCase agreedRates entry).map fun subtotal => arith (value + subtotal))
      (some 0)

/-- An assignment to `__proto__` makes no entry. -/
def breakdown : List (String × BreakdownEntry) :=
  (weights.filter fun entry => entry.1 ≠ "__proto__").map fun entry =>
    (entry.1, ⟨entry.2, rateOf toUpperCase agreedRates entry.1,
      (subtotalOf arith toUpperCase agreedRates entry).map fun subtotal =>
        toFixed arith subtotal 4⟩)

namespace StandardRewardStrategy

def calculate (isDonation : Bool) : RewardCalculation :=
  let totalActualValue := totalValue arith toUpperCase weights agreedRates
  { totalEstimatedValue := totalActualValue.map fun value => toFixed arith value 4
    householdAmount :=
      if isDonation then some 0
      else totalActualValue.map fun value => toFixed arith (arith (value * arith (25 / 100))) 2
    treasuryAmount := totalActualValue.map fun value =>
      toFixed arith (arith (value * arith (5 / 100))) 2
    requiredEscrow := totalActualValue.map fun value =>
      toFixed arith (arith (value * arith (7 / 10))) 2
    breakdown := breakdown arith toUpperCase weights agreedRates }

end StandardRewardStrategy

namespace DonationRewardStrategy

def calculate : RewardCalculation where
  totalEstimatedValue :=
    (totalValue arith toUpperCase weights agreedRates).map fun value => toFixed arith value 4
  householdAmount := some 0
  treasuryAmount := some 0
  requiredEscrow := some 0
  breakdown := breakdown arith toUpperCase weights agreedRates

end DonationRewardStrategy

end Strategies

variable {arith : ℚ → ℚ} {toUpperCase : String → String}
  {weights weights' agreedRates agreedRates' : List (String × ℚ)} {mat : String} {isDonation : Bool}

/-! ### Materials without a number for a rate -/

/-- The name is that of a property of every object, and no entry of the record bears it. -/
def Inherits (agreedRates : List (String × ℚ)) (name : String) : Prop :=
  agreedRates.lookup name = none ∧ name ∈ inheritedNames

def ownRate (agreedRates : List (String × ℚ)) (name : String) : Option ℚ :=
  (agreedRates.lookup name).filter (· ≠ 0)

/-- The material has no rate of its own, and bears an inherited name, as it is or in capitals. -/
def Unpriced (toUpperCase : String → String) (agreedRates : List (String × ℚ))
    (mat : String) : Prop :=
  Inherits agreedRates mat ∨ ownRate agreedRates mat = none ∧ Inherits agreedRates (toUpperCase mat)

instance (agreedRates : List (String × ℚ)) (name : String) :
    Decidable (Inherits agreedRates name) :=
  inferInstanceAs (Decidable (_ ∧ _))

instance (toUpperCase : String → String) (agreedRates : List (String × ℚ)) (mat : String) :
    Decidable (Unpriced toUpperCase agreedRates mat) :=
  inferInstanceAs (Decidable (_ ∨ _))

theorem property_of_none (h : agreedRates.lookup mat = none) :
    property agreedRates mat = if mat ∈ inheritedNames then some none else none := by
  rw [property, h]

theorem rateUnder_of_inherits (h : Inherits agreedRates mat) :
    rateUnder agreedRates mat = some none := by
  rw [rateUnder, property_of_none h.1, if_pos h.2]
  rfl

theorem rateUnder_of_not_inherits (h : ¬Inherits agreedRates mat) :
    rateUnder agreedRates mat = (ownRate agreedRates mat).map some := by
  rw [rateUnder, ownRate]
  cases hlookup : agreedRates.lookup mat with
  | some rate =>
    rw [property, hlookup]
    by_cases hrate : rate = 0
    · rw [Option.filter_some_neg (by simpa using hrate),
        Option.filter_some_neg (by simpa using hrate)]
      rfl
    · rw [Option.filter_some_pos (by simpa using hrate),
        Option.filter_some_pos (by simpa using hrate)]
      rfl
  | none =>
    rw [property_of_none hlookup, if_neg fun hname => h ⟨hlookup, hname⟩]
    rfl

theorem rateOf_of_unpriced (h : Unpriced toUpperCase agreedRates mat) :
    rateOf toUpperCase agreedRates mat = none := by
  rw [rateOf]
  by_cases hname : Inherits agreedRates mat
  · rw [rateUnder_of_inherits hname]
    rfl
  · obtain ⟨hown, hupper⟩ := h.resolve_left hname
    rw [rateUnder_of_not_inherits hname, hown, rateUnder_of_inherits hupper]
    rfl

/-- The rate as a number, which it is of a material that is priced. -/
def priceOf (toUpperCase : String → String) (agreedRates : List (String × ℚ)) (mat : String) : ℚ :=
  ((ownRate agreedRates mat).or (ownRate agreedRates (toUpperCase mat))).getD 1

theorem rateOf_of_priced (h : ¬Unpriced toUpperCase agreedRates mat) :
    rateOf toUpperCase agreedRates mat = some (priceOf toUpperCase agreedRates mat) := by
  obtain ⟨hname, hupper⟩ := not_or.mp h
  rw [rateOf, priceOf, rateUnder_of_not_inherits hname]
  cases hown : ownRate agreedRates mat with
  | some rate => rfl
  | none =>
    rw [rateUnder_of_not_inherits fun hinherits => hupper ⟨hown, hinherits⟩]
    cases ownRate agreedRates (toUpperCase mat) <;> rfl

theorem totalValue_of_unpriced (h : ∃ entry ∈ weights, Unpriced toUpperCase agreedRates entry.1) :
    totalValue arith toUpperCase weights agreedRates = none := by
  obtain ⟨entry, hentry, hunpriced⟩ := h
  obtain ⟨before, after, rfl⟩ := List.append_of_mem hentry
  rw [totalValue, List.foldl_append, List.foldl_cons, subtotalOf, rateOf_of_unpriced hunpriced]
  have hnone (l : List (String × ℚ)) : l.foldl (fun total entry => total.bind fun value =>
      (subtotalOf arith toUpperCase agreedRates entry).map fun subtotal => arith (value + subtotal))
        (none : Number) = none := by
    induction l with
    | nil => rfl
    | cons entry l ih => exact ih
  have hstep (total : Number) : (total.bind fun value =>
      (Option.map (fun rate => arith (entry.2 * rate)) none).map fun subtotal =>
        arith (value + subtotal)) =
        none := by
    cases total <;> rfl
  rw [hstep, hnone]

theorem totalValue_of_priced (h : ∀ entry ∈ weights, ¬Unpriced toUpperCase agreedRates entry.1) :
    totalValue arith toUpperCase weights agreedRates = some (weights.foldl (fun total entry =>
      arith (total + arith (entry.2 * priceOf toUpperCase agreedRates entry.1))) 0) := by
  unfold totalValue
  generalize (0 : ℚ) = start
  induction weights generalizing start with
  | nil => rfl
  | cons entry weights ih =>
    obtain ⟨hentry, hweights⟩ := List.forall_mem_cons.mp h
    rw [List.foldl_cons, List.foldl_cons, ← ih hweights, subtotalOf, rateOf_of_priced hentry]
    rfl

/-! ### The machine's own arithmetic -/

def values (record : NumberRecord) : List (String × ℚ) :=
  record.map fun entry => (entry.1, entry.2.val)

def ofNumbers (r : RewardStrategies.RewardCalculation) : RewardCalculation where
  totalEstimatedValue := some r.totalEstimatedValue
  householdAmount := some r.householdAmount
  treasuryAmount := some r.treasuryAmount
  requiredEscrow := some r.requiredEscrow
  breakdown := (r.breakdown.filter fun entry => entry.1 ≠ "__proto__").map fun entry =>
    (entry.1, ⟨entry.2.weight, some entry.2.rate, some entry.2.subtotal⟩)

theorem ownRate_values (record : NumberRecord) :
    ownRate (values record) mat = RewardStrategies.rateUnder record mat := by
  have hlookup : (values record).lookup mat = (record.lookup mat).map Double.val := by
    induction record with
    | nil => rfl
    | cons entry record ih =>
      obtain ⟨name, number⟩ := entry
      simp only [values, List.map_cons, List.lookup_cons] at ih ⊢
      rw [ih]
      split <;> rfl
  rw [ownRate, RewardStrategies.rateUnder, hlookup]

theorem priceOf_values (record : NumberRecord) :
    priceOf toUpperCase (values record) mat = RewardStrategies.rateOf toUpperCase record mat := by
  rw [priceOf, ownRate_values, ownRate_values, RewardStrategies.rateOf]

theorem calculate_values (toUpperCase : String → String) (weights agreedRates : NumberRecord)
    (h : ∀ entry ∈ values weights, ¬Unpriced toUpperCase (values agreedRates) entry.1)
    (isDonation : Bool) :
    StandardRewardStrategy.calculate fl toUpperCase (values weights)
    (values agreedRates) isDonation =
        ofNumbers (RewardStrategies.StandardRewardStrategy.calculate toUpperCase weights agreedRates
          isDonation) ∧
      DonationRewardStrategy.calculate fl toUpperCase (values weights) (values agreedRates) =
        ofNumbers
          (RewardStrategies.DonationRewardStrategy.calculate toUpperCase weights agreedRates) := by
  have htotal : totalValue fl toUpperCase (values weights) (values agreedRates) =
      some (RewardStrategies.totalValue toUpperCase weights agreedRates) := by
    rw [totalValue_of_priced h, RewardStrategies.totalValue,
      show values weights = weights.map _ from rfl, List.foldl_map]
    simp only [priceOf_values]
    rfl
  have hbreakdown : breakdown fl toUpperCase (values weights) (values agreedRates) =
      ((RewardStrategies.breakdown toUpperCase weights agreedRates).filter
        fun entry => entry.1 ≠ "__proto__").map fun entry =>
          (entry.1, ⟨entry.2.weight, some entry.2.rate, some entry.2.subtotal⟩) := by
    rw [breakdown, RewardStrategies.breakdown, show values weights = weights.map _ from rfl,
      List.filter_map, List.filter_map, List.map_map, List.map_map]
    refine List.map_congr_left fun entry hentry => ?_
    have hpriced := h (entry.1, entry.2.val) (List.mem_map_of_mem (List.mem_of_mem_filter hentry))
    simp only [Function.comp_apply, subtotalOf, rateOf_of_priced hpriced,
      RewardStrategies.subtotalOf, ← priceOf_values]
    rfl
  constructor
  · simp only [StandardRewardStrategy.calculate, htotal, hbreakdown]
    cases isDonation <;> rfl
  · simp only [DonationRewardStrategy.calculate, htotal, hbreakdown]
    rfl

/-! ### Exact arithmetic -/

theorem priceOf_nonneg (hrates : ∀ entry ∈ agreedRates, 0 ≤ entry.2) (mat : String) :
    0 ≤ priceOf toUpperCase agreedRates mat := by
  have hown (name : String) (rate : ℚ) (h : ownRate agreedRates name = some rate) : 0 ≤ rate := by
    obtain ⟨hlookup, -⟩ := Option.filter_eq_some_iff.mp h
    exact hrates (name, rate) (mem_of_lookup hlookup)
  unfold priceOf
  cases hname : ownRate agreedRates mat with
  | some rate => exact hown mat rate hname
  | none =>
    cases hupper : ownRate agreedRates (toUpperCase mat) with
    | some rate => exact hown (toUpperCase mat) rate hupper
    | none => exact zero_le_one

def worth (toUpperCase : String → String) (weights agreedRates : List (String × ℚ)) : ℚ :=
  (weights.map fun entry => entry.2 * priceOf toUpperCase agreedRates entry.1).sum

theorem totalValue_eq_worth (h : ∀ entry ∈ weights, ¬Unpriced toUpperCase agreedRates entry.1) :
    totalValue id toUpperCase weights agreedRates =
      some (worth toUpperCase weights agreedRates) := by
  rw [totalValue_of_priced h, worth, foldl_id_add, zero_add]
  rfl

theorem worth_nonneg (hweights : ∀ entry ∈ weights, 0 ≤ entry.2)
    (hrates : ∀ entry ∈ agreedRates, 0 ≤ entry.2) :
    0 ≤ worth toUpperCase weights agreedRates := by
  refine List.sum_nonneg fun subtotal hsubtotal => ?_
  obtain ⟨entry, hentry, rfl⟩ := List.mem_map.mp hsubtotal
  exact mul_nonneg (hweights entry hentry) (priceOf_nonneg hrates entry.1)

/-! ### Growing weights -/

def Grown : List (String × ℚ) → List (String × ℚ) → Prop :=
  List.Forall₂ fun entry entry' => entry.1 = entry'.1 ∧ entry.2 ≤ entry'.2

theorem worth_mono (hrates : ∀ entry ∈ agreedRates, 0 ≤ entry.2) (h : Grown weights weights') :
    worth toUpperCase weights agreedRates ≤ worth toUpperCase weights' agreedRates := by
  unfold worth
  induction h with
  | nil => exact le_rfl
  | cons hentry _ ih =>
    obtain ⟨hname, hle⟩ := hentry
    simp only [List.map_cons, List.sum_cons, hname]
    exact add_le_add (mul_le_mul_of_nonneg_right hle (priceOf_nonneg hrates _)) ih

theorem priced_of_grown (h : Grown weights weights')
    (hpriced : ∀ entry ∈ weights, ¬Unpriced toUpperCase agreedRates entry.1) :
    ∀ entry ∈ weights', ¬Unpriced toUpperCase agreedRates entry.1 := by
  induction h with
  | nil => exact hpriced
  | cons hentry _ ih =>
    obtain ⟨hfirst, hrest⟩ := List.forall_mem_cons.mp hpriced
    exact List.forall_mem_cons.mpr ⟨hentry.1 ▸ hfirst, ih hrest⟩

/-! ### The order of the entries -/

theorem rateOf_perm (hkeys : (agreedRates.map Prod.fst).Nodup) (h : agreedRates.Perm agreedRates') :
    rateOf toUpperCase agreedRates = rateOf toUpperCase agreedRates' := by
  funext mat
  simp only [rateOf, rateUnder, property, lookup_perm hkeys h]

theorem worth_perm (hkeys : (agreedRates.map Prod.fst).Nodup) (hw : weights.Perm weights')
    (hr : agreedRates.Perm agreedRates') :
    worth toUpperCase weights agreedRates = worth toUpperCase weights' agreedRates' := by
  simp only [worth, priceOf, ownRate, lookup_perm hkeys hr]
  exact (hw.map _).sum_eq

theorem priced_of_perm (hkeys : (agreedRates.map Prod.fst).Nodup) (hw : weights.Perm weights')
    (hr : agreedRates.Perm agreedRates')
    (hpriced : ∀ entry ∈ weights, ¬Unpriced toUpperCase agreedRates entry.1) :
    ∀ entry ∈ weights', ¬Unpriced toUpperCase agreedRates' entry.1 := by
  intro entry hentry
  have h := hpriced entry (hw.mem_iff.mpr hentry)
  simpa only [Unpriced, Inherits, ownRate, lookup_perm hkeys hr] using h

/-! ### What the strategies share out -/

/-- The three amounts are numbers: a quarter, a twentieth and seven tenths of the value, to the
cent. -/
structure SharesOut (total : ℚ) (r : RewardCalculation) : Prop where
  sum : ∃ household ∈ r.householdAmount, ∃ treasury ∈ r.treasuryAmount, ∃ escrow ∈ r.requiredEscrow,
    |household + treasury + escrow - total| ≤ 15 / 1000
  household : ∃ household ∈ r.householdAmount, |household - 25 / 100 * total| ≤ 5 / 1000
  treasury : ∃ treasury ∈ r.treasuryAmount, |treasury - 5 / 100 * total| ≤ 5 / 1000
  escrow : ∃ escrow ∈ r.requiredEscrow, |escrow - 70 / 100 * total| ≤ 5 / 1000

def NumberLE (x y : Number) : Prop := ∃ a ∈ x, ∃ b ∈ y, a ≤ b

structure AtMost (r r' : RewardCalculation) : Prop where
  household : NumberLE r.householdAmount r'.householdAmount
  treasury : NumberLE r.treasuryAmount r'.treasuryAmount
  escrow : NumberLE r.requiredEscrow r'.requiredEscrow

structure SameReward (r r' : RewardCalculation) : Prop where
  total : r.totalEstimatedValue = r'.totalEstimatedValue
  household : r.householdAmount = r'.householdAmount
  treasury : r.treasuryAmount = r'.treasuryAmount
  escrow : r.requiredEscrow = r'.requiredEscrow
  breakdown : r.breakdown.Perm r'.breakdown

/-- What the two strategies are to do with the weights at the rates. -/
structure Rewards (toUpperCase : String → String) (weights agreedRates : MaterialRecord) :
    Prop where
  shares : ∃ total ∈ totalValue id toUpperCase weights.entries agreedRates.entries, SharesOut total
    (StandardRewardStrategy.calculate id toUpperCase weights.entries agreedRates.entries false)
  grows : ∀ heavier : MaterialRecord, Grown weights.entries heavier.entries →
    AtMost (StandardRewardStrategy.calculate id toUpperCase weights.entries agreedRates.entries false)
      (StandardRewardStrategy.calculate id toUpperCase heavier.entries agreedRates.entries false)
  unordered : ∀ weights' agreedRates' : MaterialRecord, weights.entries.Perm weights'.entries →
    agreedRates.entries.Perm agreedRates'.entries → ∀ isDonation, SameReward
      (StandardRewardStrategy.calculate id toUpperCase weights.entries agreedRates.entries isDonation)
      (StandardRewardStrategy.calculate id toUpperCase weights'.entries agreedRates'.entries isDonation)
  donation : ∀ isDonation,
    let donated :=
      DonationRewardStrategy.calculate id toUpperCase weights.entries agreedRates.entries
    let paid :=
      StandardRewardStrategy.calculate id toUpperCase weights.entries agreedRates.entries isDonation
    donated.totalEstimatedValue = paid.totalEstimatedValue ∧ donated.breakdown = paid.breakdown ∧
      donated.householdAmount = some 0

section Priced

variable (hpriced : ∀ entry ∈ weights, ¬Unpriced toUpperCase agreedRates entry.1)

include hpriced

theorem amounts_of_priced :
    (StandardRewardStrategy.calculate id toUpperCase weights agreedRates false).householdAmount =
        some (toFixed id (worth toUpperCase weights agreedRates * (25 / 100)) 2) ∧
      (StandardRewardStrategy.calculate id toUpperCase weights agreedRates false).treasuryAmount =
        some (toFixed id (worth toUpperCase weights agreedRates * (5 / 100)) 2) ∧
      (StandardRewardStrategy.calculate id toUpperCase weights agreedRates false).requiredEscrow =
        some (toFixed id (worth toUpperCase weights agreedRates * (7 / 10)) 2) := by
  simp only [StandardRewardStrategy.calculate, totalValue_eq_worth hpriced]
  exact ⟨rfl, rfl, rfl⟩

theorem sharesOut (h0 : 0 ≤ worth toUpperCase weights agreedRates) :
    SharesOut (worth toUpperCase weights agreedRates)
      (StandardRewardStrategy.calculate id toUpperCase weights agreedRates false) := by
  obtain ⟨hhousehold, htreasury, hescrow⟩ := amounts_of_priced hpriced
  have hquarter := abs_toFixed_sub_le 2 (mul_nonneg h0 (by norm_num : (0 : ℚ) ≤ 25 / 100))
  have htwentieth := abs_toFixed_sub_le 2 (mul_nonneg h0 (by norm_num : (0 : ℚ) ≤ 5 / 100))
  have htenths := abs_toFixed_sub_le 2 (mul_nonneg h0 (by norm_num : (0 : ℚ) ≤ 7 / 10))
  rw [abs_le] at hquarter htwentieth htenths
  refine ⟨⟨_, hhousehold, _, htreasury, _, hescrow, ?_⟩, ⟨_, hhousehold, ?_⟩, ⟨_, htreasury, ?_⟩,
    ⟨_, hescrow, ?_⟩⟩
  all_goals
    rw [abs_le]
    constructor <;> linarith

theorem atMost (hpriced' : ∀ entry ∈ weights', ¬Unpriced toUpperCase agreedRates entry.1)
    (h0 : 0 ≤ worth toUpperCase weights agreedRates)
    (h : worth toUpperCase weights agreedRates ≤ worth toUpperCase weights' agreedRates) :
    AtMost (StandardRewardStrategy.calculate id toUpperCase weights agreedRates false)
      (StandardRewardStrategy.calculate id toUpperCase weights' agreedRates false) := by
  obtain ⟨hhousehold, htreasury, hescrow⟩ := amounts_of_priced hpriced
  obtain ⟨hhousehold', htreasury', hescrow'⟩ := amounts_of_priced hpriced'
  have hshare {part : ℚ} (hpart : 0 ≤ part) :
      toFixed id (worth toUpperCase weights agreedRates * part) 2 ≤
        toFixed id (worth toUpperCase weights' agreedRates * part) 2 :=
    toFixed_mono (mul_nonneg h0 hpart) (mul_le_mul_of_nonneg_right h hpart)
  exact ⟨⟨_, hhousehold, _, hhousehold', hshare (by norm_num)⟩,
    ⟨_, htreasury, _, htreasury', hshare (by norm_num)⟩,
    ⟨_, hescrow, _, hescrow', hshare (by norm_num)⟩⟩

theorem sameReward (hkeys : (agreedRates.map Prod.fst).Nodup) (hw : weights.Perm weights')
    (hr : agreedRates.Perm agreedRates') :
    SameReward (StandardRewardStrategy.calculate id toUpperCase weights agreedRates isDonation)
      (StandardRewardStrategy.calculate id toUpperCase weights' agreedRates' isDonation) := by
  have htotal : totalValue id toUpperCase weights agreedRates =
      totalValue id toUpperCase weights' agreedRates' := by
    rw [totalValue_eq_worth hpriced, totalValue_eq_worth (priced_of_perm hkeys hw hr hpriced),
      worth_perm hkeys hw hr]
  have hbreakdown : (breakdown id toUpperCase weights agreedRates).Perm
      (breakdown id toUpperCase weights' agreedRates') := by
    simp only [breakdown, subtotalOf, rateOf_perm hkeys hr]
    exact (hw.filter _).map _
  constructor <;> simp only [StandardRewardStrategy.calculate, htotal, hbreakdown]

end Priced

/-- The amounts of the standard strategy are those shares, and the donation is beside it, exactly
where no material that is weighed bears the name of a property of every object without a rate of its
own. -/
theorem standard_shares_iff (toUpperCase : String → String) (weights agreedRates : MaterialRecord)
    (hweights : ∀ entry ∈ weights.entries, 0 ≤ entry.2)
    (hrates : ∀ entry ∈ agreedRates.entries, 0 ≤ entry.2) :
    Rewards toUpperCase weights agreedRates ↔
      ∀ entry ∈ weights.entries, ¬Unpriced toUpperCase agreedRates.entries entry.1 := by
  constructor
  · intro h entry hentry hunpriced
    obtain ⟨total, htotal, -⟩ := h.shares
    rw [totalValue_of_unpriced ⟨entry, hentry, hunpriced⟩] at htotal
    cases htotal
  · intro hpriced
    have h0 : 0 ≤ worth toUpperCase weights.entries agreedRates.entries :=
      worth_nonneg hweights hrates
    refine ⟨⟨_, totalValue_eq_worth hpriced, sharesOut hpriced h0⟩, fun heavier hgrown => ?_,
      fun weights' agreedRates' hw hr isDonation => ?_, fun isDonation => ⟨rfl, rfl, rfl⟩⟩
    · exact atMost hpriced (priced_of_grown hgrown hpriced) h0 (worth_mono hrates hgrown)
    · exact sameReward hpriced agreedRates.keys_nodup hw hr

theorem sack_nodup :
    ((([("PET", 25 / 2), ("CARTON", 3)] : List (String × ℚ))).map Prod.fst).Nodup := by decide

def sack : MaterialRecord := ⟨[("PET", 25 / 2), ("CARTON", 3)], sack_nodup⟩

theorem sack_shares : Rewards String.toUpper sack sack := by
  have hnonneg : ∀ entry ∈ sack.entries, (0 : ℚ) ≤ entry.2 := by
    simp only [sack, List.forall_mem_cons, List.not_mem_nil, IsEmpty.forall_iff, implies_true]
    norm_num
  have hpriced : ∀ entry ∈ sack.entries, ¬Unpriced String.toUpper sack.entries entry.1 := by
    decide +kernel
  exact (standard_shares_iff String.toUpper sack sack hnonneg hnonneg).mpr hpriced

def named : MaterialRecord := ⟨[("toString", 10)], List.nodup_singleton _⟩

/-- Ten kilograms of `toString` have no value, and no share of it is a number. -/
theorem toString_unpriced : ¬Rewards String.toUpper named Record.empty := by
  rintro ⟨⟨total, htotal, -⟩, -, -, -⟩
  have hnone : totalValue id String.toUpper named.entries Record.empty.entries = none := by
    decide +kernel
  rw [hnone] at htotal
  cases htotal

end Livora.ExactRewards
