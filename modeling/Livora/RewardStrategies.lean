import Livora.DoubleRounding

/-! How a collection is rewarded. The standard strategy values the weights at the
agreed rates and shares a quarter to the household, a twentieth to the treasury
and asks 70 % in escrow; a donation pays nobody. Every operation rounds to
binary64. A weight or rate sent as a decimal text is the number it reads as. -/

namespace Livora.RewardStrategies

open DoubleRounding

/-- Numbers by material, in the order the entries are listed. -/
abbrev NumberRecord := List (String × Double)

/-- `parseFloat(x.toFixed(digits))`; halves go away from zero. -/
def toFixed (x : ℚ) (digits : ℕ) : ℚ :=
  if 10 ^ 21 ≤ |x| then x
  else if x < 0 then -fl (round (-x * 10 ^ digits) / 10 ^ digits)
  else fl (round (x * 10 ^ digits) / 10 ^ digits)

structure BreakdownEntry where
  weight : ℚ
  rate : ℚ
  subtotal : ℚ
deriving DecidableEq

structure RewardCalculation where
  totalEstimatedValue : ℚ
  householdAmount : ℚ
  treasuryAmount : ℚ
  requiredEscrow : ℚ
  breakdown : List (String × BreakdownEntry)
deriving DecidableEq

/-- A rate that is there and not zero. A material named like a property of every object, for which
the service has no number, is met in `ExactRewards`. -/
def rateUnder (agreedRates : NumberRecord) (mat : String) : Option ℚ :=
  ((agreedRates.lookup mat).map Double.val).filter (· ≠ 0)

/-- `agreedRates[mat] || agreedRates[mat.toUpperCase()] || 1.0` -/
def rateOf (toUpperCase : String → String) (agreedRates : NumberRecord) (mat : String) : ℚ :=
  ((rateUnder agreedRates mat).or (rateUnder agreedRates (toUpperCase mat))).getD 1

section Strategies

variable (toUpperCase : String → String) (weights agreedRates : NumberRecord)

def subtotalOf (entry : String × Double) : ℚ :=
  fl (entry.2.val * rateOf toUpperCase agreedRates entry.1)

def totalValue : ℚ :=
  weights.foldl (fun total entry => fl (total + subtotalOf toUpperCase agreedRates entry)) 0

def breakdown : List (String × BreakdownEntry) :=
  weights.map fun entry =>
    (entry.1, ⟨entry.2.val, rateOf toUpperCase agreedRates entry.1,
      toFixed (subtotalOf toUpperCase agreedRates entry) 4⟩)

namespace StandardRewardStrategy

def calculate (isDonation : Bool) : RewardCalculation :=
  let totalActualValue := totalValue toUpperCase weights agreedRates
  { totalEstimatedValue := toFixed totalActualValue 4
    householdAmount := if isDonation then 0 else toFixed (fl (totalActualValue * fl (25 / 100))) 2
    treasuryAmount := toFixed (fl (totalActualValue * fl (5 / 100))) 2
    requiredEscrow := toFixed (fl (totalActualValue * fl (7 / 10))) 2
    breakdown := breakdown toUpperCase weights agreedRates }

end StandardRewardStrategy

namespace DonationRewardStrategy

def calculate : RewardCalculation where
  totalEstimatedValue := toFixed (totalValue toUpperCase weights agreedRates) 4
  householdAmount := 0
  treasuryAmount := 0
  requiredEscrow := 0
  breakdown := breakdown toUpperCase weights agreedRates

end DonationRewardStrategy

/-- `getStrategy(isDonation).calculate(weights, agreedRates, isDonation)` -/
def calculateReward (isDonation : Bool) : RewardCalculation :=
  if isDonation then DonationRewardStrategy.calculate toUpperCase weights agreedRates
  else StandardRewardStrategy.calculate toUpperCase weights agreedRates isDonation

theorem donation_pays_nobody :
    (calculateReward toUpperCase weights agreedRates true).householdAmount = 0 ∧
      (calculateReward toUpperCase weights agreedRates true).treasuryAmount = 0 :=
  ⟨rfl, rfl⟩

end Strategies

end Livora.RewardStrategies
