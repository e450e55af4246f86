import Livora.DecimalTexts
import Mathlib.Tactic.Linarith

/-! The weeks of Mi Bosque, from Monday to Sunday on the clock of the server. Its zone keeps one
distance from the universal time, and times are milliseconds after the first of 1970. -/

namespace Livora.ForestWeeks

open DecimalTexts

structure Zone where
  ahead : ℤ
  least : -86400000 ≤ ahead
  most : ahead ≤ 86400000

def msPerDay : ℤ := 24 * 60 * 60 * 1000

def dayOf (zone : Zone) (time : ℤ) : ℤ := (time + zone.ahead) / msPerDay

def midnight (zone : Zone) (day : ℤ) : ℤ := day * msPerDay - zone.ahead

/-- `getDay()`, with 0 for Sundays. -/
def weekday (day : ℤ) : ℤ := (day + 4) % 7

def dayFromYear (year : ℤ) : ℤ :=
  365 * (year - 1970) + (year - 1969) / 4 - (year - 1901) / 100 + (year - 1601) / 400

/-- `getFullYear()` -/
def fullYear (day : ℤ) : ℤ :=
  let year := 1970 + day * 400 / 146097
  if dayFromYear (year + 1) ≤ day then year + 1 else if day <
    dayFromYear year then year - 1 else year

/-- The days of a year before each of its months. -/
def monthStarts (year : ℤ) : List ℤ :=
  let feb := if year % 4 = 0 ∧ (year % 100 ≠ 0 ∨ year % 400 = 0) then 29 else 28
  [31, feb, 31, 30, 31, 30, 31, 31, 30, 31, 30].scanl (· + ·) 0

/-- `getMonth()` -/
def monthOf (day : ℤ) : ℕ :=
  ((monthStarts (fullYear day)).filter fun first =>
    decide (first ≤ day - dayFromYear (fullYear day))).length - 1

/-- `getDate()` -/
def dateOf (day : ℤ) : ℤ :=
  day - dayFromYear (fullYear day) - (monthStarts (fullYear day)).getD (monthOf day) 0 + 1

def mondayOf (day : ℤ) : ℤ := day - weekday day + if weekday day = 0 then -6 else 1

def getStartOfWeek (zone : Zone) (date : ℤ) : ℤ := midnight zone (mondayOf (dayOf zone date))

def getEndOfWeek (zone : Zone) (date : ℤ) : ℤ := midnight zone (mondayOf (dayOf zone date) + 7) - 1

def weekNum (monday : ℤ) : ℤ :=
  let yearStart := dayFromYear (fullYear monday)
  let diffDays := monday - yearStart
  (diffDays + weekday yearStart + 1 + 6) / 7

/-- The numbers are those of years after 1968, so that the texts have no sign. -/
def keyOf (monday : ℤ) : List Char :=
  Nat.toDigits 10 (fullYear monday).toNat ++ '-' :: 'W' :: padded 2 (weekNum monday).toNat

def getWeekKey (zone : Zone) (date : ℤ) : String :=
  String.ofList (keyOf (mondayOf (dayOf zone date)))

def months : List String :=
  ["Ene", "Feb", "Mar", "Abr", "May", "Jun", "Jul", "Ago", "Set", "Oct", "Nov", "Dic"]

def dateLabel (day : ℤ) : String := toString (dateOf day) ++ " " ++ months.getD (monthOf day) ""

def getWeekLabel (zone : Zone) (date : ℤ) : String :=
  let monday := mondayOf (dayOf zone date)
  dateLabel monday ++ " - " ++ dateLabel (monday + 6)

/-! ### The calendar -/

theorem fullYear_spec (day : ℤ) :
    dayFromYear (fullYear day) ≤ day ∧ day < dayFromYear (fullYear day + 1) := by
  unfold fullYear
  dsimp only
  split
  · rename_i hnext
    refine ⟨hnext, ?_⟩
    unfold dayFromYear
    omega
  · rename_i hnext
    split
    · rename_i hbefore
      rw [sub_add_cancel]
      refine ⟨?_, hbefore⟩
      unfold dayFromYear
      omega
    · rename_i hsame
      exact ⟨not_lt.mp hsame, not_le.mp hnext⟩

theorem mondayOf_le (day : ℤ) : mondayOf day ≤ day ∧ day < mondayOf day + 7 := by
  unfold mondayOf weekday
  split <;> omega

theorem weekday_mondayOf (day : ℤ) : weekday (mondayOf day) = 1 := by
  unfold mondayOf weekday
  split <;> omega

theorem mem_week (zone : Zone) (date : ℤ) :
    getStartOfWeek zone date ≤ date ∧ date ≤ getEndOfWeek zone date := by
  have hmonday := mondayOf_le (dayOf zone date)
  have hday : midnight zone (dayOf zone date) ≤ date ∧
      date < midnight zone (dayOf zone date + 1) := by
    unfold midnight dayOf msPerDay
    omega
  unfold getStartOfWeek getEndOfWeek
  unfold midnight msPerDay at *
  omega

/-! ### Week keys -/

theorem fullYear_of_dayOf (zone : Zone) (date : ℕ) : 0 ≤ fullYear (mondayOf (dayOf zone date)) := by
  have hspec := fullYear_spec (mondayOf (dayOf zone date))
  have hmonday := mondayOf_le (dayOf zone date)
  have hday : -1 ≤ dayOf zone date := by
    have := zone.least
    unfold dayOf msPerDay
    omega
  unfold dayFromYear at hspec
  omega

theorem weekNum_pos (monday : ℤ) : 0 < weekNum monday := by
  have hspec := fullYear_spec monday
  unfold weekNum weekday
  dsimp only
  omega

theorem weekNum_inj {m n : ℤ} (hm : weekday m = 1) (hn : weekday n = 1)
    (hyear : fullYear m = fullYear n) (h : weekNum m = weekNum n) : m = n := by
  unfold weekNum at h
  rw [hyear] at h
  unfold weekday at *
  dsimp only at h
  omega

theorem getWeekKey_inj {zone : Zone} {date date' : ℕ}
    (h : getWeekKey zone date = getWeekKey zone date') :
    getStartOfWeek zone date = getStartOfWeek zone date' := by
  obtain ⟨hyears, hrest⟩ := append_cons_inj (not_mem_toDigits _ rfl) (not_mem_toDigits _ rfl)
    (String.ofList_injective h)
  have hyear : fullYear (mondayOf (dayOf zone date)) = fullYear (mondayOf (dayOf zone date')) := by
    have hsame := toDigits_inj hyears
    have hpos := fullYear_of_dayOf zone date
    have hpos' := fullYear_of_dayOf zone date'
    omega
  have hnums := padded_inj (List.cons.inj hrest).2
  have hpos := weekNum_pos (mondayOf (dayOf zone date))
  have hpos' := weekNum_pos (mondayOf (dayOf zone date'))
  have hmonday := weekNum_inj (weekday_mondayOf _) (weekday_mondayOf _) hyear (by omega)
  rw [getStartOfWeek, hmonday, getStartOfWeek]

example : getWeekKey ⟨-18000000, by decide, by decide⟩ 1790000000000 = "2026-W39" := by
  decide +kernel

end Livora.ForestWeeks
