import Livora.ForestWeeks
import Mathlib.Tactic.Ring

/-! The weeks of Mi Bosque on the values that a `Date` can have. A time out of its range makes an
invalid date, and what is computed from one is no number; the years from 0 to 99 stand for those of
the twentieth century where a date is made from its parts. -/

namespace Livora.DateWeeks

open DecimalTexts
open ForestWeeks (Zone msPerDay dayOf midnight weekday dayFromYear fullYear dateOf mondayOf)

def maxTime : ℤ := 8640000000000000

abbrev Instant := {time : ℤ // |time| ≤ maxTime}

/-- `TimeClip`; none is the time of an invalid date. -/
def timeClip (time : ℤ) : Option ℤ := if |time| ≤ maxTime then some time else none

section Dates

variable (zone : Zone)

/-- `setDate(date)`: another day of the same month, at the same time of the day. -/
def setDate (time date : ℤ) : Option ℤ :=
  timeClip (midnight zone (dayOf zone time - dateOf (dayOf zone time) + date) +
    (time + zone.ahead) % msPerDay)

/-- `setHours(hour, min, sec, ms)` -/
def setHours (time hour min sec ms : ℤ) : Option ℤ :=
  timeClip (midnight zone (dayOf zone time) + (((hour * 60 + min) * 60 + sec) * 1000 + ms))

/-- `new Date(year, 0, 1)` -/
def firstOfYear (year : ℤ) : Option ℤ :=
  timeClip (midnight zone (dayFromYear (if 0 ≤ year ∧ year ≤ 99 then 1900 + year else year)))

def getStartOfWeek (date : ℤ) : Option ℤ := do
  let day := weekday (dayOf zone date)
  let diff := dateOf (dayOf zone date) - day + if day = 0 then -6 else 1
  let monday ← setDate zone date diff
  setHours zone monday 0 0 0 0

def getEndOfWeek (date : ℤ) : Option ℤ := do
  let monday ← getStartOfWeek zone date
  let sunday ← setDate zone monday (dateOf (dayOf zone monday) + 6)
  setHours zone sunday 23 59 59 999

/-- `String(n)`, of a number that is an integer or none at all. -/
def numberText : Option ℤ → List Char
  | none => ['N', 'a', 'N']
  | some n => (if n < 0 then ['-'] else []) ++ Nat.toDigits 10 n.natAbs

/-- `Math.ceil(x / 7)` -/
def weeks (x : ℤ) : ℤ := -(-x / 7)

def weekNum (monday : ℤ) : Option ℤ := do
  let yearStart ← firstOfYear zone (fullYear (dayOf zone monday))
  let diffDays := (monday - yearStart) / msPerDay
  some (weeks (diffDays + weekday (dayOf zone yearStart) + 1))

def keyOf (monday : Option ℤ) : List Char :=
  numberText (monday.map fun monday => fullYear (dayOf zone monday)) ++
    '-' :: 'W' :: padStart 2 (numberText (monday.bind (weekNum zone)))

def getWeekKey (date : ℤ) : String := String.ofList (keyOf zone (getStartOfWeek zone date))

end Dates

variable {zone : Zone} {time day : ℤ}

/-! ### The range of dates -/

theorem timeClip_eq_some {t : ℤ} : timeClip time = some t ↔ |time| ≤ maxTime ∧ time = t := by
  unfold timeClip
  split <;> simp_all

theorem timeClip_eq_none : timeClip time = none ↔ maxTime < |time| := by
  unfold timeClip
  split <;> simp_all

theorem dayOf_midnight {ms : ℤ} (hms : 0 ≤ ms) (hlt : ms < msPerDay) :
    dayOf zone (midnight zone day + ms) = day := by
  unfold dayOf midnight msPerDay at *
  omega

theorem dayOf_midnight_zero (zone : Zone) (day : ℤ) : dayOf zone (midnight zone day) = day := by
  have hday : dayOf zone (midnight zone day + 0) = day := dayOf_midnight le_rfl (by decide)
  rwa [add_zero] at hday

theorem mem_day (zone : Zone) (time : ℤ) :
    midnight zone (dayOf zone time) ≤ time ∧ time < midnight zone (dayOf zone time) + msPerDay ∧
      midnight zone (dayOf zone time) + (time + zone.ahead) % msPerDay = time := by
  unfold dayOf midnight msPerDay
  omega

theorem midnight_add (n : ℤ) : midnight zone (day + n) = midnight zone day + n * msPerDay := by
  unfold midnight
  ring

theorem getStartOfWeek_eq (date : Instant) :
    getStartOfWeek zone date = timeClip (midnight zone (mondayOf (dayOf zone date))) := by
  obtain ⟨date, hdate⟩ := date
  have hday := mem_day zone date
  have hmonday := ForestWeeks.mondayOf_le (dayOf zone date)
  have hday' : dayOf zone date - dateOf (dayOf zone date) +
      (dateOf (dayOf zone date) - weekday (dayOf zone date) +
      if weekday (dayOf zone date) = 0 then -6 else 1) = mondayOf (dayOf zone date) := by
    unfold mondayOf
    ring
  have hms : 0 ≤ (date + zone.ahead) % msPerDay ∧ (date + zone.ahead) % msPerDay < msPerDay := by
    unfold msPerDay
    omega
  have hle : midnight zone (mondayOf (dayOf zone date)) ≤ midnight zone (dayOf zone date) := by
    unfold midnight msPerDay
    omega
  simp only [getStartOfWeek, setDate, hday']
  cases hset : timeClip (midnight zone (mondayOf (dayOf zone date)) +
    (date + zone.ahead) % msPerDay) with
  | none =>
    rw [timeClip_eq_none] at hset
    refine (timeClip_eq_none.mpr ?_).symm
    rw [abs_le] at hdate
    rw [lt_abs] at hset ⊢
    omega
  | some monday =>
    obtain ⟨-, rfl⟩ := timeClip_eq_some.mp hset
    change setHours zone _ 0 0 0 0 = _
    rw [setHours, dayOf_midnight hms.1 hms.2]
    norm_num

theorem getEndOfWeek_eq (date : Instant) : getEndOfWeek zone date =
    (getStartOfWeek zone date).bind fun _ =>
      timeClip (midnight zone (mondayOf (dayOf zone date) + 7) - 1) := by
  unfold getEndOfWeek
  rw [getStartOfWeek_eq]
  cases hstart : timeClip (midnight zone (mondayOf (dayOf zone date))) with
  | none => rfl
  | some monday =>
    obtain ⟨hrange, rfl⟩ := timeClip_eq_some.mp hstart
    have hday := dayOf_midnight_zero zone (mondayOf (dayOf zone date))
    have hms : (midnight zone (mondayOf (dayOf zone date)) + zone.ahead) % msPerDay = 0 := by
      unfold midnight msPerDay
      omega
    have hsunday : setDate zone (midnight zone (mondayOf (dayOf zone date)))
        (dateOf (mondayOf (dayOf zone date)) + 6) =
        timeClip (midnight zone (mondayOf (dayOf zone date)) + 6 * msPerDay) := by
      rw [setDate, hday, hms, add_zero, ← midnight_add]
      ring_nf
    simp only [Option.bind_eq_bind, Option.bind_some, hday, hsunday]
    rw [midnight_add]
    cases hset : timeClip (midnight zone (mondayOf (dayOf zone date)) + 6 * msPerDay) with
    | none =>
      rw [timeClip_eq_none] at hset
      refine (timeClip_eq_none.mpr ?_).symm
      rw [abs_le] at hrange
      rw [lt_abs] at hset ⊢
      unfold msPerDay at *
      omega
    | some sunday =>
      obtain ⟨-, rfl⟩ := timeClip_eq_some.mp hset
      have hsix : dayOf zone (midnight zone (mondayOf (dayOf zone date)) + 6 * msPerDay) =
          mondayOf (dayOf zone date) + 6 := by
        rw [← midnight_add]
        exact dayOf_midnight_zero zone _
      rw [Option.bind_some, setHours, hsix, midnight_add]
      congr 1
      unfold msPerDay
      ring

/-! ### Texts of numbers -/

theorem numberText_neg {n : ℤ} (h : n < 0) :
    numberText (some n) = '-' :: Nat.toDigits 10 n.natAbs := by
  rw [numberText, if_pos h]
  rfl

theorem numberText_nonneg {n : ℤ} (h : 0 ≤ n) : numberText (some n) = Nat.toDigits 10 n.natAbs := by
  rw [numberText, if_neg (not_lt.mpr h), List.nil_append]

theorem not_mem_numberText {c : Char} (hdigit : c.isDigit = false) (hc : c ∉ ['N', 'a', '-'])
    (o : Option ℤ) :
    c ∉ numberText o := by
  simp only [List.mem_cons, List.not_mem_nil, or_false, not_or] at hc
  obtain ⟨hN, ha, hminus⟩ := hc
  cases o with
  | none => simp [numberText, hN, ha]
  | some n =>
    rcases lt_or_ge n 0 with hneg | hpos
    · rw [numberText_neg hneg]
      simp [hminus, not_mem_toDigits _ hdigit]
    · rw [numberText_nonneg hpos]
      exact not_mem_toDigits _ hdigit

theorem padStart_numberText (o : Option ℤ) :
    (o = none ∧ padStart 2 (numberText o) = ['N', 'a', 'N']) ∨
    (∃ n < 0, o = some n ∧ padStart 2 (numberText o) = '-' :: Nat.toDigits 10 n.natAbs) ∨
    ∃ n, 0 ≤ n ∧ o = some n ∧ padStart 2 (numberText o) = padded 2 n.natAbs := by
  cases o with
  | none => exact .inl ⟨rfl, rfl⟩
  | some n =>
    rcases lt_or_ge n 0 with hneg | hpos
    · refine .inr (.inl ⟨n, hneg, rfl, ?_⟩)
      have hlength : 1 ≤ (Nat.toDigits 10 n.natAbs).length :=
        List.length_pos_iff.mpr Nat.toDigits_ne_nil
      rw [numberText_neg hneg, padStart, List.length_cons, Nat.sub_eq_zero_of_le (by omega),
        List.replicate_zero, List.nil_append]
    · refine .inr (.inr ⟨n, hpos, rfl, ?_⟩)
      rw [numberText_nonneg hpos, padded]

theorem head_ne_of_padded {c : Char} {rest : List Char} {n : ℕ} (hc : c.isDigit = false) :
    padded 2 n ≠ c :: rest := by
  intro h
  have hdigit := isDigit_padded (show c ∈ padded 2 n from h ▸ List.mem_cons_self)
  rw [hc] at hdigit
  cases hdigit

theorem padStart_inj {o o' : Option ℤ}
    (h : padStart 2 (numberText o) = padStart 2 (numberText o')) : o = o' := by
  rcases padStart_numberText o with ⟨rfl, ho⟩ | ⟨n, hn, rfl, ho⟩ | ⟨n, hn, rfl, ho⟩ <;>
    rcases padStart_numberText o' with ⟨rfl, ho'⟩ | ⟨n', hn', rfl, ho'⟩ | ⟨n', hn', rfl, ho'⟩ <;>
    have h := ho.symm.trans (h.trans ho')
  · rfl
  · cases (List.cons.inj h).1
  · exact absurd h.symm (head_ne_of_padded rfl)
  · cases (List.cons.inj h).1
  · have hsame := toDigits_inj (List.cons.inj h).2
    congr 1
    omega
  · exact absurd h.symm (head_ne_of_padded rfl)
  · exact absurd h (head_ne_of_padded rfl)
  · exact absurd h (head_ne_of_padded rfl)
  · have hsame := padded_inj h
    congr 1
    omega

theorem numberText_inj {o o' : Option ℤ} (h : numberText o = numberText o') : o = o' :=
  padStart_inj (congrArg (padStart 2) h)

theorem keyOf_inj {monday monday' : Option ℤ} (h : keyOf zone monday = keyOf zone monday') :
    monday.map (fun monday => fullYear (dayOf zone monday)) =
      monday'.map (fun monday => fullYear (dayOf zone monday)) ∧
    monday.bind (weekNum zone) = monday'.bind (weekNum zone) := by
  have hcut (o : Option ℤ) (rest : List Char) : numberText o ++ '-' :: 'W' :: rest =
      (numberText o ++ ['-']) ++ 'W' :: rest := by simp
  have hnot (o : Option ℤ) : 'W' ∉ numberText o ++ ['-'] := by
    simp [not_mem_numberText (c := 'W') rfl (by decide) o]
  unfold keyOf at h
  rw [hcut, hcut] at h
  obtain ⟨hyear, hweek⟩ := append_cons_inj (hnot _) (hnot _) h
  exact ⟨numberText_inj (List.append_cancel_right hyear), padStart_inj hweek⟩

/-! ### Weeks and keys -/

def firstYear : ℤ := -271821

/-- The Monday is a date of the first year, whose first day is none. -/
def Unnumbered (zone : Zone) (date : Instant) : Prop :=
  (getStartOfWeek zone date).isSome ∧ fullYear (mondayOf (dayOf zone date)) = firstYear

theorem year_of_firstOfYear (hmonday : |midnight zone day| ≤ maxTime)
    (h : firstOfYear zone (fullYear day) = none) : fullYear day = firstYear := by
  have hspec := ForestWeeks.fullYear_spec day
  have hleast := zone.least
  have hmost := zone.most
  unfold firstOfYear at h
  rw [timeClip_eq_none, lt_abs] at h
  rw [abs_le] at hmonday
  unfold midnight msPerDay maxTime at *
  unfold dayFromYear firstYear at *
  split at h <;> omega

theorem week_of_number {m : ℤ} {n : ℤ} (h : weekNum zone (midnight zone m) = some n) :
    ∃ first, firstOfYear zone (fullYear m) = some first ∧
      n = weeks (m - dayOf zone first + weekday (dayOf zone first) + 1) := by
  have hday := dayOf_midnight_zero zone m
  obtain ⟨first, hfirst, hn⟩ := Option.bind_eq_some_iff.mp h
  rw [hday] at hfirst
  refine ⟨first, hfirst, ?_⟩
  obtain ⟨-, hmidnight⟩ := timeClip_eq_some.mp hfirst
  have hdiff : (midnight zone m - first) / msPerDay = m - dayOf zone first := by
    rw [← hmidnight]
    unfold dayOf midnight msPerDay
    omega
  rw [hdiff] at hn
  exact (Option.some.inj hn).symm

theorem monday_of_invalid {date date' : Instant} (h : getStartOfWeek zone date = none)
    (h' : getStartOfWeek zone date' = none) :
    mondayOf (dayOf zone date) = mondayOf (dayOf zone date') := by
  rw [getStartOfWeek_eq, timeClip_eq_none, lt_abs] at h h'
  have hdate := abs_le.mp date.property
  have hdate' := abs_le.mp date'.property
  have hday := mem_day zone date
  have hday' := mem_day zone date'
  have hmonday := ForestWeeks.mondayOf_le (dayOf zone date)
  have hmonday' := ForestWeeks.mondayOf_le (dayOf zone date')
  have hweekday := ForestWeeks.weekday_mondayOf (dayOf zone date)
  have hweekday' := ForestWeeks.weekday_mondayOf (dayOf zone date')
  generalize mondayOf (dayOf zone date) = m at *
  generalize mondayOf (dayOf zone date') = m' at *
  unfold weekday at *
  unfold midnight msPerDay maxTime at *
  omega

theorem getStartOfWeek_eq_iff {date date' : Instant} :
    getStartOfWeek zone date = getStartOfWeek zone date' ↔
    mondayOf (dayOf zone date) = mondayOf (dayOf zone date') := by
  constructor
  · intro h
    cases hstart : getStartOfWeek zone date with
    | none => exact monday_of_invalid hstart (h.symm.trans hstart)
    | some monday =>
      have hstart' := h.symm.trans hstart
      rw [getStartOfWeek_eq] at hstart hstart'
      have hsame := (timeClip_eq_some.mp hstart).2.trans (timeClip_eq_some.mp hstart').2.symm
      unfold midnight msPerDay at hsame
      omega
  · intro h
    rw [getStartOfWeek_eq, getStartOfWeek_eq, h]

theorem monday_of_key {date date' : Instant}
    (hnumbered : ¬ (Unnumbered zone date ∧ Unnumbered zone date'))
    (h : getWeekKey zone date = getWeekKey zone date') :
    mondayOf (dayOf zone date) = mondayOf (dayOf zone date') := by
  obtain ⟨hyear, hweek⟩ := keyOf_inj (String.ofList_injective h)
  have hday := dayOf_midnight_zero zone
  cases hstart : getStartOfWeek zone date with
  | none =>
    rw [hstart, Option.map_none] at hyear
    exact monday_of_invalid hstart (Option.map_eq_none_iff.mp hyear.symm)
  | some monday =>
    cases hstart' : getStartOfWeek zone date' with
    | none =>
      rw [hstart, hstart'] at hyear
      cases hyear
    | some monday' =>
      have hvalid := hstart
      have hvalid' := hstart'
      rw [getStartOfWeek_eq] at hvalid hvalid'
      obtain ⟨hrange, rfl⟩ := timeClip_eq_some.mp hvalid
      obtain ⟨hrange', rfl⟩ := timeClip_eq_some.mp hvalid'
      rw [hstart, hstart', Option.map_some, Option.map_some, hday, hday] at hyear
      rw [hstart, hstart', Option.bind_some, Option.bind_some] at hweek
      have hyear := Option.some.inj hyear
      cases hnum : weekNum zone (midnight zone (mondayOf (dayOf zone date))) with
      | none =>
        have hfirst : firstOfYear zone (fullYear (mondayOf (dayOf zone date))) = none := by
          rw [weekNum, hday] at hnum
          cases hfirst : firstOfYear zone (fullYear (mondayOf (dayOf zone date))) with
          | none => rfl
          | some first =>
            rw [hfirst] at hnum
            cases hnum
        have hthat := year_of_firstOfYear hrange hfirst
        exact absurd ⟨⟨by rw [hstart]; rfl, hthat⟩, by rw [hstart']; rfl, hyear ▸ hthat⟩ hnumbered
      | some n =>
        obtain ⟨first, hfirst, hn⟩ := week_of_number hnum
        obtain ⟨first', hfirst', hn'⟩ := week_of_number (hweek ▸ hnum)
        rw [hyear] at hfirst
        obtain rfl := Option.some.inj (hfirst.symm.trans hfirst')
        have hweekday := ForestWeeks.weekday_mondayOf (dayOf zone date)
        have hweekday' := ForestWeeks.weekday_mondayOf (dayOf zone date')
        unfold weeks at hn hn'
        unfold weekday at hweekday hweekday'
        omega

theorem ends_of_range (zone : Zone) {date : Instant} (h : |date.val| + 7 * msPerDay ≤ maxTime) :
    getStartOfWeek zone date = some (midnight zone (mondayOf (dayOf zone date))) ∧
      getEndOfWeek zone date = some (midnight zone (mondayOf (dayOf zone date) + 7) - 1) := by
  have hday := mem_day zone date.val
  have hmonday := ForestWeeks.mondayOf_le (dayOf zone date)
  have hends : |midnight zone (mondayOf (dayOf zone date))| ≤ maxTime ∧
      |midnight zone (mondayOf (dayOf zone date) + 7) - 1| ≤ maxTime := by
    have hdate := abs_le.mp (show |date.val| ≤ maxTime - 7 * msPerDay by omega)
    rw [abs_le, abs_le]
    unfold midnight msPerDay maxTime at *
    omega
  rw [getEndOfWeek_eq, getStartOfWeek_eq, timeClip_eq_some.mpr ⟨hends.1, rfl⟩,
    timeClip_eq_some.mpr ⟨hends.2, rfl⟩]
  exact ⟨rfl, rfl⟩

/-- Two dates have one key exactly when they are in one week from Monday to Sunday, unless the
Mondays of both are in the first year; and a date is in its week, as far as the ends of that are
dates, as they are a week away from the ends of the range. -/
theorem weeks_of_keys (zone : Zone) :
    (∀ date date' : Instant, getStartOfWeek zone date = getStartOfWeek zone date' ↔
      mondayOf (dayOf zone date) = mondayOf (dayOf zone date')) ∧
    (∀ date date' : Instant, ¬ (Unnumbered zone date ∧ Unnumbered zone date') →
      (getWeekKey zone date = getWeekKey zone date' ↔
        getStartOfWeek zone date = getStartOfWeek zone date')) ∧
    ∀ date : Instant, (∀ monday, getStartOfWeek zone date = some monday → monday ≤ date) ∧
      (∀ sunday, getEndOfWeek zone date = some sunday → date ≤ sunday) ∧
      (|date.val| + 7 * msPerDay ≤ maxTime →
        (getStartOfWeek zone date).isSome ∧ (getEndOfWeek zone date).isSome) := by
  refine ⟨fun date date' => getStartOfWeek_eq_iff, fun date date' hnumbered =>
    ⟨fun h => ?_, fun h => ?_⟩, fun date => ?_⟩
  · exact getStartOfWeek_eq_iff.mpr (monday_of_key hnumbered h)
  · rw [getWeekKey, h, getWeekKey]
  · obtain ⟨hlow, hhigh⟩ := ForestWeeks.mem_week zone date
    refine ⟨fun monday h => ?_, fun sunday h => ?_, fun hrange => ?_⟩
    · rw [getStartOfWeek_eq] at h
      exact (timeClip_eq_some.mp h).2 ▸ hlow
    · rw [getEndOfWeek_eq] at h
      obtain ⟨monday, -, h⟩ := Option.bind_eq_some_iff.mp h
      exact (timeClip_eq_some.mp h).2 ▸ hhigh
    · obtain ⟨hstart, hend⟩ := ends_of_range zone hrange
      rw [hstart, hend]
      exact ⟨rfl, rfl⟩

def lima : Zone := ⟨-18000000, by decide, by decide⟩

/-- The weeks of two Tuesdays of the first year have one key, and the last week has no end. -/
theorem one_key_for_two_weeks : ∃ date date' last :
    Instant, getWeekKey lima date = getWeekKey lima date' ∧
    getStartOfWeek lima date ≠ getStartOfWeek lima date' ∧ getEndOfWeek lima last = none :=
  ⟨⟨-8639999000000000, by decide⟩, ⟨-8639998000000000, by decide⟩, ⟨8640000000000000, by decide⟩,
    by decide +kernel, by decide +kernel, by decide +kernel⟩

/-! ### The weeks of rewards -/

theorem weekNum_eq {m : ℤ} (hyear : 1969 ≤ fullYear m) (hrange : |midnight zone m| ≤ maxTime) :
    weekNum zone (midnight zone m) = some (ForestWeeks.weekNum m) := by
  have hday : dayOf zone (midnight zone m) = m := dayOf_midnight_zero zone m
  have hfirst : firstOfYear zone (fullYear m) =
      some (midnight zone (dayFromYear (fullYear m))) := by
    have hspec := ForestWeeks.fullYear_spec m
    have hleast := zone.least
    have hmost := zone.most
    rw [firstOfYear, if_neg (by omega)]
    refine timeClip_eq_some.mpr ⟨?_, rfl⟩
    rw [abs_le] at hrange ⊢
    unfold midnight msPerDay maxTime at *
    unfold dayFromYear at *
    omega
  have hdiff : (midnight zone m - midnight zone (dayFromYear (fullYear m))) / msPerDay =
      m - dayFromYear (fullYear m) := by
    unfold midnight msPerDay
    omega
  simp only [weekNum, hday, hfirst, Option.bind_eq_bind, Option.bind_some, hdiff,
    dayOf_midnight_zero]
  congr 1
  unfold weeks ForestWeeks.weekNum
  dsimp only
  omega

theorem getWeekKey_eq {date : Instant} (h0 : 0 ≤ date.val)
    (hrange : date.val + 7 * msPerDay ≤ maxTime) :
    getWeekKey zone date = ForestWeeks.getWeekKey zone date := by
  have hrange : |date.val| + 7 * msPerDay ≤ maxTime := by rwa [abs_of_nonneg h0]
  have hstart := (ends_of_range zone hrange).1
  have hmonday : |midnight zone (mondayOf (dayOf zone date))| ≤ maxTime := by
    have hclip := hstart
    rw [getStartOfWeek_eq] at hclip
    exact (timeClip_eq_some.mp hclip).1
  have hyear : 1969 ≤ fullYear (mondayOf (dayOf zone date)) := by
    have hspec := ForestWeeks.fullYear_spec (mondayOf (dayOf zone date))
    have hmonday := ForestWeeks.mondayOf_le (dayOf zone date)
    have hleast := zone.least
    unfold dayOf msPerDay dayFromYear at *
    omega
  have hpos := ForestWeeks.weekNum_pos (mondayOf (dayOf zone date))
  rw [getWeekKey, ForestWeeks.getWeekKey, hstart, keyOf, Option.map_some, Option.bind_some,
    dayOf_midnight_zero, weekNum_eq hyear hmonday, numberText_nonneg (by omega),
    numberText_nonneg (by omega), ForestWeeks.keyOf, padded]
  congr 3
  · omega
  · congr 3
    omega

end Livora.DateWeeks
