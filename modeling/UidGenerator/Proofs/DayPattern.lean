import UidGenerator.Proofs.JavaDate

/-! `parsePattern` with the pattern `yyyy-MM-dd`. The years 0 to 99 are counted 1900 years
later and shifted back, which meets the day wherever the two stretches of the calendar
have the same leap days on the way. -/

namespace UID

open Calendar

structure IsDay (text y m d : JsString) : Prop where
  year : IsField y
  month : IsField m
  day : IsField d
  text_eq : text = y ++ unit '-' :: (m ++ unit '-' :: d)

theorem patternItems_day : patternItems DAY_PATTERN =
    [.field (unit 'y') 4, .literal (unit '-'), .field (unit 'M') 2, .literal (unit '-'),
      .field (unit 'd') 2] := by
  decide

def dayFields (y m d : JsString) : DateFields where
  year := number y
  month := number m - 1
  day := number d

theorem parsePattern_of_isDay {text y m d : JsString} (h : IsDay text y m d) :
    parsePattern text DAY_PATTERN = .ok (some (dayFields y m d).toDate) := by
  have hitems : parseItems DAY_PATTERN (patternItems DAY_PATTERN) {} text =
      .ok (some (dayFields y m d, [])) := by
    rw [patternItems_day, h.text_eq,
      parseItems_field rfl h.year (noDigitNext_cons (by decide) _) rfl, parseItems_literal,
      parseItems_field rfl h.month (noDigitNext_cons (by decide) _) rfl, parseItems_literal,
      ← List.append_nil d, parseItems_field rfl h.day noDigitNext_nil rfl, parseItems, List.append_nil]
    rfl
  rw [parsePattern, hitems]
  rfl

theorem isDay_of_parseItems {text : JsString} {result : DateFields}
    (hparse : parseItems DAY_PATTERN (patternItems DAY_PATTERN) {} text = .ok (some (result, []))) :
    ∃ y m d, IsDay text y m d := by
  rw [patternItems_day] at hparse
  obtain ⟨y, afterYear, _, rfl, hy, -, hyear⟩ := parseItems_field_some rfl hparse
  obtain ⟨beforeMonth, rfl, hdash⟩ := parseItems_literal_some hyear
  obtain ⟨m, afterMonth, _, rfl, hm, -, hmonth⟩ := parseItems_field_some rfl hdash
  obtain ⟨beforeDay, rfl, hdash'⟩ := parseItems_literal_some hmonth
  obtain ⟨d, afterDay, _, rfl, hd, -, hday⟩ := parseItems_field_some rfl hdash'
  simp only [parseItems, Except.ok.injEq, Option.some.injEq, Prod.mk.injEq] at hday
  obtain ⟨-, rfl⟩ := hday
  exact ⟨y, m, d, hy, hm, hd, by rw [List.append_nil]⟩

theorem parsePattern_of_not_isDay {text : JsString} (h : ¬∃ y m d, IsDay text y m d) :
    parsePattern text DAY_PATTERN = .ok none := by
  obtain ⟨result, hitems⟩ := parseItems_ok DAY_PATTERN (patternItems DAY_PATTERN)
    (by
      rw [patternItems_day]
      intro letter run hmem fields value
      simp only [List.mem_cons, PatternItem.field.injEq, reduceCtorEq, List.not_mem_nil, or_false,
        false_or] at hmem
      rcases hmem with ⟨rfl, -⟩ | ⟨rfl, -⟩ | ⟨rfl, -⟩ <;> exact ⟨_, rfl⟩) {} text
  rw [parsePattern, hitems]
  cases result with
  | none => rfl
  | some result =>
    obtain ⟨fields, rest⟩ := result
    cases rest with
    | nil => exact absurd (isDay_of_parseItems hitems) h
    | cons _ _ => rfl

/-- The day reached from 1 January of year `y`, `m - 1` months and `d - 1` days later. -/
def lenientDay (y m d : ℤ) : ℤ := dayFromMonth (12 * y + (m - 1)) + (d - 1)

def midnight (day : ℤ) : ℤ := day * MS_PER_DAY

/-- The first of month `k`, 1900 years later: there are 461 leap days between, one less
in a hundred years out of four hundred. -/
theorem dayFromMonth_add_1900 (k : ℤ) : dayFromMonth (k + 22800) =
    dayFromMonth k + if (k - 2) % 4800 < 1200 then 693960 else 693961 := by
  obtain ⟨y, m, rfl, h0, hlt⟩ := month_cases k
  rw [show 12 * y + m + 22800 = 12 * (y + 1900) + m by ring, dayFromMonth_add h0 hlt,
    dayFromMonth_add h0 hlt]
  unfold dayFromYear IsLeap
  split_ifs <;> omega

/-- The day is in the hundred years that begin with 29 February of a year divisible by 400. -/
def InShortCentury (day : ℤ) : Prop := (day - dayFromMonth 2 + 1) % 146097 < 36525

instance : DecidablePred InShortCentury := fun _ => inferInstanceAs (Decidable (_ < _))

/-- The days from the first of the month to the day that is meant are the same days 1900
years later. -/
def SameDaysLater (y m d : ℤ) : Prop :=
  if InShortCentury (lenientDay y m 1) then InShortCentury (lenientDay y m d - 1)
  else ¬InShortCentury (lenientDay y m d)

theorem inShortCentury_first (k : ℤ) :
    InShortCentury (dayFromMonth k) ↔ (k - 2) % 4800 < 1200 := by
  have hlen := le_monthLength k
  have hfirst := cycle_month_iff 2 1200 (monthFromDay_first k le_rfl (by omega))
  have hsecond := cycle_month_iff 2 1200 (monthFromDay_first k zero_le_one (by omega))
  have hyears : dayFromMonth (2 + 1200) - dayFromMonth 2 = 36524 := by decide
  rw [hyears] at hfirst hsecond
  unfold InShortCentury
  omega

/-- The day of 1900 years later, shifted back, is the day that is meant. -/
theorem shifted_iff (y m d : ℤ) :
    let later := lenientDay (y + 1900) m d
    later - dayFromMonth (monthFromDay later) + dayFromMonth (monthFromDay later - 22800) =
      lenientDay y m d ↔ SameDaysLater y m d := by
  intro later
  obtain ⟨k, hk⟩ : ∃ k, 12 * y + (m - 1) = k := ⟨_, rfl⟩
  have hfirst : lenientDay y m 1 = dayFromMonth k := by rw [lenientDay, hk, sub_self, add_zero]
  have hday : lenientDay y m d = dayFromMonth k + (d - 1) := by rw [lenientDay, hk]
  have hlater : later = dayFromMonth (k + 22800) + (d - 1) := by
    rw [← hk, show later = dayFromMonth (12 * (y + 1900) + (m - 1)) + (d - 1) from rfl]
    congr 2
    ring
  have hstart := inShortCentury_first k
  have hend := cycle_month_iff 22802 1200 (rfl : monthFromDay later = _)
  have hback := dayFromMonth_add_1900 (monthFromDay later - 22800)
  have h₁ : dayFromMonth 22802 = dayFromMonth 2 + 693960 := by decide
  have h₂ : dayFromMonth (22802 + 1200) = dayFromMonth 2 + 693960 + 36525 := by decide
  rw [h₁, h₂] at hend
  rw [sub_add_cancel] at hback
  rw [dayFromMonth_add_1900] at hlater
  unfold SameDaysLater
  rw [hfirst, hday]
  simp only [hstart]
  unfold InShortCentury
  split_ifs at hback hlater ⊢ <;> omega

theorem midnight_injective : Function.Injective midnight := fun a b h => by
  unfold midnight MS_PER_DAY at h
  omega

theorem makeDay_eq_lenientDay (y m d : ℤ) : Date.makeDay y (m - 1) d = lenientDay y m d := by
  unfold Date.makeDay lenientDay
  ring

theorem makeTime_zero : Date.makeTime 0 0 0 0 = 0 := rfl

theorem new_of_year_lt {y m d : JsString} (h : number y < 100) :
    Date.new (number y) (number m - 1) (number d) 0 0 0 0 =
      Date.timeClip (midnight (lenientDay (number y + 1900) (number m) (number d))) := by
  have hyear : 0 ≤ (number y : ℤ) ∧ (number y : ℤ) ≤ 99 := by omega
  simp only [Date.new, if_pos hyear, makeDay_eq_lenientDay, add_comm (1900 : ℤ), makeTime_zero,
    add_zero, midnight]

theorem dayFields_toDate {y m d : JsString} (h : 100 ≤ number y) :
    (dayFields y m d).toDate = Date.timeClip (midnight (lenientDay (number y) (number m) (number d))) := by
  have hyear : 100 ≤ (dayFields y m d).year := Int.ofNat_le.2 h
  rw [toDate_of_year_ge hyear]
  simp only [dayFields, makeDay_eq_lenientDay, makeTime_zero, add_zero, midnight]

theorem setFullYear_midnight (n : ℤ) :
    Date.setFullYear (midnight n) (Date.getFullYear (midnight n) - 1900) =
      Date.timeClip (midnight (n - dayFromMonth (monthFromDay n) +
        dayFromMonth (monthFromDay n - 22800))) := by
  have hday : Date.day (midnight n) = n := by
    simpa [midnight] using Date.day_add n le_rfl (by decide)
  have htime : Date.timeWithinDay (midnight n) = 0 := by
    simpa [midnight] using Date.timeWithinDay_add n le_rfl (by decide)
  have hmonth : 12 * (monthFromDay n / 12 - 1900) + monthFromDay n % 12 = monthFromDay n - 22800 := by
    omega
  simp only [Date.setFullYear, Date.makeDay, Date.getFullYear, Date.getMonth, Date.getDate, hday,
    htime, hmonth]
  congr 1
  unfold midnight
  ring

/-- The years 0 to 99. -/
theorem toDate_of_year_lt {y m d : JsString} (h : number y < 100)
    (hmeant : IsTime (midnight (lenientDay (number y) (number m) (number d)))) :
    (dayFields y m d).toDate.time = some (midnight (lenientDay (number y) (number m) (number d))) ↔
      IsTime (midnight (lenientDay (number y + 1900) (number m) (number d))) ∧
        SameDaysLater (number y) (number m) (number d) := by
  have hyear : (number y : ℤ) ≥ 0 ∧ (number y : ℤ) < 100 := by omega
  have hshift := shifted_iff (number y) (number m) (number d)
  simp only [DateFields.toDate, dayFields, if_pos hyear, new_of_year_lt h]
  generalize lenientDay (number y + 1900) (number m) (number d) = later at hshift ⊢
  by_cases htime : IsTime (midnight later)
  · rw [Date.timeClip_of_isTime htime]
    simp only [setFullYear_midnight, Date.time_timeClip_eq_some, midnight_injective.eq_iff, htime,
      true_and, ← hshift]
    refine ⟨?_, ?_⟩
    · exact fun h => h.2
    · exact fun h => ⟨h ▸ hmeant, h⟩
  · rw [Date.timeClip_of_not htime]
    simp [Date.timeClip_of_not htime, htime]

/-- What is read of a text is what it means: three fields give the midnight of their day,
if it can be a date, and other texts give nothing. -/
structure ReadsDay (text : JsString) : Prop where
  fields_iff : (∃ date, parsePattern text DAY_PATTERN = .ok (some date)) ↔ ∃ y m d, IsDay text y m d
  otherwise : (¬∃ y m d, IsDay text y m d) → parsePattern text DAY_PATTERN = .ok none
  midnight : ∀ y m d, IsDay text y m d →
    IsTime (midnight (lenientDay (number y) (number m) (number d))) →
      ∃ date, parsePattern text DAY_PATTERN = .ok (some date) ∧
        date.time = some (midnight (lenientDay (number y) (number m) (number d)))

/-- A text is read as it is meant, exactly when its year is not before 100 or its day is
the same day 1900 years later. -/
theorem readsDay_iff (text : JsString) : ReadsDay text ↔
    ∀ y m d, IsDay text y m d → IsTime (midnight (lenientDay (number y) (number m) (number d))) →
      100 ≤ number y ∨ IsTime (midnight (lenientDay (number y + 1900) (number m) (number d))) ∧
        SameDaysLater (number y) (number m) (number d) := by
  have hfields : (∃ date, parsePattern text DAY_PATTERN = .ok (some date)) ↔
      ∃ y m d, IsDay text y m d := by
    refine ⟨?_, ?_⟩
    · rintro ⟨date, hdate⟩
      by_contra hnone
      rw [parsePattern_of_not_isDay hnone] at hdate
      cases hdate
    · rintro ⟨y, m, d, hday⟩
      exact ⟨_, parsePattern_of_isDay hday⟩
  refine ⟨?_, ?_⟩
  · rintro ⟨-, -, hmidnight⟩ y m d hday htime
    by_cases hyear : 100 ≤ number y
    · exact Or.inl hyear
    · obtain ⟨date, hdate, hvalue⟩ := hmidnight y m d hday htime
      rw [parsePattern_of_isDay hday] at hdate
      obtain rfl := Option.some.inj (Except.ok.inj hdate)
      exact Or.inr ((toDate_of_year_lt (not_le.1 hyear) htime).1 hvalue)
  · refine fun hlater => ⟨hfields, parsePattern_of_not_isDay, fun y m d hday htime => ?_⟩
    refine ⟨_, parsePattern_of_isDay hday, ?_⟩
    by_cases hyear : 100 ≤ number y
    · rw [dayFields_toDate hyear, Date.timeClip_of_isTime htime]
    · exact (toDate_of_year_lt (not_le.1 hyear) htime).2 ((hlater y m d hday htime).resolve_left hyear)

/-- 29 February of the year 0 is counted in 1900, which has none. -/
theorem leap_day_of_year_zero_lost :
    IsDay (js "0000-02-29") (js "0000") (js "02") (js "29") ∧
      (∃ date, parsePattern (js "0000-02-29") DAY_PATTERN = .ok (some date) ∧
        date.time = some (midnight (lenientDay 0 3 1))) ∧
      lenientDay 0 2 29 < lenientDay 0 3 1 ∧ ¬ReadsDay (js "0000-02-29") := by
  have hday : IsDay (js "0000-02-29") (js "0000") (js "02") (js "29") :=
    ⟨⟨by decide, by decide, by decide⟩, ⟨by decide, by decide, by decide⟩,
      ⟨by decide, by decide, by decide⟩, by decide⟩
  have hparse := parsePattern_of_isDay hday
  have hvalue : (dayFields (js "0000") (js "02") (js "29")).toDate.time =
      some (midnight (lenientDay 0 3 1)) := by decide
  refine ⟨hday, ⟨_, hparse, hvalue⟩, by decide, fun hreads => ?_⟩
  obtain ⟨date, hdate, hmeant⟩ := hreads.midnight _ _ _ hday (by decide)
  rw [hparse] at hdate
  obtain rfl := Option.some.inj (Except.ok.inj hdate)
  rw [hvalue] at hmeant
  exact absurd hmeant (by decide)

end UID
