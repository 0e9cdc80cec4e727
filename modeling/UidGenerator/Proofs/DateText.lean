import UidGenerator.Proofs.DayPattern
import UidGenerator.Proofs.ParseUid

/-! What `DateUtils` writes of a date and reads again. Every date from the year 0 on is read
back, to the day or to the second that the pattern keeps, but for 29 February of the year 0;
no text of an earlier year is read at all. -/

namespace UID

open Calendar

variable {t r : ℤ} {fields : DateFields}

/-- 29 February of the year 0, which is counted 1900 years later, where there is none. -/
def IsLostDay (t : ℤ) : Prop :=
  Date.getFullYear t = 0 ∧ Date.getMonth t = 1 ∧ Date.getDate t = 29

instance : DecidablePred IsLostDay := fun _ => inferInstanceAs (Decidable (_ ∧ _ ∧ _))

/-- The day that is read of a date. -/
def readDay (t : ℤ) : ℤ := if IsLostDay t then Date.day t + 1 else Date.day t

/-- The months of the years 0 to 99 are as long as those 1900 years later, but for one. -/
theorem monthLength_add_1900 {k : ℤ} (h0 : 0 ≤ k) (h : k < 1200) :
    monthLength (k + 22800) = if k = 1 then 28 else monthLength k := by
  have hyear : (k + 22800) / 12 = k / 12 + 1900 := by omega
  have hmonth : (k + 22800) % 12 = k % 12 := by omega
  have hleap : IsLeap (k / 12 + 1900) ↔ k / 12 ≠ 0 ∧ IsLeap (k / 12) := by
    unfold IsLeap
    omega
  simp only [monthLength, hyear, hmonth, hleap]
  by_cases hk : k = 1
  · subst hk
    decide
  · rw [if_neg hk]
    split
    · next hfeb =>
      have hfirst : k / 12 ≠ 0 := by omega
      simp only [hfirst, ne_eq, not_false_eq_true, true_and]
    all_goals rfl

theorem setFullYear_add (n : ℤ) (h0 : 0 ≤ r) (h : r < MS_PER_DAY) :
    Date.setFullYear (n * MS_PER_DAY + r) (Date.getFullYear (n * MS_PER_DAY + r) - 1900) =
      Date.timeClip ((n - dayFromMonth (monthFromDay n) + dayFromMonth (monthFromDay n - 22800)) *
        MS_PER_DAY + r) := by
  have hday := Date.day_add n h0 h
  have htime := Date.timeWithinDay_add n h0 h
  have hmonth : 12 * (monthFromDay n / 12 - 1900) + monthFromDay n % 12 = monthFromDay n - 22800 := by
    omega
  simp only [Date.setFullYear, Date.makeDay, Date.getFullYear, Date.getMonth, Date.getDate, hday,
    htime, hmonth]
  congr 2
  ring

/-- The day of a month, counted 1900 years later and shifted back. -/
theorem shifted_day {k d : ℤ} (h0 : 0 ≤ k) (h : k < 1200) (hd0 : 0 ≤ d) (hd : d < monthLength k) :
    let later := dayFromMonth (k + 22800) + d
    later - dayFromMonth (monthFromDay later) + dayFromMonth (monthFromDay later - 22800) =
      dayFromMonth k + d + if k = 1 ∧ d = 28 then 1 else 0 := by
  intro later
  have hlen := monthLength_add_1900 h0 h
  by_cases hlost : k = 1 ∧ d = 28
  · obtain ⟨rfl, rfl⟩ := hlost
    decide
  · have hin : d < monthLength (k + 22800) := by
      rw [hlen]
      split_ifs with hk
      · subst hk
        have : monthLength 1 = 29 := by decide
        omega
      · exact hd
    have hmonth : monthFromDay later = k + 22800 := monthFromDay_first _ hd0 hin
    rw [hmonth, if_neg hlost, add_sub_cancel_right]
    ring

theorem month_of_time (t : ℤ) : 12 * Date.getFullYear t + Date.getMonth t = monthFromDay (Date.day t) :=
  Int.mul_ediv_add_emod _ _

theorem isLostDay_iff (t : ℤ) :
    IsLostDay t ↔ monthFromDay (Date.day t) = 1 ∧ Date.getDate t - 1 = 28 := by
  have hmonth := month_of_time t
  obtain ⟨h0, hlt⟩ := (Date.components t).month
  unfold IsLostDay
  omega

/-- The years 0 to 99, by the number of the month and the day in it. -/
theorem toDate_early {k d : ℤ} (hk0 : 0 ≤ k) (hk : k < 1200) (hd0 : 0 ≤ d) (hd : d < monthLength k)
    (hyear : 0 ≤ fields.year ∧ fields.year < 100) (hmonth : 12 * fields.year + fields.month = k)
    (hday : fields.day - 1 = d)
    (hr : Date.makeTime fields.hour fields.minute fields.second fields.milli = r) (h0 : 0 ≤ r)
    (h : r < MS_PER_DAY) : fields.toDate.time =
      some ((dayFromMonth k + d + if k = 1 ∧ d = 28 then 1 else 0) * MS_PER_DAY + r) := by
  have hfirst : dayFromMonth 0 ≤ dayFromMonth k := dayFromMonth_strictMono.monotone hk0
  have hgap : dayFromMonth k ≤ dayFromMonth (k + 22800) :=
    dayFromMonth_strictMono.monotone (by omega)
  have hlast : dayFromMonth (k + 22800) ≤ dayFromMonth 24000 :=
    dayFromMonth_strictMono.monotone (by omega)
  have hends : dayFromMonth 0 = -719528 ∧ dayFromMonth 24000 = 10957 := by decide
  have hlen := monthLength_le k
  have hlater : Date.makeDay (1900 + fields.year) fields.month fields.day =
      dayFromMonth (k + 22800) + d := by
    rw [Date.makeDay, ← hday, ← hmonth, show 12 * (1900 + fields.year) + fields.month =
      12 * fields.year + fields.month + 22800 by ring]
    ring
  have hnew : (Date.new fields.year fields.month fields.day fields.hour fields.minute fields.second
      fields.milli).time = some ((dayFromMonth (k + 22800) + d) * MS_PER_DAY + r) := by
    rw [Date.new, if_pos ⟨hyear.1, by omega⟩, hlater, hr, Date.timeClip_of_isTime]
    unfold IsTime
    unfold MS_PER_DAY at *
    omega
  rw [DateFields.toDate, if_pos ⟨hyear.1, hyear.2⟩]
  simp only [hnew]
  rw [setFullYear_add _ h0 h, shifted_day hk0 hk hd0 hd, Date.timeClip_of_isTime]
  unfold IsTime
  unfold MS_PER_DAY at *
  split_ifs <;> omega

/-- The date of the fields of a time value, with a time of the day. -/
theorem toDate_of_components (ht : IsTime t) (hyear : fields.year = Date.getFullYear t)
    (hmonth : fields.month = Date.getMonth t) (hday : fields.day = Date.getDate t)
    (hr : Date.makeTime fields.hour fields.minute fields.second fields.milli = r)
    (h0 : 0 ≤ Date.getFullYear t) (hr0 : 0 ≤ r) (hle : r ≤ Date.timeWithinDay t) :
    fields.toDate.time = some (readDay t * MS_PER_DAY + r) := by
  have hwithin : r < MS_PER_DAY := hle.trans_lt (Int.emod_lt_of_pos _ (by decide))
  have hcount := month_of_time t
  obtain ⟨hm0, hm⟩ := (Date.components t).month
  obtain ⟨hfirst, hnext⟩ := monthFromDay_spec (Date.day t)
  rw [dayFromMonth_succ] at hnext
  have hday' : Date.day t = dayFromMonth (monthFromDay (Date.day t)) + (Date.getDate t - 1) := by
    rw [Date.getDate]
    ring
  by_cases hearly : Date.getFullYear t < 100
  · rw [toDate_early (k := monthFromDay (Date.day t)) (d := Date.getDate t - 1) (by omega) (by omega)
      (by omega) (by omega) (by omega) (by rw [hyear, hmonth, hcount]) (by rw [hday]) hr hr0 hwithin,
      ← hday', readDay]
    simp only [isLostDay_iff]
    split_ifs
    · rfl
    · rw [add_zero]
  · have hsplit := Date.day_timeWithinDay t
    have hfirst' : dayFromMonth 0 ≤ Date.day t :=
      (dayFromMonth_strictMono.monotone (by omega)).trans hfirst
    have hyear0 : dayFromMonth 0 = -719528 := by decide
    have hrange : IsTime (Date.day t * MS_PER_DAY + r) := by
      unfold IsTime at *
      unfold MS_PER_DAY at *
      omega
    rw [toDate_of_year_ge (by omega), hyear, hmonth, hday, hr, Date.makeDay_components,
      Date.timeClip_of_isTime hrange, readDay, if_neg (fun hlost => by have := hlost.1; omega)]

def dayText (t : ℤ) : JsString :=
  pad (Date.getFullYear t) 4 ++ unit '-' :: (pad (Date.getMonth t + 1) 2 ++ unit '-' ::
    (pad (Date.getDate t) 2 ++ []))

theorem formatByDayPattern_of_time {date : Date} (h : date.time = some t) :
    formatByDayPattern (some date) = .ok (some (dayText t)) := by
  rw [formatByDayPattern, formatPattern, h, patternItems_day]
  rfl

theorem getFullYear_lt_of_isTime (h : IsTime t) : Date.getFullYear t < 10 ^ 10 := by
  have hlast : 100000000 < dayFromMonth (12 * 10 ^ 10) := by decide
  refine Date.getFullYear_lt (lt_of_le_of_lt ?_ hlast)
  unfold IsTime at h
  unfold Date.day MS_PER_DAY
  omega

/-- A day of the years 0 to 9999 is written in the form that `new Date` reads. -/
theorem isoDay_dayText (h0 : 0 ≤ Date.getFullYear t) (h : Date.getFullYear t < 10000) :
    Date.isoDay (dayText t) = some (Date.day t) := by
  obtain ⟨⟨hmonth, hmonth'⟩, ⟨hdate, hdate'⟩, -, -, -⟩ := Date.components t
  have hlast : Date.getDate t ≤ monthLength (12 * Date.getFullYear t + Date.getMonth t) := by
    have hspec := (monthFromDay_spec (Date.day t)).2
    rw [dayFromMonth_succ] at hspec
    rw [month_of_time]
    unfold Date.getDate
    omega
  have hmake := Date.makeDay_components t
  rw [dayText, List.append_nil]
  generalize Date.getFullYear t = y at *
  generalize Date.getMonth t = m at *
  generalize Date.getDate t = d at *
  lift y to ℕ using h0
  obtain ⟨m, rfl⟩ : ∃ n : ℕ, m = (n : ℤ) - 1 := ⟨(m + 1).toNat, by omega⟩
  lift d to ℕ using by omega
  rw [sub_add_cancel]
  have hy : (pad y 4).length = 4 := length_pad (by norm_num) (by omega)
  have hm : (pad m 2).length = 2 := length_pad (by norm_num) (by omega)
  have hd : (pad d 2).length = 2 := length_pad (by norm_num) (by omega)
  have hdigits : ∀ c ∈ pad y 4 ++ pad m 2 ++ pad d 2, isDigit c = true := by
    intro c hc
    rcases List.mem_append.1 hc with hc | hc
    · rcases List.mem_append.1 hc with hc | hc
      · exact isDigit_pad _ _ c hc
      · exact isDigit_pad _ _ c hc
    · exact isDigit_pad _ _ c hc
  have htake : (pad y 4 ++ unit '-' :: (pad m 2 ++ unit '-' :: pad d 2)).take 4 = pad y 4 :=
    List.take_left' hy
  have hafterYear : (pad y 4 ++ unit '-' :: (pad m 2 ++ unit '-' :: pad d 2)).drop 5 =
      pad m 2 ++ unit '-' :: pad d 2 := by
    rw [List.append_cons, List.drop_left' (by simp [hy])]
  have hafterMonth : (pad y 4 ++ unit '-' :: (pad m 2 ++ unit '-' :: pad d 2)).drop 8 = pad d 2 := by
    rw [show 8 = 5 + 3 from rfl, ← List.drop_drop, hafterYear, List.append_cons,
      List.drop_left' (by simp [hm])]
  simp only [Date.isoDay, htake, hafterYear, hafterMonth, List.take_left' hm, number_pad]
  rw [if_pos ⟨trivial, ⟨hy, hm, hd⟩, hdigits, by omega, by omega, hlast⟩, hmake]

/-- The text of a day as it comes back out of a column. -/
theorem ofText_dayText (fallback : JsString → Date) (h0 : 0 ≤ Date.getFullYear t)
    (h : Date.getFullYear t < 10000) :
    Date.ofText fallback (js (text (dayText t))) = Date.timeClip (Date.day t * MS_PER_DAY) := by
  have hascii : ∀ c ∈ dayText t, c < 0xd800 := by
    obtain ⟨⟨hmonth, -⟩, ⟨hdate, -⟩, -, -, -⟩ := Date.components t
    have hpad {value : ℤ} (hvalue : 0 ≤ value) (width : ℕ) : ∀ c ∈ pad value width, c < 0xd800 := by
      lift value to ℕ using hvalue
      exact fun c hc => lt_of_isDigit (isDigit_pad _ _ c hc)
    simp only [dayText, List.append_nil, List.mem_append, List.mem_cons]
    rintro c (hc | rfl | hc | rfl | hc)
    · exact hpad h0 4 c hc
    · decide
    · exact hpad (by omega) 2 c hc
    · decide
    · exact hpad (by omega) 2 c hc
  rw [js_text hascii, Date.ofText, isoDay_dayText h0 h]

def dateFields (t : ℤ) : DateFields where
  year := Date.getFullYear t
  month := Date.getMonth t
  day := Date.getDate t

theorem parsePattern_dayText (ht : IsTime t) (h0 : 0 ≤ Date.getFullYear t) :
    parsePattern (dayText t) DAY_PATTERN = .ok (some (dateFields t).toDate) := by
  obtain ⟨⟨hmonth, hmonth'⟩, ⟨hdate, hdate'⟩, -, -, -⟩ := Date.components t
  obtain ⟨hyearField, hyear⟩ :=
    isField_pad _ h0 (getFullYear_lt_of_isTime ht) (show 4 ≤ 10 by norm_num)
  obtain ⟨hmonthField, hmonth⟩ := isField_pad (Date.getMonth t + 1) (by omega) (by omega)
    (show 2 ≤ 10 by norm_num)
  obtain ⟨hdateField, hdate⟩ := isField_pad (Date.getDate t) (by omega) (by omega)
    (show 2 ≤ 10 by norm_num)
  have hday : IsDay (dayText t) (pad (Date.getFullYear t) 4) (pad (Date.getMonth t + 1) 2)
      (pad (Date.getDate t) 2) :=
    ⟨hyearField, hmonthField, hdateField, by rw [dayText, List.append_nil]⟩
  rw [parsePattern_of_isDay hday, dayFields, hyear, hmonth, hdate, add_sub_cancel_right]
  rfl

theorem parse_dayText (ht : IsTime t) (h0 : 0 ≤ Date.getFullYear t) :
    ∃ date, parseByDayPattern (dayText t) = .ok date ∧ date.time = some (midnight (readDay t)) := by
  have hwithin : 0 ≤ Date.timeWithinDay t := Int.emod_nonneg _ (by decide)
  have hdate : (dateFields t).toDate.time = some (readDay t * MS_PER_DAY + 0) :=
    toDate_of_components ht rfl rfl rfl makeTime_zero h0 le_rfl hwithin
  rw [add_zero] at hdate
  refine ⟨_, ?_, hdate⟩
  rw [parseByDayPattern, parseDate, commonsParseDate, parsePattern_dayText ht h0]
  rfl

/-- The time of the day without its milliseconds. -/
def wholeSecond (t : ℤ) : ℤ := Date.timeWithinDay t - Date.getMilliseconds t

theorem parse_dateTimeText (ht : IsTime t) (h0 : 0 ≤ Date.getFullYear t) :
    ∃ date, parseByDateTimePattern (dateTimeText t) = .ok date ∧
      date.time = some (readDay t * MS_PER_DAY + wholeSecond t) := by
  have hwithin : 0 ≤ Date.timeWithinDay t := Int.emod_nonneg _ (by decide)
  have hmilli : 0 ≤ Date.getMilliseconds t ∧ Date.getMilliseconds t ≤ Date.timeWithinDay t := by
    unfold Date.getMilliseconds
    omega
  have htime := Date.makeTime_components t
  have hseconds : Date.makeTime (Date.getHours t) (Date.getMinutes t) (Date.getSeconds t) 0 =
      wholeSecond t := by
    rw [wholeSecond, ← htime, Date.makeTime, Date.makeTime]
    ring
  have hsecond0 : 0 ≤ wholeSecond t := Int.sub_nonneg_of_le hmilli.2
  have hsecond : wholeSecond t ≤ Date.timeWithinDay t := Int.sub_le_self _ hmilli.1
  have hdate : (dateTimeFields t).toDate.time = some (readDay t * MS_PER_DAY + wholeSecond t) :=
    toDate_of_components ht rfl rfl rfl hseconds h0 hsecond0 hsecond
  refine ⟨_, ?_, hdate⟩
  rw [parseByDateTimePattern, parseDate, commonsParseDate,
    parsePattern_dateTimeText h0 (getFullYear_lt_of_isTime ht)]
  rfl

/-- A character that is no digit is read where the pattern has it, and nowhere else. -/
theorem count_of_parseItems {pattern text rest : JsString} {items : List PatternItem}
    {fields result : DateFields} {c : CodeUnit} (hc : isDigit c = false)
    (hparse : parseItems pattern items fields text = .ok (some (result, rest))) :
    text.count c = items.count (.literal c) + rest.count c := by
  induction items generalizing fields text with
  | nil =>
    simp only [parseItems, Except.ok.injEq, Option.some.injEq, Prod.mk.injEq] at hparse
    rw [hparse.2, List.count_nil, zero_add]
  | cons item items ih =>
    cases item with
    | literal d =>
      obtain ⟨after, rfl, hrest⟩ := parseItems_literal_some hparse
      rw [List.count_cons, List.count_cons, ih hrest]
      simp only [beq_iff_eq, PatternItem.literal.injEq]
      omega
    | field letter run =>
      rw [parseItems] at hparse
      split at hparse
      · cases hparse
      · next digits after _ hread =>
        obtain ⟨happend, -, hdigits⟩ := readDigits_spec (fieldWidth run items) text
        rw [hread] at happend hdigits
        have hnone : digits.count c = 0 :=
          List.count_eq_zero.2 fun hmem => by rw [hdigits c hmem] at hc; cases hc
        split at hparse
        · cases hparse
        · rw [← happend, List.count_append, hnone, ih hparse, List.count_cons]
          simp

theorem parsePattern_of_count {pattern text : JsString} {c : CodeUnit} (hc : isDigit c = false)
    (hletters : ∀ letter run, .field letter run ∈ patternItems pattern →
      ∀ (fields : DateFields) value, ∃ fields', fields.set letter value = some fields')
    (hcount : text.count c ≠ (patternItems pattern).count (.literal c)) :
    parsePattern text pattern = .ok none := by
  obtain ⟨result, hitems⟩ := parseItems_ok pattern (patternItems pattern) hletters {} text
  rw [parsePattern, hitems]
  cases result with
  | none => rfl
  | some result =>
    obtain ⟨fields, rest⟩ := result
    cases rest with
    | nil => exact absurd (by simpa using count_of_parseItems hc hitems) hcount
    | cons _ _ => rfl

theorem count_decimal (n : ℕ) : (decimal n).count (unit '-') = 0 :=
  List.count_eq_zero.2 fun hmem => absurd (isDigit_decimal n _ hmem) (by decide)

theorem count_pad (value : ℤ) (width : ℕ) :
    (pad value width).count (unit '-') = if value < 0 then 1 else 0 := by
  have hzeros (k : ℕ) : (List.replicate k (unit '0')).count (unit '-') = 0 :=
    List.count_eq_zero.2 fun hmem => absurd (List.eq_of_mem_replicate hmem) (by decide)
  rw [pad, List.leftpad, List.count_append, hzeros, zero_add]
  cases value with
  | ofNat n =>
    rw [if_neg (by simp)]
    exact count_decimal n
  | negSucc n =>
    rw [if_pos (Int.negSucc_lt_zero n)]
    rcases decimal_cases (Int.negSucc n) with ⟨i, hi, -⟩ | ⟨i, -, hi⟩
    · omega
    · rw [hi, List.count_cons_self, count_decimal]

/-- The two patterns of the dates that are read back. -/
theorem supported_letters {pattern : JsString} (h : pattern = DAY_PATTERN ∨ pattern = DATETIME_PATTERN) :
    ∀ letter run, .field letter run ∈ patternItems pattern →
      ∀ (fields : DateFields) value, ∃ fields', fields.set letter value = some fields' := by
  intro letter run hmem fields value
  have hletter : letter ∈ [unit 'y', unit 'M', unit 'd', unit 'H', unit 'm', unit 's'] := by
    rcases h with rfl | rfl
    · rw [patternItems_day] at hmem
      simp only [List.mem_cons, PatternItem.field.injEq, reduceCtorEq, List.not_mem_nil, or_false,
        false_or] at hmem
      rcases hmem with ⟨rfl, -⟩ | ⟨rfl, -⟩ | ⟨rfl, -⟩ <;> simp
    · rw [patternItems_dateTime] at hmem
      simp only [List.mem_cons, PatternItem.field.injEq, reduceCtorEq, List.not_mem_nil, or_false,
        false_or] at hmem
      rcases hmem with ⟨rfl, -⟩ | ⟨rfl, -⟩ | ⟨rfl, -⟩ | ⟨rfl, -⟩ | ⟨rfl, -⟩ | ⟨rfl, -⟩ <;> simp
  simp only [List.mem_cons, List.not_mem_nil, or_false] at hletter
  rcases hletter with rfl | rfl | rfl | rfl | rfl | rfl <;> exact ⟨_, rfl⟩

theorem parse_dayText_of_neg (h : Date.getFullYear t < 0) :
    parseByDayPattern (dayText t) = .error (.error (unableToParse (dayText t)).toJavaString) := by
  obtain ⟨⟨hmonth, -⟩, ⟨hdate, -⟩, -, -, -⟩ := Date.components t
  have hcount : (dayText t).count (unit '-') = 3 := by
    simp only [dayText, List.count_append, List.count_cons_self, count_pad, if_pos h,
      if_neg (show ¬Date.getMonth t + 1 < 0 by omega), if_neg (show ¬Date.getDate t < 0 by omega),
      List.count_nil]
  have hnone : parsePattern (dayText t) DAY_PATTERN = .ok none := by
    refine parsePattern_of_count (c := unit '-') (by decide) (supported_letters (Or.inl rfl)) ?_
    rw [hcount, patternItems_day]
    decide
  rw [parseByDayPattern, parseDate, commonsParseDate, hnone]
  rfl

theorem parse_dateTimeText_of_neg (h : Date.getFullYear t < 0) :
    parseByDateTimePattern (dateTimeText t) =
      .error (.error (unableToParse (dateTimeText t)).toJavaString) := by
  obtain ⟨⟨hmonth, -⟩, ⟨hdate, -⟩, ⟨hhours, -⟩, ⟨hminutes, -⟩, ⟨hseconds, -⟩⟩ := Date.components t
  have hspace : (unit ' ' == unit '-') = false := by decide
  have hcolon : (unit ':' == unit '-') = false := by decide
  have hcount : (dateTimeText t).count (unit '-') = 3 := by
    simp only [dateTimeText, List.count_append, List.count_cons_self, List.count_cons, hspace, hcolon,
      count_pad, if_pos h, if_neg (show ¬Date.getMonth t + 1 < 0 by omega),
      if_neg (show ¬Date.getDate t < 0 by omega), if_neg (show ¬Date.getHours t < 0 by omega),
      if_neg (show ¬Date.getMinutes t < 0 by omega), if_neg (show ¬Date.getSeconds t < 0 by omega),
      List.count_nil]
    rfl
  have hnone : parsePattern (dateTimeText t) DATETIME_PATTERN = .ok none := by
    refine parsePattern_of_count (c := unit '-') (by decide) (supported_letters (Or.inr rfl)) ?_
    rw [hcount, patternItems_dateTime]
    decide
  rw [parseByDateTimePattern, parseDate, commonsParseDate, hnone]
  rfl

/-- Every date is written by both patterns. From the year 0 on it is read back to its second
and to its day, but for 29 February of the year 0, which is read as the day after; the text
of an earlier date is refused. -/
theorem dates_read_back {date : Date} (h : date.time = some t) :
    ∃ dateTime day, formatByDateTimePattern date = .ok dateTime ∧
      formatByDayPattern (some date) = .ok (some day) ∧
      (0 ≤ Date.getFullYear t →
        (∃ read, parseByDateTimePattern dateTime = .ok read ∧
          read.time = some (readDay t * MS_PER_DAY + wholeSecond t)) ∧
        ∃ read, parseByDayPattern day = .ok read ∧ read.time = some (readDay t * MS_PER_DAY)) ∧
      (Date.getFullYear t < 0 →
        parseByDateTimePattern dateTime = .error (.error (unableToParse dateTime).toJavaString) ∧
        parseByDayPattern day = .error (.error (unableToParse day).toJavaString)) := by
  have ht := date.isTime t h
  refine ⟨_, _, formatByDateTimePattern_of_time h, formatByDayPattern_of_time h, ?_, ?_⟩
  · exact fun h0 => ⟨parse_dateTimeText ht h0, parse_dayText ht h0⟩
  · exact fun hneg => ⟨parse_dateTimeText_of_neg hneg, parse_dayText_of_neg hneg⟩

/-- The lost day, a second and a millisecond after one o'clock. -/
theorem dates_read_back_lost_day :
    ∃ (date : Date) (dateTime : JsString) (read : Date),
      date.time = some (-719469 * MS_PER_DAY + 3601001) ∧
      formatByDateTimePattern date = .ok dateTime ∧ parseByDateTimePattern dateTime = .ok read ∧
      read.time = some (-719468 * MS_PER_DAY + 3601000) := by
  obtain ⟨date, hdate⟩ : ∃ date : Date, date.time = some (-719469 * MS_PER_DAY + 3601001) :=
    ⟨_, Date.timeClip_of_isTime (by decide)⟩
  obtain ⟨dateTime, day, hformat, -, hread, -⟩ := dates_read_back hdate
  obtain ⟨⟨read, hparse, htime⟩, -⟩ := hread (by decide)
  exact ⟨date, dateTime, read, hdate, hformat, hparse, htime⟩

theorem head_pad (value : ℤ) (width : ℕ) :
    ∃ c rest, pad value width = c :: rest ∧ (c = unit '-' ∨ isDigit c = true) := by
  have hdecimal : ∃ c rest, decimal value = c :: rest ∧ (c = unit '-' ∨ isDigit c = true) := by
    rcases decimal_cases value with ⟨n, -, hn⟩ | ⟨n, -, hn⟩
    · obtain ⟨c, rest, hcons⟩ := List.exists_cons_of_ne_nil (decimal_ne_nil n)
      exact ⟨c, rest, hn.trans hcons, Or.inr (isDigit_decimal n c (by rw [hcons]; simp))⟩
    · exact ⟨_, _, hn, Or.inl rfl⟩
  obtain ⟨c, rest, hcons, hc⟩ := hdecimal
  rw [pad, List.leftpad, hcons]
  cases width - (c :: rest).length with
  | zero => exact ⟨c, rest, rfl, hc⟩
  | succ k => exact ⟨unit '0', _, rfl, Or.inr (by decide)⟩

theorem isNotBlank_dayText (t : ℤ) : isNotBlank (some (text (dayText t))) = true := by
  obtain ⟨c, rest, hcons, hc⟩ := head_pad (Date.getFullYear t) 4
  have hchar : c < 0xd800 ∧ isWhitespace (Char.ofNat c.toNat) = false := by
    rcases hc with rfl | hdigit
    · decide
    · simp only [isDigit, decide_eq_true_eq, UInt16.le_iff_toNat_le] at hdigit
      obtain ⟨n, hn, rfl⟩ : ∃ n, (48 ≤ n ∧ n ≤ 57) ∧ c = UInt16.ofNat n :=
        ⟨c.toNat, hdigit, UInt16.ofNat_toNat.symm⟩
      obtain ⟨hlo, hhi⟩ := hn
      interval_cases n <;> decide
  rw [isNotBlank, isBlank, text, String.toList_ofList, dayText, hcons, List.cons_append,
    codePoints_cons hchar.1, List.all_cons, hchar.2]
  rfl

variable {g : DefaultUidGenerator}

theorem setEpochStr_dayText (ht : IsTime t) (h0 : 0 ≤ Date.getFullYear t) :
    g.setEpochStr (some (dayText t)) = (.ok (), { g with epochSeconds := readDay t * 86400 }) := by
  obtain ⟨date, hdate, htime⟩ := parse_dayText ht h0
  have hrange := date.isTime _ htime
  have hseconds : toSeconds (midnight (readDay t)) = readDay t * 86400 := by
    unfold IsTime at hrange
    unfold midnight MS_PER_DAY at *
    rw [toSeconds, show readDay t * 86400000 = readDay t * 86400 * 1000 by ring,
      Int.mul_tdiv_cancel _ (by norm_num), toLong_eq_self ⟨by omega, by omega⟩]
  simp only [DefaultUidGenerator.setEpochStr, isNotBlank_dayText, if_true, hdate, htime, hseconds,
    DefaultUidGenerator.storeEpoch]

theorem setEpochStr_dayText_of_neg (h : Date.getFullYear t < 0) :
    g.setEpochStr (some (dayText t)) =
      (.error (.error (unableToParse (dayText t)).toJavaString), g) := by
  simp only [DefaultUidGenerator.setEpochStr, isNotBlank_dayText, if_true, parse_dayText_of_neg h]

/-- The day that a date is written as sets the epoch to its midnight, and the timestamps of
UIDs are counted from there. The text of a date before the year 0 is refused and changes
nothing. -/
theorem epoch_of_day_text {A : BitsAllocator} {date : Date} (h : date.time = some t)
    (hnew : BitsAllocator.new g.timeBits g.workerBits g.seqBits = .ok A)
    (hA : g.bitsAllocator = some A) :
    ∃ day, formatByDayPattern (some date) = .ok (some day) ∧
      (Date.getFullYear t < 0 → ∃ e, g.setEpochStr (some day) = (.error e, g)) ∧
      (0 ≤ Date.getFullYear t →
        g.setEpochStr (some day) = (.ok (), { g with epochSeconds := readDay t * 86400 })) ∧
      (0 ≤ t → ∀ uid,
        (Date.day t * 86400 + (A.parse uid).deltaSeconds) * 1000 ≤ 8640000000000000 →
        ∃ text timestamp workerId sequence read,
          (g.setEpochStr (some day)).2.parseUID uid = .ok text ∧
          Json.readObject text = some [(js "UID", decimal uid), (js "timestamp", timestamp),
            (js "workerId", workerId), (js "sequence", sequence)] ∧
          parseByDateTimePattern timestamp = .ok read ∧
          read.time = some ((Date.day t * 86400 + (A.parse uid).deltaSeconds) * 1000)) := by
  have ht := date.isTime t h
  refine ⟨_, formatByDayPattern_of_time h, ?_, ?_, ?_⟩
  · exact fun hneg => ⟨_, setEpochStr_dayText_of_neg hneg⟩
  · exact fun h0 => setEpochStr_dayText ht h0
  · intro hsince uid hrange
    have hday : 0 ≤ Date.day t := Int.ediv_nonneg hsince (by decide)
    have hfirst : dayFromMonth (12 * 1970) = 0 := by decide
    have hyear : 1970 ≤ Date.getFullYear t := Date.le_getFullYear (by omega)
    have hread : readDay t = Date.day t := if_neg fun hlost => by have := hlost.1; omega
    obtain ⟨L, rfl, -, -, -⟩ := layout_of_new g.timeBits_pos g.workerBits_pos g.seqBits_pos hnew
    have hdelta : 0 ≤ (L.allocator.parse uid).deltaSeconds := by
      rw [L.parse_eq]
      exact BitField.field_nonneg _ _ _
    rw [setEpochStr_dayText ht (by omega), hread]
    have hsecond : IsSecond ((Date.day t * 86400 + (L.allocator.parse uid).deltaSeconds) * 1000) :=
      ⟨by omega, hrange, by omega⟩
    obtain ⟨read, hparse, htime⟩ := hsecond.parse
    exact ⟨_, _, _, _, read,
      parseUID_eq (g := { g with epochSeconds := Date.day t * 86400 }) hA hsecond,
      readObject_uidMembers uid hsecond _, hparse, htime⟩

/-- The day of the epoch of the source, and the uid of the first second after it. -/
theorem epoch_of_day_text_default :
    ∃ (g : DefaultUidGenerator) (date read : Date)
      (day text timestamp workerId sequence : JsString), date.time = some 1463673600000 ∧
      formatByDayPattern (some date) = .ok (some day) ∧
      g.setEpochStr (some day) = (.ok (), { g with epochSeconds := 1463616000 }) ∧
      (g.setEpochStr (some day)).2.parseUID 34359738368 = .ok text ∧
      Json.readObject text = some [(js "UID", decimal 34359738368), (js "timestamp", timestamp),
        (js "workerId", workerId), (js "sequence", sequence)] ∧
      parseByDateTimePattern timestamp = .ok read ∧ read.time = some 1463616001000 := by
  obtain ⟨date, hdate⟩ : ∃ date : Date, date.time = some 1463673600000 :=
    ⟨_, Date.timeClip_of_isTime (by decide)⟩
  obtain ⟨A, hA⟩ : ∃ A, BitsAllocator.new 28 22 13 = .ok A := ⟨_, rfl⟩
  obtain ⟨day, hday, -, hset, hparse⟩ :=
    epoch_of_day_text (g := { DefaultUidGenerator.configured {} with bitsAllocator := some A })
      hdate hA rfl
  have hdelta : (A.parse 34359738368).deltaSeconds = 1 := by
    cases hA
    decide
  obtain ⟨text, timestamp, workerId, sequence, read, hok, hmembers, hread, htime⟩ :=
    hparse (by decide) 34359738368 (by rw [hdelta]; decide)
  rw [hdelta] at htime
  exact ⟨_, date, read, day, text, timestamp, workerId, sequence, hdate, hday, hset (by decide),
    hok, hmembers, hread, htime⟩

end UID
