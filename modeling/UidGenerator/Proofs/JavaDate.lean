import UidGenerator.Spec.JavaDate

/-! What the loop of `parsePattern` reads from a text, and the dates that components
make. -/

namespace UID

open Calendar

/-- A numeric field: one to ten digits. -/
structure IsField (digits : JsString) : Prop where
  nonempty : digits ≠ []
  length_le : digits.length ≤ 10
  isDigit : ∀ c ∈ digits, isDigit c = true

def NoDigitNext (rest : JsString) : Prop := ∀ c ∈ rest.head?, isDigit c = false

theorem noDigitNext_nil : NoDigitNext [] := nofun

theorem noDigitNext_cons {c : CodeUnit} (h : isDigit c = false) (rest : JsString) :
    NoDigitNext (c :: rest) := by
  rintro d hd
  obtain rfl := Option.some.inj hd
  exact h

theorem readDigits_append {digits rest : JsString} {max : ℕ} (hlen : digits.length ≤ max)
    (hdigits : ∀ c ∈ digits, isDigit c = true) (hrest : NoDigitNext rest) :
    readDigits max (digits ++ rest) = (digits, rest) := by
  induction digits generalizing max with
  | nil =>
    cases max with
    | zero => cases rest <;> rfl
    | succ max =>
      cases rest with
      | nil => rfl
      | cons c rest => simp [readDigits, hrest c rfl]
  | cons c digits ih =>
    obtain ⟨max, rfl⟩ : ∃ n, max = n + 1 := ⟨max - 1, by simp at hlen; omega⟩
    have hlen' : digits.length ≤ max := by simpa using hlen
    simp [readDigits, hdigits c (by simp), ih hlen' fun d hd => hdigits d (by simp [hd])]

theorem readDigits_spec (max : ℕ) (text : JsString) :
    (readDigits max text).1 ++ (readDigits max text).2 = text ∧
      (readDigits max text).1.length ≤ max ∧ ∀ c ∈ (readDigits max text).1, isDigit c = true := by
  induction max generalizing text with
  | zero => cases text <;> simp [readDigits]
  | succ max ih =>
    cases text with
    | nil => simp [readDigits]
    | cons c rest =>
      obtain ⟨happend, hlen, hall⟩ := ih rest
      unfold readDigits
      split_ifs with hdigit
      · refine ⟨by simpa using happend, by simpa using hlen, ?_⟩
        intro d hd
        rcases List.mem_cons.1 hd with rfl | hd
        · exact hdigit
        · exact hall d hd
      · exact ⟨rfl, Nat.zero_le _, fun d hd => absurd hd (List.not_mem_nil)⟩

theorem isField_of_readDigits {text digits rest : JsString} (hread : readDigits 10 text = (digits, rest))
    (hne : digits ≠ []) : IsField digits ∧ text = digits ++ rest := by
  obtain ⟨happend, hlen, hall⟩ := readDigits_spec 10 text
  rw [hread] at happend hlen hall
  exact ⟨⟨hne, hlen, hall⟩, happend.symm⟩

theorem IsField.readDigits {digits rest : JsString} (h : IsField digits) (hrest : NoDigitNext rest) :
    readDigits 10 (digits ++ rest) = (digits, rest) :=
  readDigits_append h.length_le h.isDigit hrest

theorem parseItems_field {pattern digits rest : JsString} {letter : CodeUnit} {run : ℕ}
    {items : List PatternItem} {fields fields' : DateFields} (hwidth : fieldWidth run items = 10)
    (hdigits : IsField digits) (hrest : NoDigitNext rest)
    (hset : fields.set letter (number digits) = some fields') :
    parseItems pattern (.field letter run :: items) fields (digits ++ rest) =
      parseItems pattern items fields' rest := by
  obtain ⟨c, tail, rfl⟩ := List.exists_cons_of_ne_nil hdigits.nonempty
  rw [parseItems, hwidth, hdigits.readDigits hrest]
  simp only [hset]

/-- A field that the loop reads up to its end is a run of digits. -/
theorem parseItems_field_some {pattern text : JsString} {letter : CodeUnit} {run : ℕ}
    {items : List PatternItem} {fields : DateFields} {result : DateFields × JsString}
    (hwidth : fieldWidth run items = 10)
    (hparse : parseItems pattern (.field letter run :: items) fields text = .ok (some result)) :
    ∃ digits rest fields', text = digits ++ rest ∧ IsField digits ∧
      fields.set letter (number digits) = some fields' ∧
        parseItems pattern items fields' rest = .ok (some result) := by
  obtain ⟨digits, rest, hread⟩ : ∃ digits rest, readDigits 10 text = (digits, rest) := ⟨_, _, rfl⟩
  rw [parseItems, hwidth, hread] at hparse
  cases digits with
  | nil => cases hparse
  | cons c digits =>
    obtain ⟨hfield, happend⟩ := isField_of_readDigits hread (List.cons_ne_nil c digits)
    simp only at hparse
    cases hset : fields.set letter (number (c :: digits)) with
    | none => rw [hset] at hparse; cases hparse
    | some fields' =>
      rw [hset] at hparse
      exact ⟨_, rest, fields', happend, hfield, hset, hparse⟩

theorem parseItems_literal {pattern rest : JsString} {c : CodeUnit} {items : List PatternItem}
    {fields : DateFields} :
    parseItems pattern (.literal c :: items) fields (c :: rest) =
      parseItems pattern items fields rest := by
  rw [parseItems, if_pos rfl]

theorem parseItems_literal_some {pattern text : JsString} {c : CodeUnit} {items : List PatternItem}
    {fields : DateFields} {result : DateFields × JsString}
    (hparse : parseItems pattern (.literal c :: items) fields text = .ok (some result)) :
    ∃ rest, text = c :: rest ∧ parseItems pattern items fields rest = .ok (some result) := by
  cases text with
  | nil => cases hparse
  | cons d rest =>
    rw [parseItems] at hparse
    split_ifs at hparse with heq
    · exact ⟨rest, by rw [heq], hparse⟩
    · cases hparse

/-- Where the letters of a pattern are supported nothing is thrown. -/
theorem parseItems_ok (pattern : JsString) (items : List PatternItem)
    (hletters : ∀ letter run, .field letter run ∈ items → ∀ (fields : DateFields) value,
      ∃ fields', fields.set letter value = some fields') (fields : DateFields) (text : JsString) :
    ∃ result, parseItems pattern items fields text = .ok result := by
  induction items generalizing fields text with
  | nil => exact ⟨_, rfl⟩
  | cons item items ih =>
    have hrest := ih fun letter run hmem => hletters letter run (List.mem_cons_of_mem _ hmem)
    cases item with
    | literal c =>
      cases text with
      | nil => exact ⟨_, rfl⟩
      | cons d text =>
        rw [parseItems]
        split_ifs
        · exact hrest fields text
        · exact ⟨_, rfl⟩
    | field letter run =>
      rw [parseItems]
      split
      · exact ⟨_, rfl⟩
      · next digits rest _ _ =>
        obtain ⟨fields', hset⟩ := hletters letter run List.mem_cons_self fields (number digits)
        rw [hset]
        exact hrest fields' rest

theorem Date.timeClip_of_isTime {t : ℤ} (h : IsTime t) : (Date.timeClip t).time = some t := by
  rw [Date.timeClip, dif_pos h]

theorem Date.timeClip_of_not {t : ℤ} (h : ¬IsTime t) : (Date.timeClip t).time = none := by
  rw [Date.timeClip, dif_neg h]

theorem Date.time_timeClip_eq_some {t t' : ℤ} :
    (Date.timeClip t).time = some t' ↔ IsTime t ∧ t = t' := by
  unfold Date.timeClip
  split_ifs with h <;> simp [h]

theorem Date.day_add (n : ℤ) {r : ℤ} (h0 : 0 ≤ r) (h : r < MS_PER_DAY) :
    Date.day (n * MS_PER_DAY + r) = n := by
  unfold Date.day MS_PER_DAY at *
  omega

theorem Date.timeWithinDay_add (n : ℤ) {r : ℤ} (h0 : 0 ≤ r) (h : r < MS_PER_DAY) :
    Date.timeWithinDay (n * MS_PER_DAY + r) = r := by
  unfold Date.timeWithinDay MS_PER_DAY at *
  omega

/-- From the year 100 on the fields are taken as they are. -/
theorem toDate_of_year_ge {fields : DateFields} (h : 100 ≤ fields.year) :
    fields.toDate = Date.timeClip (Date.makeDay fields.year fields.month fields.day * MS_PER_DAY +
      Date.makeTime fields.hour fields.minute fields.second fields.milli) := by
  rw [DateFields.toDate, if_neg (by omega), Date.new, if_neg (by omega)]

namespace Date

theorem makeDay_components (t : ℤ) : makeDay (getFullYear t) (getMonth t) (getDate t) = day t := by
  rw [makeDay, getFullYear, getMonth, getDate, Int.mul_ediv_add_emod]
  ring

theorem makeTime_components (t : ℤ) :
    makeTime (getHours t) (getMinutes t) (getSeconds t) (getMilliseconds t) = timeWithinDay t := by
  unfold makeTime getHours getMinutes getSeconds getMilliseconds
  omega

theorem day_timeWithinDay (t : ℤ) : day t * MS_PER_DAY + timeWithinDay t = t := by
  rw [mul_comm]
  exact Int.mul_ediv_add_emod t MS_PER_DAY

structure Components (t : ℤ) : Prop where
  month : 0 ≤ getMonth t ∧ getMonth t < 12
  date : 1 ≤ getDate t ∧ getDate t ≤ 31
  hours : 0 ≤ getHours t ∧ getHours t < 24
  minutes : 0 ≤ getMinutes t ∧ getMinutes t < 60
  seconds : 0 ≤ getSeconds t ∧ getSeconds t < 60

theorem components (t : ℤ) : Components t where
  month := ⟨Int.emod_nonneg _ (by norm_num), Int.emod_lt_of_pos _ (by norm_num)⟩
  date := by
    obtain ⟨hle, hlt⟩ := monthFromDay_spec (day t)
    rw [dayFromMonth_succ] at hlt
    have hlen := monthLength_le (monthFromDay (day t))
    unfold getDate
    omega
  hours := by
    unfold getHours timeWithinDay MS_PER_DAY
    omega
  minutes := ⟨Int.emod_nonneg _ (by norm_num), Int.emod_lt_of_pos _ (by norm_num)⟩
  seconds := ⟨Int.emod_nonneg _ (by norm_num), Int.emod_lt_of_pos _ (by norm_num)⟩

theorem le_getFullYear {t year : ℤ} (h : dayFromMonth (12 * year) ≤ day t) : year ≤ getFullYear t := by
  have hlt := h.trans_lt (monthFromDay_spec (day t)).2
  have hmonth := dayFromMonth_strictMono.lt_iff_lt.1 hlt
  unfold getFullYear
  omega

theorem getFullYear_lt {t year : ℤ} (h : day t < dayFromMonth (12 * year)) : getFullYear t < year := by
  have hlt := (monthFromDay_spec (day t)).1.trans_lt h
  have hmonth := dayFromMonth_strictMono.lt_iff_lt.1 hlt
  unfold getFullYear
  omega

end Date

end UID
