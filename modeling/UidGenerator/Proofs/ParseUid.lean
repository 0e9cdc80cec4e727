import UidGenerator.Lib.Json
import UidGenerator.Spec.ParseUid
import UidGenerator.Proofs.Strings
import UidGenerator.Proofs.JavaDate
import UidGenerator.Proofs.Layout
import UidGenerator.Proofs.Batch

/-! What `parseUID` writes can be read back: the text is a JSON object, its timestamp
is the second of the UID, and its fields make the UID again. -/

namespace UID

open Calendar BitField

def dateTimeText (t : ℤ) : JsString :=
  pad (Date.getFullYear t) 4 ++ unit '-' :: (pad (Date.getMonth t + 1) 2 ++ unit '-' ::
    (pad (Date.getDate t) 2 ++ unit ' ' :: (pad (Date.getHours t) 2 ++ unit ':' ::
      (pad (Date.getMinutes t) 2 ++ unit ':' :: (pad (Date.getSeconds t) 2 ++ [])))))

theorem patternItems_dateTime : patternItems DATETIME_PATTERN =
    [.field (unit 'y') 4, .literal (unit '-'), .field (unit 'M') 2, .literal (unit '-'),
      .field (unit 'd') 2, .literal (unit ' '), .field (unit 'H') 2, .literal (unit ':'),
      .field (unit 'm') 2, .literal (unit ':'), .field (unit 's') 2] := by
  decide

theorem formatByDateTimePattern_of_time {date : Date} {t : ℤ} (h : date.time = some t) :
    formatByDateTimePattern date = .ok (dateTimeText t) := by
  rw [formatByDateTimePattern, formatPattern, h, patternItems_dateTime]
  rfl

theorem isField_pad (value : ℤ) {width : ℕ} (h0 : 0 ≤ value) (h : value < 10 ^ 10) (hwidth : width ≤ 10) :
    IsField (pad value width) ∧ (number (pad value width) : ℤ) = value := by
  lift value to ℕ using h0
  refine ⟨⟨pad_ne_nil _ _, length_pad_le hwidth (by norm_num) (by exact_mod_cast h), isDigit_pad _ _⟩, ?_⟩
  rw [number_pad]

def dateTimeFields (t : ℤ) : DateFields where
  year := Date.getFullYear t
  month := Date.getMonth t
  day := Date.getDate t
  hour := Date.getHours t
  minute := Date.getMinutes t
  second := Date.getSeconds t

theorem parsePattern_dateTimeText {t : ℤ} (h0 : 0 ≤ Date.getFullYear t)
    (h : Date.getFullYear t < 10 ^ 10) :
    parsePattern (dateTimeText t) DATETIME_PATTERN = .ok (some (dateTimeFields t).toDate) := by
  obtain ⟨⟨hmonth, hmonth'⟩, ⟨hdate, hdate'⟩, ⟨hhours, hhours'⟩, ⟨hminutes, hminutes'⟩,
    ⟨hseconds, hseconds'⟩⟩ := Date.components t
  obtain ⟨hyearField, hyear⟩ := isField_pad _ h0 h (show 4 ≤ 10 by norm_num)
  obtain ⟨hmonthField, hmonth⟩ := isField_pad (Date.getMonth t + 1) (by omega) (by omega)
    (show 2 ≤ 10 by norm_num)
  obtain ⟨hdateField, hdate⟩ := isField_pad (Date.getDate t) (by omega) (by omega)
    (show 2 ≤ 10 by norm_num)
  obtain ⟨hhoursField, hhours⟩ := isField_pad (Date.getHours t) (by omega) (by omega)
    (show 2 ≤ 10 by norm_num)
  obtain ⟨hminutesField, hminutes⟩ := isField_pad (Date.getMinutes t) (by omega) (by omega)
    (show 2 ≤ 10 by norm_num)
  obtain ⟨hsecondsField, hseconds⟩ := isField_pad (Date.getSeconds t) (by omega) (by omega)
    (show 2 ≤ 10 by norm_num)
  have hitems : parseItems DATETIME_PATTERN (patternItems DATETIME_PATTERN) {} (dateTimeText t) =
      .ok (some (dateTimeFields t, [])) := by
    rw [patternItems_dateTime, dateTimeText,
      parseItems_field rfl hyearField (noDigitNext_cons (by decide) _) rfl, parseItems_literal,
      parseItems_field rfl hmonthField (noDigitNext_cons (by decide) _) rfl, parseItems_literal,
      parseItems_field rfl hdateField (noDigitNext_cons (by decide) _) rfl, parseItems_literal,
      parseItems_field rfl hhoursField (noDigitNext_cons (by decide) _) rfl, parseItems_literal,
      parseItems_field rfl hminutesField (noDigitNext_cons (by decide) _) rfl, parseItems_literal,
      parseItems_field rfl hsecondsField noDigitNext_nil rfl, parseItems]
    simp only [hyear, hmonth, hdate, hhours, hminutes, hseconds, add_sub_cancel_right]
    rfl
  rw [parsePattern, hitems]
  rfl

/-- The seconds from 1970 on, up to the last one of a `Date`. -/
structure IsSecond (t : ℤ) : Prop where
  nonneg : 0 ≤ t
  le : t ≤ 8640000000000000
  whole : t % 1000 = 0

variable {t : ℤ}

theorem IsSecond.isTime (h : IsSecond t) : IsTime t := by
  obtain ⟨h0, hle, -⟩ := h
  unfold IsTime
  omega

theorem IsSecond.year (h : IsSecond t) : 1970 ≤ Date.getFullYear t ∧ Date.getFullYear t < 10 ^ 6 := by
  obtain ⟨h0, hle, -⟩ := h
  have hday : 0 ≤ Date.day t ∧ Date.day t ≤ 100000000 := by
    unfold Date.day MS_PER_DAY
    omega
  have hfirst : dayFromMonth (12 * 1970) = 0 := by decide
  have hlast : 100000000 < dayFromMonth (12 * 10 ^ 6) := by decide
  exact ⟨Date.le_getFullYear (by omega), Date.getFullYear_lt (by omega)⟩

theorem IsSecond.toDate (h : IsSecond t) : (dateTimeFields t).toDate.time = some t := by
  have hmilli : Date.getMilliseconds t = 0 := by
    have := h.whole
    unfold Date.getMilliseconds Date.timeWithinDay MS_PER_DAY
    omega
  have hyear : 100 ≤ (dateTimeFields t).year := (by norm_num : (100 : ℤ) ≤ 1970).trans h.year.1
  have hday := Date.makeDay_components t
  have htime := Date.makeTime_components t
  rw [hmilli] at htime
  rw [toDate_of_year_ge hyear]
  simp only [dateTimeFields]
  rw [hday, htime, Date.day_timeWithinDay, Date.timeClip_of_isTime h.isTime]

/-- A second is read back from its text. -/
theorem IsSecond.parse (h : IsSecond t) :
    ∃ date, parseByDateTimePattern (dateTimeText t) = .ok date ∧ date.time = some t := by
  obtain ⟨hyear, hyear'⟩ := h.year
  refine ⟨_, ?_, h.toDate⟩
  rw [parseByDateTimePattern, parseDate, commonsParseDate,
    parsePattern_dateTimeText (by omega) (by omega)]
  rfl

def uidMembers (uid : ℤ) (thatTime : ℤ) (fields : UidFields) : List (JsString × JsString) :=
  [(js "UID", decimal uid), (js "timestamp", dateTimeText thatTime),
    (js "workerId", decimal fields.workerId), (js "sequence", decimal fields.sequence)]

theorem format_uid (uid thatTime : ℤ) (fields : UidFields) :
    format UID_FORMAT [.bigint uid, .string (dateTimeText thatTime), .bigint fields.workerId,
      .bigint fields.sequence] = .ok (Json.writeObject (uidMembers uid thatTime fields)) := by
  have hformat : format UID_FORMAT [.bigint uid, .string (dateTimeText thatTime),
      .bigint fields.workerId, .bigint fields.sequence] =
      .ok (js "\x7b\"UID\":\"" ++ (decimal uid ++ (js "\",\"timestamp\":\"" ++
        (dateTimeText thatTime ++ (js "\",\"workerId\":\"" ++ (decimal fields.workerId ++
          (js "\",\"sequence\":\"" ++ (decimal fields.sequence ++ js "\"\x7d")))))))) := rfl
  rw [hformat]
  simp only [Json.writeObject, uidMembers, Json.writeMembers, Json.quote, List.append_assoc,
    List.cons_append, List.nil_append]
  rfl

theorem isPlain_of_isDigit {c : CodeUnit} (h : isDigit c = true) : Json.IsPlain c := by
  simp only [isDigit, decide_eq_true_eq] at h
  refine ⟨?_, ?_, ?_⟩
  · rintro rfl
    exact absurd h (by decide)
  · rintro rfl
    exact absurd h (by decide)
  · intro hlt
    have hle := h.1
    rw [UInt16.le_iff_toNat_le] at hle
    rw [UInt16.lt_iff_toNat_lt] at hlt
    exact absurd (hle.trans_lt hlt) (by decide)

theorem isPlain_decimal (value : ℤ) : ∀ c ∈ decimal value, Json.IsPlain c := by
  rcases decimal_cases value with ⟨n, -, hn⟩ | ⟨n, -, hn⟩
  · rw [hn]
    exact fun c hc => isPlain_of_isDigit (isDigit_decimal n c hc)
  · rw [hn]
    intro c hc
    rcases List.mem_cons.1 hc with rfl | hc
    · exact ⟨by decide, by decide, by decide⟩
    · exact isPlain_of_isDigit (isDigit_decimal n c hc)

theorem isPlain_pad {value : ℤ} (h0 : 0 ≤ value) (width : ℕ) :
    ∀ c ∈ pad value width, Json.IsPlain c := by
  lift value to ℕ using h0
  exact fun c hc => isPlain_of_isDigit (isDigit_pad value width c hc)

theorem isPlain_dateTimeText (h : IsSecond t) : ∀ c ∈ dateTimeText t, Json.IsPlain c := by
  obtain ⟨⟨hmonth, -⟩, ⟨hdate, -⟩, ⟨hhours, -⟩, ⟨hminutes, -⟩, ⟨hseconds, -⟩⟩ := Date.components t
  have hyear := h.year.1
  have hseparator : ∀ c ∈ [unit '-', unit ' ', unit ':'], Json.IsPlain c := by
    simp only [List.mem_cons, List.not_mem_nil, or_false, forall_eq_or_imp, forall_eq, Json.IsPlain]
    decide
  intro c hc
  simp only [dateTimeText, List.mem_append, List.mem_cons, List.not_mem_nil, or_false] at hc
  rcases hc with hc | rfl | hc | rfl | hc | rfl | hc | rfl | hc | rfl | hc
  · exact isPlain_pad (by omega) 4 c hc
  · exact hseparator _ (by simp)
  · exact isPlain_pad (by omega) 2 c hc
  · exact hseparator _ (by simp)
  · exact isPlain_pad (by omega) 2 c hc
  · exact hseparator _ (by simp)
  · exact isPlain_pad (by omega) 2 c hc
  · exact hseparator _ (by simp)
  · exact isPlain_pad (by omega) 2 c hc
  · exact hseparator _ (by simp)
  · exact isPlain_pad (by omega) 2 c hc

/-- The text is an object with these members, and no more. -/
theorem readObject_uidMembers (uid : ℤ) (h : IsSecond t) (fields : UidFields) :
    Json.readObject (Json.writeObject (uidMembers uid t fields)) = some (uidMembers uid t fields) := by
  refine Json.readObject_writeObject (by simp [uidMembers]) ?_
  have hname : ∀ name ∈ [js "UID", js "timestamp", js "workerId", js "sequence"],
      ∀ c ∈ name, Json.IsPlain c := by
    unfold Json.IsPlain
    decide
  intro member hmember
  simp only [uidMembers, List.mem_cons, List.not_mem_nil, or_false] at hmember
  rcases hmember with rfl | rfl | rfl | rfl
  · exact ⟨hname _ (by simp), isPlain_decimal uid⟩
  · exact ⟨hname _ (by simp), isPlain_dateTimeText h⟩
  · exact ⟨hname _ (by simp), isPlain_decimal fields.workerId⟩
  · exact ⟨hname _ (by simp), isPlain_decimal fields.sequence⟩

def DefaultUidGenerator.uidOfText (g : DefaultUidGenerator) (A : BitsAllocator)
    (timestamp workerId sequence : JsString) : Option ℤ :=
  match parseByDateTimePattern timestamp with
  | .error _ => none
  | .ok date => date.time.map fun t =>
    A.allocate (toSeconds t - g.epochSeconds) (number workerId) (number sequence)

theorem parseUID_eq {g : DefaultUidGenerator} {A : BitsAllocator} (hg : g.bitsAllocator = some A)
    {uid : ℤ} (h : IsSecond (g.secondOf A uid * 1000)) :
    g.parseUID uid =
      .ok (Json.writeObject (uidMembers uid (g.secondOf A uid * 1000) (A.parse uid))) := by
  have htime := h.isTime
  have hmillis : toMillis (g.epochSeconds + (A.parse uid).deltaSeconds) = g.secondOf A uid * 1000 := by
    obtain ⟨h0, hle, -⟩ := h
    exact toLong_eq_self (x := g.secondOf A uid * 1000) ⟨by omega, by omega⟩
  have hdouble : roundToDouble (g.secondOf A uid * 1000) = g.secondOf A uid * 1000 :=
    roundToDouble_of_lt _ (by unfold IsTime at htime; omega)
  have hformat := formatByDateTimePattern_of_time (Date.timeClip_of_isTime htime)
  rw [DefaultUidGenerator.parseUID, hg]
  simp only [hmillis, hdouble, hformat]
  exact format_uid _ _ _

/-- The text of a UID is a JSON object; its timestamp is read back as the second of the
UID, and the UID is made again of the other three members. -/
theorem parseUID_reads_back {t w s : ℤ} (ht : 0 < t) (hw : 0 < w) (hs : 0 < s) (hsum : t + w + s = 63)
    {A : BitsAllocator} (hnew : BitsAllocator.new t w s = .ok A) {g : DefaultUidGenerator}
    (hg : g.bitsAllocator = some A) (hepoch : 0 ≤ g.epochSeconds) {uid : ℤ} (h0 : -2 ^ 63 ≤ uid)
    (h63 : uid < 2 ^ 63) (hrange : (g.epochSeconds + (A.parse uid).deltaSeconds) * 1000 ≤ 8640000000000000) :
    ∃ text timestamp workerId sequence, g.parseUID uid = .ok text ∧
      Json.readObject text = some [(js "UID", decimal uid), (js "timestamp", timestamp),
        (js "workerId", workerId), (js "sequence", sequence)] ∧
      (∃ date, parseByDateTimePattern timestamp = .ok date ∧
        date.time = some ((g.epochSeconds + (A.parse uid).deltaSeconds) * 1000)) ∧
      g.uidOfText A timestamp workerId sequence = some uid := by
  obtain ⟨L, rfl, rfl, rfl⟩ := Layout.exists_of_widths ht hw hs hsum
  obtain rfl : L.allocator = A := Except.ok.inj (L.new_eq.symm.trans hnew)
  have hinverse := L.allocate_parse ⟨h0, h63⟩
  obtain ⟨hdelta, hworker, hsequence⟩ : 0 ≤ (L.allocator.parse uid).deltaSeconds ∧
      0 ≤ (L.allocator.parse uid).workerId ∧ 0 ≤ (L.allocator.parse uid).sequence := by
    rw [L.parse_eq]
    exact ⟨field_nonneg _ _ _, field_nonneg _ _ _, field_nonneg _ _ _⟩
  have hsecond : IsSecond (g.secondOf L.allocator uid * 1000) := by
    unfold DefaultUidGenerator.secondOf
    exact ⟨by omega, hrange, by omega⟩
  obtain ⟨date, hdate, hvalue⟩ := hsecond.parse
  refine ⟨_, _, _, _, parseUID_eq hg hsecond, readObject_uidMembers uid hsecond _, ⟨date, hdate, hvalue⟩, ?_⟩
  have hseconds : toSeconds (g.secondOf L.allocator uid * 1000) - g.epochSeconds =
      (L.allocator.parse uid).deltaSeconds := by
    have hlong : IsLong (g.secondOf L.allocator uid) := by
      obtain ⟨hnonneg, hle, -⟩ := hsecond
      exact ⟨by omega, by omega⟩
    rw [toSeconds, Int.mul_tdiv_cancel _ (by norm_num), toLong_eq_self hlong,
      DefaultUidGenerator.secondOf, add_sub_cancel_left]
  simp only [DefaultUidGenerator.uidOfText, hdate, hvalue, Option.map_some, hseconds]
  generalize L.allocator.parse uid = fields at *
  obtain ⟨delta, worker, sequence⟩ := fields
  lift worker to ℕ using hworker
  lift sequence to ℕ using hsequence
  rw [number_decimal, number_decimal, hinverse]

/-- The UID with all bits set, under the default widths and epoch. -/
theorem parseUID_reads_back_minus_one :
    ∃ (g : DefaultUidGenerator) (A : BitsAllocator) (text timestamp workerId sequence : JsString),
      g.bitsAllocator = some A ∧ A.parse (-1) = ⟨2 ^ 29 - 1, 2 ^ 22 - 1, 2 ^ 13 - 1⟩ ∧
      g.parseUID (-1) = .ok text ∧
      Json.readObject text = some [(js "UID", js "-1"), (js "timestamp", timestamp),
        (js "workerId", workerId), (js "sequence", sequence)] ∧
      g.uidOfText A timestamp workerId sequence = some (-1) := by
  obtain ⟨A, hnew⟩ : ∃ A, BitsAllocator.new 28 22 13 = .ok A := ⟨_, rfl⟩
  have hparse : A.parse (-1) = ⟨2 ^ 29 - 1, 2 ^ 22 - 1, 2 ^ 13 - 1⟩ := by
    rw [← Except.ok.inj hnew]
    decide
  let g : DefaultUidGenerator := { DefaultUidGenerator.configured {} with bitsAllocator := some A }
  have hepoch : g.epochSeconds = 1463673600 := show toSeconds 1463673600000 = _ by decide
  obtain ⟨text, timestamp, workerId, sequence, htext, hread, -, huid⟩ :=
    parseUID_reads_back (by norm_num) (by norm_num) (by norm_num) (by norm_num) hnew (g := g) rfl
      (by rw [hepoch]; norm_num) (show -2 ^ 63 ≤ (-1 : ℤ) by norm_num) (by norm_num)
      (by rw [hparse, hepoch]; norm_num)
  exact ⟨g, A, text, timestamp, workerId, sequence, rfl, hparse, htext, hread, huid⟩

end UID
