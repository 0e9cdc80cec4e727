import UidGenerator.Lib.Calendar
import UidGenerator.Spec.Strings

/-! `java-date.ts` and the two `date-utils.ts`, on a host whose time zone is UTC, over the
`Date` of JavaScript: the proleptic Gregorian calendar, in milliseconds from 1970. -/

namespace UID

open Calendar

def MS_PER_DAY : ℤ := 86400000

/-- A `Date` is its time value, `none` when it is invalid. -/
structure Date where
  time : Option ℤ
  isTime : ∀ t ∈ time, IsTime t

instance : DecidablePred IsTime := fun _ => inferInstanceAs (Decidable (_ ≤ _))

namespace Date

def timeClip (t : ℤ) : Date :=
  if h : IsTime t then ⟨some t, fun _ ht => Option.some.inj ht ▸ h⟩ else ⟨none, nofun⟩

/-- `MakeDay`, for a year that is taken literally. Where the language gives up on a
component for its size, the day is out of range here, as no component is below -1. -/
def makeDay (year month date : ℤ) : ℤ := dayFromMonth (12 * year + month) + date - 1

def makeTime (hours minutes seconds ms : ℤ) : ℤ :=
  hours * 3600000 + minutes * 60000 + seconds * 1000 + ms

/-- `new Date(year, month, …)`: the years 0 to 99 stand for 1900 to 1999. -/
def new (year month date hours minutes seconds ms : ℤ) : Date :=
  let fullYear := if 0 ≤ year ∧ year ≤ 99 then 1900 + year else year
  timeClip (makeDay fullYear month date * MS_PER_DAY + makeTime hours minutes seconds ms)

/-- The day of a text `YYYY-MM-DD`, if the calendar has it. -/
def isoDay (str : JsString) : Option ℤ :=
  let year := str.take 4
  let month := (str.drop 5).take 2
  let date := str.drop 8
  if str = year ++ unit '-' :: (month ++ unit '-' :: date) ∧
      (year.length = 4 ∧ month.length = 2 ∧ date.length = 2) ∧
      (∀ c ∈ year ++ month ++ date, isDigit c = true) ∧
      (1 ≤ number month ∧ number month ≤ 12) ∧
      (1 ≤ number date ∧ number date ≤ monthLength (12 * number year + (number month - 1))) then
    some (makeDay (number year) (number month - 1) (number date))
  else none

/-- `new Date(text)`: a day alone is its midnight in UTC. Every other text is read by
`fallback`, of which nothing is known. -/
def ofText (fallback : JsString → Date) (str : JsString) : Date :=
  match isoDay str with
  | some day => timeClip (day * MS_PER_DAY)
  | none => fallback str

def day (t : ℤ) : ℤ := t / MS_PER_DAY
def timeWithinDay (t : ℤ) : ℤ := t % MS_PER_DAY
def getFullYear (t : ℤ) : ℤ := monthFromDay (day t) / 12
def getMonth (t : ℤ) : ℤ := monthFromDay (day t) % 12
def getDate (t : ℤ) : ℤ := day t - dayFromMonth (monthFromDay (day t)) + 1
def getHours (t : ℤ) : ℤ := timeWithinDay t / 3600000
def getMinutes (t : ℤ) : ℤ := timeWithinDay t / 60000 % 60
def getSeconds (t : ℤ) : ℤ := timeWithinDay t / 1000 % 60
def getMilliseconds (t : ℤ) : ℤ := timeWithinDay t % 1000

def setFullYear (t year : ℤ) : Date :=
  timeClip (makeDay year (getMonth t) (getDate t) * MS_PER_DAY + timeWithinDay t)

end Date

inductive PatternItem
  | field (letter : CodeUnit) (run : ℕ)
  | literal (c : CodeUnit)
  deriving DecidableEq

def patternItems : JsString → List PatternItem
  | [] => []
  | c :: pattern =>
    if isLetter c then
      match patternItems pattern with
      | .field letter run :: items =>
        if letter = c then .field c (run + 1) :: items
        else .field c 1 :: .field letter run :: items
      | items => .field c 1 :: items
    else .literal c :: patternItems pattern

def unsupportedLetter (letter : CodeUnit) (pattern : JsString) : Throwable :=
  .error s!"Unsupported pattern letter '{text [letter]}' in '{text pattern}'"

def MONTHS : List String :=
  ["Jan", "Feb", "Mar", "Apr", "May", "Jun", "Jul", "Aug", "Sep", "Oct", "Nov", "Dec"]

def pad (value : ℤ) (width : ℕ) : JsString := (decimal value).leftpad width (unit '0')

/-- A pattern letter with its run, at a time value; `none` where it is not supported. -/
def formatField (t : ℤ) (letter : CodeUnit) (run : ℕ) : Option JsString :=
  match Char.ofNat letter.toNat with
  | 'y' => if run = 2 then pad ((Date.getFullYear t).tmod 100) 2 else pad (Date.getFullYear t) run
  | 'M' => if run ≥ 3 then js (MONTHS.getD (Date.getMonth t).toNat "") else pad (Date.getMonth t + 1) run
  | 'd' => pad (Date.getDate t) run
  | 'H' => pad (Date.getHours t) run
  | 'm' => pad (Date.getMinutes t) run
  | 's' => pad (Date.getSeconds t) run
  | 'S' => pad (Date.getMilliseconds t) run
  | _ => none

def formatItems (pattern : JsString) (t : ℤ) : List PatternItem → Except Throwable JsString
  | [] => .ok []
  | .literal c :: items => do
    let out ← formatItems pattern t items
    return c :: out
  | .field letter run :: items =>
    match formatField t letter run with
    | none => .error (unsupportedLetter letter pattern)
    | some field => do
      let out ← formatItems pattern t items
      return field ++ out

def formatPattern (date : Date) (pattern : JsString) : Except Throwable JsString :=
  match date.time with
  | none => .error (.rangeError "Invalid date")
  | some t => formatItems pattern t (patternItems pattern)

structure DateFields where
  year : ℤ := 1970
  month : ℤ := 0
  day : ℤ := 1
  hour : ℤ := 0
  minute : ℤ := 0
  second : ℤ := 0
  milli : ℤ := 0

def readDigits : ℕ → JsString → JsString × JsString
  | max + 1, c :: rest =>
    if isDigit c then
      let (digits, rest) := readDigits max rest
      (c :: digits, rest)
    else ([], c :: rest)
  | _, rest => ([], rest)

def DateFields.set (fields : DateFields) (letter : CodeUnit) (value : ℤ) : Option DateFields :=
  match Char.ofNat letter.toNat with
  | 'y' => some { fields with year := value }
  | 'M' => some { fields with month := value - 1 }
  | 'd' => some { fields with day := value }
  | 'H' => some { fields with hour := value }
  | 'm' => some { fields with minute := value }
  | 's' => some { fields with second := value }
  | 'S' => some { fields with milli := value }
  | _ => none

/-- A numeric field that is not followed by another one may run on past its width. -/
def fieldWidth (run : ℕ) : List PatternItem → ℕ
  | .field _ _ :: _ => run
  | _ => 10

/-- The loop of `parsePattern`: the fields and the rest of the text, or `none` for `null`. -/
def parseItems (pattern : JsString) :
    List PatternItem → DateFields → JsString → Except Throwable (Option (DateFields × JsString))
  | [], fields, rest => .ok (some (fields, rest))
  | .literal _ :: _, _, [] => .ok none
  | .literal c :: items, fields, d :: rest =>
    if d = c then parseItems pattern items fields rest else .ok none
  | .field letter run :: items, fields, rest =>
    match readDigits (fieldWidth run items) rest with
    | ([], _) => .ok none
    | (digits, rest) =>
      match fields.set letter (number digits) with
      | none => .error (unsupportedLetter letter pattern)
      | some fields => parseItems pattern items fields rest

/-- The date of the fields. The shift of the years 0 to 99 back from 1900 leaves an
invalid date invalid. -/
def DateFields.toDate (fields : DateFields) : Date :=
  let parsed := Date.new fields.year fields.month fields.day fields.hour fields.minute
    fields.second fields.milli
  if fields.year ≥ 0 ∧ fields.year < 100 then
    match parsed.time with
    | none => parsed
    | some t => Date.setFullYear t (Date.getFullYear t - 1900)
  else parsed

def parsePattern (text pattern : JsString) : Except Throwable (Option Date) := do
  match ← parseItems pattern (patternItems pattern) {} text with
  | some (fields, []) => return some fields.toDate
  | _ => return none

def DAY_PATTERN : JsString := js "yyyy-MM-dd"
def DATETIME_PATTERN : JsString := js "yyyy-MM-dd HH:mm:ss"

def unableToParse (str : JsString) : Throwable :=
  ⟨"ParseException", "Unable to parse the date: " ++ text str⟩

/-- `parseDate` of `deps/commons-lang/date-utils.ts`: the first pattern that consumes the text. -/
def commonsParseDate (str : JsString) : List JsString → Except Throwable Date
  | [] => .error (unableToParse str)
  | pattern :: parsePatterns => do
    match ← parsePattern str pattern with
    | some parsed => return parsed
    | none => commonsParseDate str parsePatterns

/-- `parseDate` of `utils/date-utils.ts`, which wraps whatever is thrown. -/
def parseDate (str pattern : JsString) : Except Throwable Date :=
  match commonsParseDate str [pattern] with
  | .ok date => .ok date
  | .error e => .error (.error e.toJavaString)

def parseByDayPattern (str : JsString) : Except Throwable Date := parseDate str DAY_PATTERN
def parseByDateTimePattern (str : JsString) : Except Throwable Date := parseDate str DATETIME_PATTERN
def formatByDateTimePattern (date : Date) : Except Throwable JsString :=
  formatPattern date DATETIME_PATTERN

/-- `formatByDayPattern`; `none` is `null`, for a date that is missing. -/
def formatByDayPattern : Option Date → Except Throwable (Option JsString)
  | none => .ok none
  | some date => (formatPattern date DAY_PATTERN).map some

end UID
