import UidGenerator.Spec.DefaultUidGenerator
import UidGenerator.Spec.JavaDate

/-! `format` of `string-format.ts`, and what `default-uid-generator.ts` reads and writes of
dates: `setEpochStr` and `parseUID`. -/

namespace UID

inductive FormatArgument
  | bigint (value : ℤ)
  | string (value : JsString)

def FormatArgument.typeof : FormatArgument → String
  | .bigint _ => "bigint"
  | .string _ => "string"

def FormatArgument.toStringArgument : FormatArgument → JsString
  | .bigint value => decimal value
  | .string value => value

def FormatArgument.toIntegralArgument : FormatArgument → Except Throwable JsString
  | .bigint value => .ok (decimal value)
  | .string value =>
    .error ⟨"IllegalFormatConversionException", s!"d != {(FormatArgument.string value).typeof}"⟩

def missingFormatArgument (specifier : JsString) : Throwable :=
  ⟨"MissingFormatArgumentException", s!"Format specifier '{text specifier}'"⟩

/-- `format`, with what is left of the format string and of the arguments. -/
def format : JsString → List FormatArgument → Except Throwable JsString
  | [], _ => .ok []
  | [c], _ => .ok [c]
  | c :: d :: rest, args =>
    if c = unit '%' ∧ d = unit '%' then do
      return unit '%' :: (← format rest args)
    else if c = unit '%' ∧ (d = unit 's' ∨ d = unit 'd') then
      match args with
      | [] => .error (missingFormatArgument [c, d])
      | argument :: args => do
        let written ←
          if d = unit 'd' then argument.toIntegralArgument else .ok argument.toStringArgument
        return written ++ (← format rest args)
    else do
      return c :: (← format (d :: rest) args)

def UID_FORMAT : JsString :=
  js "\x7b\"UID\":\"%d\",\"timestamp\":\"%s\",\"workerId\":\"%d\",\"sequence\":\"%d\"\x7d"

/-- `BigInt` of the time value of an invalid date. -/
def nanToBigInt : Throwable :=
  .rangeError "The number NaN cannot be converted to a BigInt because it is not an integer"

/-- `setEpochStr`. The text itself, which is stored before it is parsed, is read nowhere. -/
def DefaultUidGenerator.setEpochStr (g : DefaultUidGenerator) (epochStr : Option JsString) :
    Except Throwable Unit × DefaultUidGenerator :=
  match epochStr with
  | none => (.ok (), g)
  | some epochStr =>
    if isNotBlank (some (text epochStr)) then
      match parseByDayPattern epochStr with
      | .error e => (.error e, g)
      | .ok date =>
        match date.time with
        | none => (.error nanToBigInt, g)
        | some time => (.ok (), g.storeEpoch (toSeconds time))
    else (.ok (), g)

def DefaultUidGenerator.parseUID (g : DefaultUidGenerator) (uid : ℤ) : Except Throwable JsString :=
  match g.bitsAllocator with
  | none => .error (allocatorUndefined "getSignBits")
  | some A => do
    let fields := A.parse uid
    let thatTime := Date.timeClip (roundToDouble (toMillis (g.epochSeconds + fields.deltaSeconds)))
    let thatTimeStr ← formatByDateTimePattern thatTime
    format UID_FORMAT
      [.bigint uid, .string thatTimeStr, .bigint fields.workerId, .bigint fields.sequence]

end UID
