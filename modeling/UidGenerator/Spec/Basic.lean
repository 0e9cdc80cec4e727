import UidGenerator.Lib.BitField

/-! The runtime under the component: `long.ts`, `time-unit.ts`, `assert.ts`, the
error classes, and the JavaScript number conversions the sources rely on. A
`bigint` is an unbounded integer; so is a `number`, wherever the sources keep it
integral, with the conversions that round or truncate written out. -/

namespace UID

/-- An error object, as far as the component observes one. -/
structure Throwable where
  name : String
  message : String
  deriving DecidableEq, Repr

namespace Throwable

def error (message : String) : Throwable := ⟨"Error", message⟩
def typeError (message : String) : Throwable := ⟨"TypeError", message⟩
def rangeError (message : String) : Throwable := ⟨"RangeError", message⟩
def illegalArgument (message : String) : Throwable := ⟨"IllegalArgumentException", message⟩
def rejectedExecution (message : String) : Throwable := ⟨"RejectedExecutionException", message⟩
def uidGenerate (message : String) : Throwable := ⟨"UidGenerateException", message⟩

/-- `throwableToString`, for the errors here, which all define a message. -/
def toJavaString (e : Throwable) : String := e.name ++ ": " ++ e.message

/-- `new UidGenerateException(cause)`: the message becomes the cause's rendering. -/
def uidGenerateCause (cause : Throwable) : Throwable := uidGenerate cause.toJavaString

end Throwable

def isTrue (expression : Prop) [Decidable expression] (message : String) : Except Throwable Unit :=
  if expression then .ok () else .error (.illegalArgument message)

/-- `ToInt32`, as the bitwise operators apply it to a number. -/
def toInt32 (value : ℤ) : ℤ := value.bmod (2 ^ 32)

def toUint32 (value : ℤ) : ℤ := value % 2 ^ 32

/-- `<<` on numbers: 32 bits wide, distance modulo 32. -/
def numberShiftLeft (value distance : ℤ) : ℤ :=
  toInt32 (toInt32 value * 2 ^ (toUint32 distance % 32).toNat)

/-- The double nearest to an integer, ties to the even significand. -/
def roundToDouble (value : ℤ) : ℤ :=
  let magnitude := value.natAbs
  if magnitude < 2 ^ 53 then value
  else
    let exponent := magnitude.log2 - 52
    let significand := magnitude / 2 ^ exponent
    let rest := magnitude % 2 ^ exponent
    let half := 2 ^ (exponent - 1)
    let rounded :=
      if half < rest ∨ rest = half ∧ significand % 2 = 1 then significand + 1 else significand
    value.sign * (rounded * 2 ^ exponent : ℕ)

/-- The longest array `new Array(n)` makes. -/
def MAX_ARRAY_LENGTH : ℤ := 2 ^ 32 - 1

def LONG_BITS : ℕ := 64

def toLong (value : ℤ) : ℤ := value.bmod (2 ^ LONG_BITS)

def toUnsignedLong (value : ℤ) : ℤ := value % 2 ^ LONG_BITS

def shiftDistance (distance : ℤ) : ℕ := (Int.land (toInt32 distance) 63).toNat

def shiftLeft (value distance : ℤ) : ℤ := toLong (value * 2 ^ shiftDistance distance)
def shiftRight (value distance : ℤ) : ℤ := toLong (value / 2 ^ shiftDistance distance)

def unsignedShiftRight (value distance : ℤ) : ℤ :=
  toLong (toUnsignedLong value / 2 ^ shiftDistance distance)

def not (value : ℤ) : ℤ := toLong (Int.lnot value)
def or (left right : ℤ) : ℤ := toLong (Int.lor left right)
def and (left right : ℤ) : ℤ := toLong (Int.land left right)
def add (left right : ℤ) : ℤ := toLong (left + right)
def subtract (left right : ℤ) : ℤ := toLong (left - right)

/-- The loop of `bitCount`. After one round the word is unsigned, so 32 rounds
clear it. -/
def bitCountLoop : ℕ → ℤ → ℤ → ℤ
  | 0, _, count => count
  | rounds + 1, bits, count =>
    if bits = 0 then count
    else bitCountLoop rounds (toUint32 bits / 2) (count + Int.land bits 1)

def bitCount (value : ℤ) : ℤ := bitCountLoop 32 (toInt32 value) 0

/-- What `Date.now()` can read: at most 100 million days from 1970. -/
def IsTime (now : ℤ) : Prop := now.natAbs ≤ 8640000000000000

/-- `TimeUnit.MILLISECONDS.toSeconds`: the division truncates toward zero. -/
def toSeconds (duration : ℤ) : ℤ := toLong (duration.tdiv 1000)

def toMillis (duration : ℤ) : ℤ := toLong (duration * 1000)

end UID
