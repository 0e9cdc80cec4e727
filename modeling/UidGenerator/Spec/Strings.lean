import UidGenerator.Spec.Basic

/-! JavaScript strings, which are sequences of UTF-16 code units, and the blank test of
`string-utils.ts`. -/

namespace UID

abbrev CodeUnit := UInt16

abbrev JsString := List CodeUnit

/-- The characters of a string are gone through one by one; all code units are too many. -/
instance (priority := high) decidableForallMem {p : CodeUnit → Prop} [DecidablePred p] (s : JsString) :
    Decidable (∀ c ∈ s, p c) :=
  List.decidableBAll p s

instance (priority := high) decidableForallMemOption {p : CodeUnit → Prop} [DecidablePred p]
    (c? : Option CodeUnit) : Decidable (∀ c ∈ c?, p c) :=
  Option.decidableForallMem c?

def unit (ch : Char) : CodeUnit := UInt16.ofNat ch.toNat

/-- A string literal, of characters of the basic plane. -/
def js (literal : String) : JsString := literal.toList.map unit

/-- The characters of a string. A surrogate without its partner shows as U+FFFD. -/
def codePoints : JsString → List Char
  | [] => []
  | [c] => [if 0xd800 ≤ c ∧ c < 0xe000 then '\ufffd' else Char.ofNat c.toNat]
  | high :: low :: rest =>
    if (0xd800 ≤ high ∧ high < 0xdc00) ∧ (0xdc00 ≤ low ∧ low < 0xe000) then
      Char.ofNat (0x10000 + (high.toNat - 0xd800) * 0x400 + (low.toNat - 0xdc00)) ::
        codePoints rest
    else
      (if 0xd800 ≤ high ∧ high < 0xe000 then '\ufffd' else Char.ofNat high.toNat) ::
        codePoints (low :: rest)

def text (s : JsString) : String := String.ofList (codePoints s)

def isLetter (c : CodeUnit) : Bool :=
  decide (unit 'A' ≤ c ∧ c ≤ unit 'Z' ∨ unit 'a' ≤ c ∧ c ≤ unit 'z')

def isDigit (c : CodeUnit) : Bool := decide (unit '0' ≤ c ∧ c ≤ unit '9')

/-- `String(value)` of an integer; for a number, of one below 10^21. -/
def decimal (value : ℤ) : JsString := js (toString value)

/-- `Number(digits)`, exact up to 15 digits. -/
def number (digits : JsString) : ℕ := digits.foldl (fun n c => 10 * n + (c.toNat - 48)) 0

/-- The white space of `\s` and of `trim`, by its codes; all of it is in the basic plane. -/
def WHITE_SPACE : List ℕ :=
  [0x09, 0x0a, 0x0b, 0x0c, 0x0d, 0x20, 0xa0, 0x1680, 0x2000, 0x2001, 0x2002, 0x2003, 0x2004, 0x2005,
    0x2006, 0x2007, 0x2008, 0x2009, 0x200a, 0x2028, 0x2029, 0x202f, 0x205f, 0x3000, 0xfeff]

def isWhitespace (ch : Char) : Bool :=
  let code := ch.toNat
  if code = 0xa0 ∨ code = 0x2007 ∨ code = 0x202f ∨ code = 0xfeff then false
  else if 0x1c ≤ code ∧ code ≤ 0x1f then true
  else if code = 0x09 ∨ code = 0x0a ∨ code = 0x0b ∨ code = 0x0c ∨ code = 0x0d then true
  else decide (code ∈ WHITE_SPACE)

/-- `StringUtils.isBlank`; `none` is `null` or `undefined`. -/
def isBlank : Option String → Bool
  | none => true
  | some value => value.toList.all isWhitespace

def isNotBlank (value : Option String) : Bool := !isBlank value

end UID
