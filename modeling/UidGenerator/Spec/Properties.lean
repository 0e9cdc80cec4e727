import Mathlib.Data.List.DropRight
import UidGenerator.Lib.OrderedMap
import UidGenerator.Spec.Strings

/-! `properties.ts`. Its regular expressions are scans from left to right, each with what it
has to remember of the characters before. -/

namespace UID

def TAB : CodeUnit := unit '\t'
def LF : CodeUnit := unit '\n'
def CR : CodeUnit := unit '\r'
def SPACE : CodeUnit := unit ' '
def BACKSLASH : CodeUnit := unit '\\'
def BOM : CodeUnit := 0xfeff

/-- `/\s/`, which is also what `trim` removes. -/
def isSpace (c : CodeUnit) : Bool := decide (c.toNat ∈ WHITE_SPACE)

def isBlankUnit (c : CodeUnit) : Bool := decide (c = SPACE ∨ c = TAB)

def isSeparator (c : CodeUnit) : Bool := decide (c = unit '=' ∨ c = unit ':')

def trim (s : JsString) : JsString := (s.dropWhile isSpace).rdropWhile isSpace

/-- `/[0-9a-fA-F]/`, with its value. -/
def hexDigit (c : CodeUnit) : Option ℕ :=
  if isDigit c then some (c.toNat - 0x30)
  else if unit 'a' ≤ c ∧ c ≤ unit 'f' then some (c.toNat - 0x61 + 10)
  else if unit 'A' ≤ c ∧ c ≤ unit 'F' then some (c.toNat - 0x41 + 10)
  else none

/-- `/u[0-9a-fA-F]{4}/` at the front of a text: the code of the digits. -/
def unicodeEscape : JsString → Option CodeUnit
  | u :: a :: b :: c :: d :: _ =>
    match hexDigit a, hexDigit b, hexDigit c, hexDigit d with
    | some a, some b, some c, some d =>
      if u = unit 'u' then some (UInt16.ofNat (((a * 16 + b) * 16 + c) * 16 + d)) else none
    | _, _, _, _ => none
  | _ => none

/-- What `.` does not match. -/
def isLineTerminator (c : CodeUnit) : Bool :=
  decide (c = LF ∨ c = CR ∨ c = 0x2028 ∨ c = 0x2029)

/-- The character that stands for an escaped one. `u` without its digits is the character
of code `NaN`, which is 0. -/
def escapeOf (c : CodeUnit) : CodeUnit :=
  if c = unit 'u' then 0
  else if c = unit 'n' then LF
  else if c = unit 'r' then CR
  else if c = unit 't' then TAB
  else if c = unit 'f' then 0x0c
  else c

/-- `unescape`, where the last match goes on over `consumed` characters. -/
def unescapeFrom : ℕ → JsString → JsString
  | _, [] => []
  | consumed + 1, _ :: rest => unescapeFrom consumed rest
  | 0, c :: rest =>
    if c = BACKSLASH then
      match unicodeEscape rest, rest with
      | some code, _ => code :: unescapeFrom 5 rest
      | none, [] => [c]
      | none, e :: _ =>
        if isLineTerminator e then c :: unescapeFrom 0 rest else escapeOf e :: unescapeFrom 1 rest
    else c :: unescapeFrom 0 rest

def unescape (value : JsString) : JsString := unescapeFrom 0 value

/-- `/\r?\n/` at the front of a text: its length. -/
def terminatorLength : JsString → Option ℕ
  | [] => none
  | c :: rest => if c = LF then some 1 else if c = CR ∧ rest.head? = some LF then some 2 else none

/-- `replace(/\\\r?\n[ \t]*/g, '')`. Within a match, `some n` is the number of characters it
goes on over before its blanks. -/
def joinContinuations : Option ℕ → JsString → JsString
  | _, [] => []
  | some (consumed + 1), _ :: rest => joinContinuations (some consumed) rest
  | state, c :: rest =>
    if state.isSome ∧ isBlankUnit c then joinContinuations state rest
    else if c = BACKSLASH ∧ (terminatorLength rest).isSome then
      joinContinuations (terminatorLength rest) rest
    else c :: joinContinuations none rest

/-- `split(/\r?\n/)`. -/
def splitLines : JsString → List JsString
  | [] => [[]]
  | c :: rest =>
    if c = LF then [] :: splitLines rest
    else if c = CR ∧ rest.head? = some LF then splitLines rest
    else (splitLines rest).modifyHead (c :: ·)

/-- The line up to `/(?<!\\)[=:]|\s/` and after it, where `escaped` is whether a backslash
stands before. -/
def cutSeparator : Bool → JsString → Option (JsString × JsString)
  | _, [] => none
  | escaped, c :: rest =>
    if isSeparator c ∧ !escaped ∨ isSpace c then some ([], rest)
    else (cutSeparator (decide (c = BACKSLASH)) rest).map fun (key, value) => (c :: key, value)

/-- `replace(/^[ \t]*[=:]?[ \t]*/, '')`. -/
def stripSeparator (value : JsString) : JsString :=
  match value.dropWhile isBlankUnit with
  | [] => []
  | c :: rest => if isSeparator c then rest.dropWhile isBlankUnit else c :: rest

def parseLine (rawLine : JsString) : Option (JsString × JsString) :=
  let line := trim rawLine
  if line = [] ∨ line.head? = some (unit '#') ∨ line.head? = some (unit '!') then none
  else
    match cutSeparator false line with
    | none => some (unescape line, [])
    | some (key, value) => some (unescape (trim key), unescape (stripSeparator value))

/-- `replace(/^\uFEFF/, '')`. -/
def stripBom (text : JsString) : JsString := if text.head? = some BOM then text.tail else text

abbrev Properties := OrderedMap JsString JsString

def parseProperties (text : JsString) : Properties :=
  OrderedMap.empty.setAll
    ((splitLines (joinContinuations none (stripBom text))).filterMap parseLine)

/-- `loadProperties`, on the texts of the files in the order of their names. -/
def loadProperties (texts : List JsString) : Properties :=
  texts.foldl (fun merged text => merged.override (parseProperties text)) OrderedMap.empty

def requireProperty (properties : Properties) (key : JsString) : Except Throwable JsString :=
  match properties.get key with
  | none => .error (.error s!"Could not resolve placeholder '{text key}'")
  | some value => .ok value

end UID
