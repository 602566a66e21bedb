import CaliforniaPoker.Json.Basic

/-!
# Reading JSON

The readers take characters from the front of a text and give what they read with the characters
left over; nothing is given for a text that is not well formed. There is no limit on nesting.

* `Json.readString`, `Json.readNumber` — string literals and numbers.
* `Json.readValue` — any value.
* `Json.parse?` — a whole text, with blanks around the value.
-/

namespace CaliforniaPoker.Json

/-- The blanks between the parts of a value. -/
def isBlank (c : Char) : Bool := c == ' ' || c == '\t' || c == '\n' || c == '\r'

/-- The characters after the leading blanks. -/
def skipBlanks (cs : List Char) : List Char := cs.dropWhile isBlank

/-- The value of a hexadecimal digit. -/
def hexValue? (c : Char) : Option Nat :=
  if '0' ≤ c ∧ c ≤ '9' then some (c.toNat - '0'.toNat)
  else if 'a' ≤ c ∧ c ≤ 'f' then some (c.toNat - 'a'.toNat + 10)
  else if 'A' ≤ c ∧ c ≤ 'F' then some (c.toNat - 'A'.toNat + 10)
  else none

/-- The value of four hexadecimal digits. -/
def hex4? (a b c d : Char) : Option Nat := do
  let a ← hexValue? a
  let b ← hexValue? b
  let c ← hexValue? c
  let d ← hexValue? d
  return ((a * 16 + b) * 16 + c) * 16 + d

/-- The character that an escape of one letter stands for. -/
def escape? : Char → Option Char
  | '\x22' => some '\x22'
  | '\\' => some '\\'
  | '/' => some '/'
  | 'b' => some '\x08'
  | 'f' => some '\x0c'
  | 'n' => some '\n'
  | 'r' => some '\r'
  | 't' => some '\t'
  | _ => none

/-- The code points of a string literal from behind its opening quote, halves of surrogate pairs
apart. -/
def readCodes : List Char → Option (List Nat × List Char)
  | '\x22' :: rest => some ([], rest)
  | '\\' :: 'u' :: a :: b :: c :: d :: rest => do
    let code ← hex4? a b c d
    let (codes, rest) ← readCodes rest
    return (code :: codes, rest)
  | '\\' :: e :: rest => do
    let c ← escape? e
    let (codes, rest) ← readCodes rest
    return (c.toNat :: codes, rest)
  | c :: rest =>
    if c = '\\' ∨ c.toNat < 0x20 then none
    else do
      let (codes, rest) ← readCodes rest
      return (c.toNat :: codes, rest)
  | [] => none

/-- Whether a code is the first half of a surrogate pair. -/
def isLead (code : Nat) : Bool := 0xD800 ≤ code && code ≤ 0xDBFF

/-- Whether a code is the second half of a surrogate pair. -/
def isTrail (code : Nat) : Bool := 0xDC00 ≤ code && code ≤ 0xDFFF

/-- The characters that codes stand for, if every half of a surrogate pair has its other half. -/
def joinCodes : List Nat → Option (List Char)
  | [] => some []
  | lead :: trail :: rest =>
    if isLead lead then
      if isTrail trail then
        (joinCodes rest).map
          (Char.ofNat (0x10000 + (lead - 0xD800) * 0x400 + (trail - 0xDC00)) :: ·)
      else none
    else if isTrail lead then none
    else (joinCodes (trail :: rest)).map (Char.ofNat lead :: ·)
  | [code] => if isLead code || isTrail code then none else some [Char.ofNat code]

/-- A string literal from behind its opening quote. -/
def readString (cs : List Char) : Option (Option String × List Char) :=
  (readCodes cs).map fun (codes, rest) => ((joinCodes codes).map String.ofList, rest)

/-- The digits at the front, of which there must be one. -/
def readDigits (cs : List Char) : Option (List Char × List Char) :=
  match cs.takeWhile Char.isDigit with
  | [] => none
  | digits => some (digits, cs.dropWhile Char.isDigit)

/-- The characters after a fraction, if one is there; whether one was. -/
def skipFraction : List Char → Option (Bool × List Char)
  | '.' :: cs => (readDigits cs).map fun (_, rest) => (true, rest)
  | cs => some (false, cs)

/-- The characters after an exponent, if one is there; whether one was. -/
def skipExponent : List Char → Option (Bool × List Char)
  | c :: cs =>
    if c = 'e' ∨ c = 'E' then
      let digits :=
        match cs with
        | '+' :: rest => rest
        | '-' :: rest => rest
        | _ => cs
      (readDigits digits).map fun (_, rest) => (true, rest)
    else some (false, c :: cs)
  | [] => some (false, [])

/-- A number without its sign: its digits have no superfluous zero in front. -/
def readUnsigned (negative : Bool) (cs : List Char) : Option (Json × List Char) := do
  let (digits, rest) ← readDigits cs
  if digits.head? = some '0' ∧ digits ≠ ['0'] then none
  else
    let (fraction, rest) ← skipFraction rest
    let (exponent, rest) ← skipExponent rest
    let value := digits.foldl (fun value c => 10 * value + (c.toNat - '0'.toNat)) 0
    if fraction || exponent || (negative && value == 0) then return (inexact, rest)
    else return (int (if negative then -value else value), rest)

/-- A number. -/
def readNumber : List Char → Option (Json × List Char)
  | '-' :: cs => readUnsigned true cs
  | cs => readUnsigned false cs

mutual

/-- A value and the characters after it; the number bounds the steps of the reader. -/
def readValue : Nat → List Char → Option (Json × List Char)
  | 0, _ => none
  | steps + 1, cs =>
    match skipBlanks cs with
    | 'n' :: 'u' :: 'l' :: 'l' :: rest => some (null, rest)
    | 't' :: 'r' :: 'u' :: 'e' :: rest => some (bool true, rest)
    | 'f' :: 'a' :: 'l' :: 's' :: 'e' :: rest => some (bool false, rest)
    | '\x22' :: rest => (readString rest).map fun (text, rest) => (string text, rest)
    | '[' :: rest =>
      match skipBlanks rest with
      | ']' :: rest => some (array [], rest)
      | rest => (readItems steps rest).map fun (items, rest) => (array items, rest)
    | '{' :: rest =>
      match skipBlanks rest with
      | '}' :: rest => some (object [], rest)
      | rest => (readFields steps rest).map fun (fields, rest) => (object fields, rest)
    | cs => readNumber cs

/-- The items of an array, at least one, and the characters after the closing bracket. -/
def readItems : Nat → List Char → Option (List Json × List Char)
  | 0, _ => none
  | steps + 1, cs => do
    let (item, rest) ← readValue steps cs
    match skipBlanks rest with
    | ',' :: rest =>
      let (items, rest) ← readItems steps rest
      return (item :: items, rest)
    | ']' :: rest => return ([item], rest)
    | _ => none

/-- The fields of an object, at least one, and the characters after the closing brace. -/
def readFields : Nat → List Char → Option (List (Option String × Json) × List Char)
  | 0, _ => none
  | steps + 1, cs => do
    let (name, rest) ←
      match skipBlanks cs with
      | '\x22' :: rest => readString rest
      | _ => none
    let (value, rest) ←
      match skipBlanks rest with
      | ':' :: rest => readValue steps rest
      | _ => none
    match skipBlanks rest with
    | ',' :: rest =>
      let (fields, rest) ← readFields steps rest
      return ((name, value) :: fields, rest)
    | '}' :: rest => return ([(name, value)], rest)
    | _ => none

end

/-- The value that a whole text stands for. Every second step at the least takes a character. -/
def parse? (text : String) : Option Json :=
  let cs := text.toList
  match readValue (2 * cs.length + 2) cs with
  | some (value, rest) => if skipBlanks rest = [] then some value else none
  | none => none

end CaliforniaPoker.Json
