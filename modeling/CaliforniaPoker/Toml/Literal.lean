import CaliforniaPoker.Toml.Value

/-!
# Literals without quotes

Integers in four bases, floats, booleans, dates and times, told apart by their characters alone.
Integers are told apart by their beginning: the rest of them is read when their value is wanted.

* `joined?` — a run without the underscores between its digits.
* `integer?`, `isFloat`, `isDateTime` — the kinds.
* `literal?` — the value of a literal.
-/

namespace CaliforniaPoker.Toml

/-- The blanks inside a line. -/
def isBlank (c : Char) : Bool := c == ' ' || c == '\t'

/-- Whether a character is a digit in a given base. -/
def isDigitBelow (base : Nat) (c : Char) : Bool := (digitBelow? base c).isSome

/-- The characters of a run without its underscores, each of which has to stand between two
digits of base sixteen. -/
def joined? : List Char → Option (List Char)
  | [] => some []
  | '_' :: _ => none
  | c :: '_' :: next :: rest =>
    if isDigitBelow 16 c && isDigitBelow 16 next then (joined? (next :: rest)).map (c :: ·)
    else none
  | c :: rest => (joined? rest).map (c :: ·)

/-- The digits of a run that is not empty, with underscores between some of them. -/
def numeral? (base : Nat) (cs : List Char) : Option (List Char) :=
  (joined? cs).filter fun digits => !digits.isEmpty && digits.all (isDigitBelow base)

/-- A run of decimal digits without a superfluous zero in front. -/
def isDecimal (cs : List Char) : Bool :=
  match numeral? 10 cs with
  | some ('0' :: _ :: _) => false
  | some _ => true
  | none => false

/-- The characters after an optional sign, and whether it was a minus. -/
def unsigned : List Char → Bool × List Char
  | '+' :: rest => (false, rest)
  | '-' :: rest => (true, rest)
  | cs => (false, cs)

/-- Whether a quote stands behind a blank, where it begins a text. -/
def quoteAfterBlank : List Char → Bool
  | c :: next :: rest =>
    (isBlank c && (next == '\x22' || next == '\x27')) || quoteAfterBlank (next :: rest)
  | _ => false

/-- Whether the characters after the first digits of a number can belong to an integer: there are
none, or an underscore comes first and nothing tells of a float, of a date and a time, or of a
text. -/
def continuesInteger (cs : List Char) : Bool :=
  cs.isEmpty ||
    (cs.head? == some '_' && !cs.any (fun c => c == '.' || c == 'e' || c == 'E' || c == ' ') &&
      !quoteAfterBlank cs)

/-- The characters behind the announcement of a base. There may be none. -/
def basedInteger? (base : Nat) (cs : List Char) : Option IntegerLiteral :=
  ((joined? cs).filter fun digits => digits.all (isDigitBelow base)).map fun characters =>
    { base, negative := false, characters }

/-- An integer; only decimal ones have a sign. What follows the first underscore of a decimal one
is not looked at any closer. -/
def integer? : List Char → Option IntegerLiteral
  | '0' :: 'x' :: rest => basedInteger? 16 rest
  | '0' :: 'o' :: rest => basedInteger? 8 rest
  | '0' :: 'b' :: rest => basedInteger? 2 rest
  | cs =>
    let (negative, rest) := unsigned cs
    let (digits, tail) := rest.span Char.isDigit
    if digits.isEmpty || (digits.head? == some '0' && rest != ['0']) || !continuesInteger tail then
      none
    else (joined? rest).map fun characters => { base := 10, negative, characters }

/-- The exponent of a float, behind its letter. -/
def isExponent (cs : List Char) : Bool := (numeral? 10 (unsigned cs).2).isSome

/-- A decimal number with a fraction, an exponent or both, or one of the special values. -/
def isFloat (cs : List Char) : Bool :=
  let rest := (unsigned cs).2
  let (mantissa, exponent) := rest.span fun c => c != 'e' && c != 'E'
  let (whole, fraction) := mantissa.span (· != '.')
  rest = ['i', 'n', 'f'] || rest = ['n', 'a', 'n'] ||
    (isDecimal whole &&
      (fraction.isEmpty || (numeral? 10 fraction.tail).isSome) &&
      (exponent.isEmpty || isExponent exponent.tail) &&
      !(fraction.isEmpty && exponent.isEmpty))

/-- A number of two digits and the characters after it. -/
def twoDigits? : List Char → Option (Nat × List Char)
  | a :: b :: rest =>
    if a.isDigit && b.isDigit then
      some (10 * (a.toNat - '0'.toNat) + (b.toNat - '0'.toNat), rest)
    else none
  | _ => none

/-- The number of days of a month. -/
def daysOfMonth (year month : Nat) : Nat :=
  if month = 2 then
    if year % 4 = 0 ∧ (year % 100 ≠ 0 ∨ year % 400 = 0) then 29 else 28
  else if month = 4 ∨ month = 6 ∨ month = 9 ∨ month = 11 then 30
  else 31

/-- The characters after a date of the calendar. -/
def skipDate? (cs : List Char) : Option (List Char) := do
  let (century, rest) ← twoDigits? cs
  let (year, rest) ← twoDigits? rest
  let '-' :: rest := rest | none
  let (month, rest) ← twoDigits? rest
  let '-' :: rest := rest | none
  let (day, rest) ← twoDigits? rest
  if 1 ≤ month ∧ month ≤ 12 ∧ 1 ≤ day ∧ day ≤ daysOfMonth (100 * century + year) month then
    some rest
  else none

/-- The characters after the fraction of a second, if one is there. -/
def skipSecondFraction? : List Char → Option (List Char)
  | '.' :: c :: rest => if c.isDigit then some (rest.dropWhile Char.isDigit) else none
  | '.' :: [] => none
  | cs => some cs

/-- The characters after a time of day; its seconds may be left out. -/
def skipTime? (cs : List Char) : Option (List Char) := do
  let (hour, rest) ← twoDigits? cs
  let ':' :: rest := rest | none
  let (minute, rest) ← twoDigits? rest
  if 24 ≤ hour ∨ 60 ≤ minute then none
  else
    match rest with
    | ':' :: rest =>
      let (second, rest) ← twoDigits? rest
      if 60 < second then none else skipSecondFraction? rest
    | rest => some rest

/-- Nothing, or the offset of a time from universal time. -/
def isOffset : List Char → Bool
  | [] => true
  | [c] => c == 'Z' || c == 'z'
  | sign :: rest =>
    (sign == '+' || sign == '-') &&
      match twoDigits? rest with
      | some (hour, ':' :: rest) =>
        match twoDigits? rest with
        | some (minute, []) => hour < 24 && minute < 60
        | _ => false
      | _ => false

/-- A date, a time, or both with a separator between them. -/
def isDateTime (cs : List Char) : Bool :=
  match skipDate? cs with
  | some [] => true
  | some (separator :: rest) =>
    (separator == 'T' || separator == 't' || separator == ' ') &&
      ((skipTime? rest).any isOffset)
  | none => skipTime? cs == some []

/-- The value of a literal without quotes. -/
def literal? (cs : List Char) : Option Value :=
  if cs = ['t', 'r', 'u', 'e'] then some (.boolean true)
  else if cs = ['f', 'a', 'l', 's', 'e'] then some (.boolean false)
  else
    match integer? cs with
    | some literal => some (.integer literal)
    | none =>
      if isFloat cs then some (.float cs)
      else if isDateTime cs then some (.dateTime cs)
      else none

end CaliforniaPoker.Toml
