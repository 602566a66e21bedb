/-!
# TOML values

The values of the TOML format. Floats and dates are kept as they are written, because nothing here
computes with them. Integers are kept as they are written, too: most of a document's values are
never asked for, and one that is not a numeral after all is found out when its value is wanted. A
key is the list of its parts, of which a dotted key has several.

* `IntegerLiteral` — an integer as it is written; `IntegerLiteral.value?` is what it stands for.
* `Value` — the values.
* `keysAreDistinct` — whether keys together define one table.
-/

namespace CaliforniaPoker.Toml

/-- The value of a digit in bases up to sixteen. -/
def digitValue? (c : Char) : Option Nat :=
  if '0' ≤ c ∧ c ≤ '9' then some (c.toNat - '0'.toNat)
  else if 'a' ≤ c ∧ c ≤ 'f' then some (c.toNat - 'a'.toNat + 10)
  else if 'A' ≤ c ∧ c ≤ 'F' then some (c.toNat - 'A'.toNat + 10)
  else none

/-- The value of a digit in a given base. -/
def digitBelow? (base : Nat) (c : Char) : Option Nat := (digitValue? c).filter (· < base)

/-- The number that digits stand for. -/
def ofDigits (base : Nat) (digits : List Nat) : Nat :=
  digits.foldl (fun value d => value * base + d) 0

/-- An integer as it is written. -/
structure IntegerLiteral where
  /-- The base that its beginning announces. -/
  base : Nat
  /-- Whether a minus stands before it. -/
  negative : Bool
  /-- The characters behind sign and base, without underscores. -/
  characters : List Char

/-- The integer that a literal stands for, if its characters are digits. -/
def IntegerLiteral.value? (literal : IntegerLiteral) : Option Int :=
  if literal.characters.isEmpty then none
  else (literal.characters.mapM (digitBelow? literal.base)).map fun digits =>
    let magnitude : Int := ofDigits literal.base digits
    if literal.negative then -magnitude else magnitude

/-- A TOML value. -/
inductive Value where
  | integer (literal : IntegerLiteral)
  | float (literal : List Char)
  | boolean (value : Bool)
  | dateTime (literal : List Char)
  | text (value : String)
  | array (items : List Value)
  | table (entries : List (List String × Value))

/-- No key of a list is the beginning of another one or equal to it, so that together they define
one table. -/
def keysAreDistinct : List (List String) → Bool
  | [] => true
  | key :: rest =>
    (rest.all fun other => !key.isPrefixOf other && !other.isPrefixOf key) && keysAreDistinct rest

end CaliforniaPoker.Toml
