/-!
# JSON values and how they are written

A JSON value as far as this library tells values apart. Integers keep their value; any other number
is only known to be none. A string literal whose escapes name half of a surrogate pair is well
formed but denotes no text, and is kept as such.

* `Json` — the values.
* `Json.render` — the compact text of a value.
-/

namespace CaliforniaPoker

/-- A JSON value. -/
inductive Json where
  | null
  | bool (value : Bool)
  /-- A number written without fraction and exponent; minus zero is not one of them. -/
  | int (value : Int)
  /-- Any other number. -/
  | inexact
  /-- A string literal with the text it denotes, if it denotes one. -/
  | string (text : Option String)
  | array (items : List Json)
  /-- The fields in the order in which they are written, repeated names included. -/
  | object (fields : List (Option String × Json))

namespace Json

/-- The string literal of a text. -/
def ofText (text : String) : Json := string (some text)

/-- A hexadecimal digit in lower case. -/
def hexDigit (n : Nat) : Char := Nat.digitChar (n % 16)

/-- The form of one character inside a string literal: quote, backslash and controls are escaped. -/
def renderChar (c : Char) : List Char :=
  if c = '\x22' then ['\\', '\x22']
  else if c = '\\' then ['\\', '\\']
  else if c = '\x08' then ['\\', 'b']
  else if c = '\x0c' then ['\\', 'f']
  else if c = '\n' then ['\\', 'n']
  else if c = '\r' then ['\\', 'r']
  else if c = '\t' then ['\\', 't']
  else if c.toNat < 0x20 then ['\\', 'u', '0', '0', hexDigit (c.toNat / 16), hexDigit c.toNat]
  else [c]

/-- A string literal. A literal that denotes no text is given by one half of a surrogate pair. -/
def renderString : Option String → List Char
  | some text => '\x22' :: (text.toList.flatMap renderChar ++ ['\x22'])
  | none => ['\x22', '\\', 'u', 'd', '8', '0', '0', '\x22']

mutual

/-- The characters of a value. A number that is no integer is given by minus zero. -/
def renderChars : Json → List Char
  | null => ['n', 'u', 'l', 'l']
  | bool true => ['t', 'r', 'u', 'e']
  | bool false => ['f', 'a', 'l', 's', 'e']
  | int value => value.repr.toList
  | inexact => ['-', '0']
  | string text => renderString text
  | array items => '[' :: (renderItems items ++ [']'])
  | object fields => '{' :: (renderFields fields ++ ['}'])

/-- The characters of the items of an array. -/
def renderItems : List Json → List Char
  | [] => []
  | [item] => renderChars item
  | item :: rest => renderChars item ++ ',' :: renderItems rest

/-- The characters of the fields of an object. -/
def renderFields : List (Option String × Json) → List Char
  | [] => []
  | [(name, value)] => renderString name ++ ':' :: renderChars value
  | (name, value) :: rest =>
    renderString name ++ ':' :: (renderChars value ++ ',' :: renderFields rest)

end

/-- The compact text of a value. -/
def render (j : Json) : String := String.ofList j.renderChars

end Json

end CaliforniaPoker
