import CaliforniaPoker.Text.Extending
import CaliforniaPoker.Text.Unprintable

/-!
# Quoted texts

A text that a message cites is written between double quotes, so that its ends and its invisible
characters can be seen. The quote and the backslash carry a backslash, four control characters
have a short name, and every other character that would not show, or would be drawn on its
neighbour, is written as its code point in hexadecimal.

* `quoted` — the cited form of a text.
-/

namespace CaliforniaPoker

/-- The form of one character inside a quoted text. -/
def quotedChar (c : Char) : List Char :=
  if c = '\x22' then ['\\', '\x22']
  else if c = '\\' then ['\\', '\\']
  else if c = '\n' then ['\\', 'n']
  else if c = '\r' then ['\\', 'r']
  else if c = '\t' then ['\\', 't']
  else if c.toNat = 0 then ['\\', '0']
  else if isExtending c || isUnprintable c then
    ['\\', 'u', '\x7b'] ++ Nat.toDigits 16 c.toNat ++ ['\x7d']
  else [c]

/-- The cited form of a text. -/
def quoted (text : String) : String :=
  String.ofList ('\x22' :: (text.toList.flatMap quotedChar ++ ['\x22']))

/-- The cited form of a list: its entries between brackets, a comma and a space between two. -/
def bracketed (entries : List String) : String :=
  "[" ++ ", ".intercalate entries ++ "]"

end CaliforniaPoker
