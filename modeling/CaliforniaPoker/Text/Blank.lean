/-!
# Blank characters

Card lists and settings are read up to blank characters: those with the Unicode property
`White_Space`. The property holds of the next-line control, the no-break space and the ideographic
space, and of neither the information separators U+001C to U+001F nor the zero-width space.

* `isBlank` — the property.
* `trim` — a text without the blank characters at its two ends.
* `words` — the maximal runs of a text that hold no blank character.
-/

namespace CaliforniaPoker

/-- The characters with the Unicode property `White_Space`. -/
def isBlank (c : Char) : Bool :=
  let n := c.toNat
  (9 ≤ n && n ≤ 13) || n == 0x20 || n == 0x85 || n == 0xA0 || n == 0x1680 ||
    (0x2000 ≤ n && n ≤ 0x200A) || n == 0x2028 || n == 0x2029 || n == 0x202F || n == 0x205F ||
    n == 0x3000

/-- A text without the blank characters at its two ends. -/
def trim (cs : List Char) : List Char :=
  ((cs.dropWhile isBlank).reverse.dropWhile isBlank).reverse

/-- The maximal runs of characters that are not blank, in order. -/
def words : List Char → List (List Char)
  | [] => []
  | c :: cs =>
    if isBlank c then words cs
    else
      match cs with
      | [] => [[c]]
      | d :: _ =>
        if isBlank d then [c] :: words cs
        else
          match words cs with
          | [] => [[c]]
          | word :: rest => (c :: word) :: rest

end CaliforniaPoker
