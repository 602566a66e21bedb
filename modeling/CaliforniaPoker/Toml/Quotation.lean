import CaliforniaPoker.Toml.Literal

/-!
# Quoted texts

Texts stand between double quotes, where a backslash begins an escape, or between apostrophes,
where every character stands for itself. Three quotes or apostrophes enclose a text of several
lines. The readers begin behind what opens a text and give its characters with what is left over.

* `readBasic`, `readBasicLines` — texts between double quotes.
* `readVerbatim`, `readVerbatimLines` — texts between apostrophes.
-/

namespace CaliforniaPoker.Toml

/-- The characters that may stand in texts and comments: all but the controls, of which only the
tab is admitted. -/
def isPlain (c : Char) : Bool := c == '\t' || (0x20 ≤ c.toNat && c.toNat != 0x7F)

/-- The character with a code point, if there is one. -/
def scalar? (n : Nat) : Option Char := if n.isValidChar then some (Char.ofNat n) else none

/-- The character that some hexadecimal digits stand for. -/
def hexScalar? (cs : List Char) : Option Char :=
  (cs.mapM digitValue?).bind fun digits => scalar? (ofDigits 16 digits)

/-- The character that an escape of one letter stands for. -/
def escape? : Char → Option Char
  | 'b' => some '\x08'
  | 't' => some '\t'
  | 'n' => some '\n'
  | 'f' => some '\x0c'
  | 'r' => some '\r'
  | 'e' => some '\x1b'
  | '\x22' => some '\x22'
  | '\\' => some '\\'
  | _ => none

/-- The character of an escape, behind its backslash, and what comes after. -/
def readEscape : List Char → Option (Char × List Char)
  | 'x' :: a :: b :: rest => (hexScalar? [a, b]).map (·, rest)
  | 'u' :: a :: b :: c :: d :: rest => (hexScalar? [a, b, c, d]).map (·, rest)
  | 'U' :: a :: b :: c :: d :: e :: f :: g :: h :: rest =>
    (hexScalar? [a, b, c, d, e, f, g, h]).map (·, rest)
  | c :: rest => (escape? c).map (·, rest)
  | [] => none

/-- Whether only blanks stand before the end of the line. -/
def lineEndsHere (cs : List Char) : Bool :=
  match cs.dropWhile isBlank with
  | '\n' :: _ => true
  | '\r' :: '\n' :: _ => true
  | _ => false

/-- A text of one line, behind its opening quote; the number bounds the steps of the reader. -/
def readBasic : Nat → List Char → Option (List Char × List Char)
  | 0, _ => none
  | _ + 1, '\x22' :: rest => some ([], rest)
  | steps + 1, '\\' :: rest => do
    let (c, rest) ← readEscape rest
    let (cs, rest) ← readBasic steps rest
    return (c :: cs, rest)
  | steps + 1, c :: rest =>
    if isPlain c then (readBasic steps rest).map fun (cs, rest) => (c :: cs, rest) else none
  | _ + 1, [] => none

/-- A text of several lines, behind its opening quotes. A backslash at the end of a line takes away
all blanks and line ends up to the next character; `trimming` holds while they are taken. -/
def readBasicLines : Nat → Bool → List Char → Option (List Char × List Char)
  | 0, _, _ => none
  | _ + 1, _, '\x22' :: '\x22' :: '\x22' :: '\x22' :: '\x22' :: rest =>
    some (['\x22', '\x22'], rest)
  | _ + 1, _, '\x22' :: '\x22' :: '\x22' :: '\x22' :: rest => some (['\x22'], rest)
  | _ + 1, _, '\x22' :: '\x22' :: '\x22' :: rest => some ([], rest)
  | steps + 1, trimming, '\r' :: '\n' :: rest =>
    (readBasicLines steps trimming rest).map fun (cs, rest) =>
      (if trimming then cs else '\n' :: cs, rest)
  | steps + 1, trimming, '\n' :: rest =>
    (readBasicLines steps trimming rest).map fun (cs, rest) =>
      (if trimming then cs else '\n' :: cs, rest)
  | steps + 1, _, '\\' :: rest =>
    if lineEndsHere rest then readBasicLines steps true rest
    else do
      let (c, rest) ← readEscape rest
      let (cs, rest) ← readBasicLines steps false rest
      return (c :: cs, rest)
  | steps + 1, trimming, c :: rest =>
    if trimming && isBlank c then readBasicLines steps true rest
    else if isPlain c then
      (readBasicLines steps false rest).map fun (cs, rest) => (c :: cs, rest)
    else none
  | _ + 1, _, [] => none

/-- A text of one line, behind its opening apostrophe. -/
def readVerbatim : List Char → Option (List Char × List Char)
  | '\x27' :: rest => some ([], rest)
  | c :: rest =>
    if isPlain c then (readVerbatim rest).map fun (cs, rest) => (c :: cs, rest) else none
  | [] => none

/-- A text of several lines, behind its opening apostrophes. -/
def readVerbatimLines : List Char → Option (List Char × List Char)
  | '\x27' :: '\x27' :: '\x27' :: '\x27' :: '\x27' :: rest => some (['\x27', '\x27'], rest)
  | '\x27' :: '\x27' :: '\x27' :: '\x27' :: rest => some (['\x27'], rest)
  | '\x27' :: '\x27' :: '\x27' :: rest => some ([], rest)
  | '\r' :: '\n' :: rest =>
    (readVerbatimLines rest).map fun (cs, rest) => ('\n' :: cs, rest)
  | c :: rest =>
    if isPlain c || c == '\n' then
      (readVerbatimLines rest).map fun (cs, rest) => (c :: cs, rest)
    else none
  | [] => none

/-- The characters of a text of several lines without a line end at its very start. -/
def dropFirstLineEnd : List Char → List Char
  | '\n' :: rest => rest
  | '\r' :: '\n' :: rest => rest
  | cs => cs

/-- A quoted text of whatever kind, with what comes after it. -/
def readQuotation : List Char → Option (String × List Char)
  | '\x22' :: '\x22' :: '\x22' :: rest =>
    let body := dropFirstLineEnd rest
    (readBasicLines (body.length + 1) false body).map fun (cs, rest) => (String.ofList cs, rest)
  | '\x22' :: rest =>
    (readBasic (rest.length + 1) rest).map fun (cs, rest) => (String.ofList cs, rest)
  | '\x27' :: '\x27' :: '\x27' :: rest =>
    (readVerbatimLines (dropFirstLineEnd rest)).map fun (cs, rest) => (String.ofList cs, rest)
  | '\x27' :: rest => (readVerbatim rest).map fun (cs, rest) => (String.ofList cs, rest)
  | _ => none

end CaliforniaPoker.Toml
