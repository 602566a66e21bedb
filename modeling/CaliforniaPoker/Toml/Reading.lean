import CaliforniaPoker.Toml.Quotation

/-!
# Reading flat TOML

A flat document is a list of assignments, one on a line, with comments and empty lines anywhere. A
document with table headers is not flat and is refused. Values may be nested, but not too deeply.

* `readKey`, `readValue` — keys and values.
* `parse?` — the assignments of a flat document in order.
-/

namespace CaliforniaPoker.Toml

/-- The greatest number of brackets and braces that may be open at once, and of parts that a key may
have. -/
def nestingLimit : Nat := 80

/-- The characters after blanks of the same line. -/
def skipBlanks (cs : List Char) : List Char := cs.dropWhile isBlank

/-- The characters after blanks, line ends and comments; `inComment` holds inside a comment. -/
def skipTrivia (inComment : Bool) : List Char → Option (List Char)
  | '\r' :: '\n' :: rest => skipTrivia false rest
  | '\n' :: rest => skipTrivia false rest
  | c :: rest =>
    if inComment then if isPlain c then skipTrivia true rest else none
    else if isBlank c then skipTrivia false rest
    else if c == '#' then skipTrivia true rest
    else some (c :: rest)
  | [] => some []

/-- The characters of a comment's line end and after it. -/
def skipComment : List Char → Option (List Char)
  | '\r' :: '\n' :: rest => some ('\n' :: rest)
  | '\n' :: rest => some ('\n' :: rest)
  | c :: rest => if isPlain c then skipComment rest else none
  | [] => some []

/-- The characters after the end of a line on which nothing but a comment may follow. -/
def skipLineEnd (cs : List Char) : Option (List Char) := do
  let rest ←
    match skipBlanks cs with
    | '#' :: rest => skipComment rest
    | rest => some rest
  match rest with
  | [] => some []
  | '\n' :: rest => some rest
  | '\r' :: '\n' :: rest => some rest
  | _ => none

/-- The characters of a key that needs no quotes. -/
def isBare (c : Char) : Bool := c.isAlphanum || c == '_' || c == '-'

/-- One part of a key. A text of several lines is none. -/
def readKeyPart (cs : List Char) : Option (String × List Char) :=
  match cs with
  | '\x22' :: rest =>
    (readBasic (rest.length + 1) rest).map fun (cs, rest) => (String.ofList cs, rest)
  | '\x27' :: rest => (readVerbatim rest).map fun (cs, rest) => (String.ofList cs, rest)
  | cs =>
    match cs.takeWhile isBare with
    | [] => none
    | bare => some (String.ofList bare, cs.dropWhile isBare)

/-- A key, its parts separated by dots; the number is how many parts it may have. -/
def readKey : Nat → List Char → Option (List String × List Char)
  | 0, _ => none
  | steps + 1, cs => do
    let (part, rest) ← readKeyPart cs
    match skipBlanks rest with
    | '.' :: rest =>
      let (parts, rest) ← readKey steps (skipBlanks rest)
      return (part :: parts, rest)
    | rest => return ([part], rest)

/-- Whether a character ends a literal without quotes. -/
def endsLiteral (c : Char) : Bool :=
  c == '\n' || c == '\r' || c == '#' || c == ',' || c == '=' || c == '[' || c == ']' ||
    c == '\x7b' || c == '\x7d'

/-- The characters of a list without the blanks at its end. -/
def dropBlanksAtEnd (cs : List Char) : List Char := (cs.reverse.dropWhile isBlank).reverse

/-- A literal without quotes. It may hold blanks, as between a date and a time. -/
def readLiteral (cs : List Char) : Option (Value × List Char) :=
  let (run, rest) := cs.span (!endsLiteral ·)
  (literal? (dropBlanksAtEnd run)).map (·, rest)

mutual

/-- A value and the characters after it. The first number bounds the steps of the reader, the second
is how many brackets may still be opened. -/
def readValue : Nat → Nat → List Char → Option (Value × List Char)
  | 0, _, _ => none
  | steps + 1, depth, cs =>
    match cs with
    | '[' :: rest =>
      if depth = 0 then none
      else do
        let (items, rest) ← readItems steps (depth - 1) (← skipTrivia false rest)
        return (.array items, rest)
    | '\x7b' :: rest =>
      if depth = 0 then none
      else do
        let (entries, rest) ← readEntries steps (depth - 1) (← skipTrivia false rest)
        if keysAreDistinct (entries.map Prod.fst) then return (.table entries, rest) else none
    | '\x22' :: _ => (readQuotation cs).map fun (text, rest) => (.text text, rest)
    | '\x27' :: _ => (readQuotation cs).map fun (text, rest) => (.text text, rest)
    | cs => readLiteral cs

/-- The items of an array up to its closing bracket; a comma may stand behind the last. -/
def readItems : Nat → Nat → List Char → Option (List Value × List Char)
  | 0, _, _ => none
  | steps + 1, depth, cs =>
    match cs with
    | ']' :: rest => some ([], rest)
    | cs => do
      let (item, rest) ← readValue steps depth cs
      match ← skipTrivia false rest with
      | ',' :: rest =>
        let (items, rest) ← readItems steps depth (← skipTrivia false rest)
        return (item :: items, rest)
      | ']' :: rest => return ([item], rest)
      | _ => none

/-- The entries of a table up to its closing brace; a comma may stand behind the last. Lines may end
anywhere but inside a key. -/
def readEntries : Nat → Nat → List Char → Option (List (List String × Value) × List Char)
  | 0, _, _ => none
  | steps + 1, depth, cs =>
    match cs with
    | '\x7d' :: rest => some ([], rest)
    | cs => do
      let (key, rest) ← readKey nestingLimit cs
      let '=' :: rest ← skipTrivia false rest | none
      let (value, rest) ← readValue steps depth (← skipTrivia false rest)
      match ← skipTrivia false rest with
      | ',' :: rest =>
        let (entries, rest) ← readEntries steps depth (← skipTrivia false rest)
        return ((key, value) :: entries, rest)
      | '\x7d' :: rest => return ([(key, value)], rest)
      | _ => none

end

/-- The assignments of some lines; the number bounds the steps of the reader. -/
def readAssignments : Nat → List Char → Option (List (List String × Value))
  | 0, _ => none
  | steps + 1, cs => do
    match ← skipTrivia false cs with
    | [] => return []
    | cs =>
      let (key, rest) ← readKey nestingLimit cs
      let '=' :: rest := rest | none
      let (value, rest) ← readValue (2 * rest.length + 2) nestingLimit (skipBlanks rest)
      let assignments ← readAssignments steps (← skipLineEnd rest)
      return (key, value) :: assignments

/-- The assignments of a flat document, which may begin with a byte order mark. -/
def parse? (text : String) : Option (List (List String × Value)) := do
  let cs :=
    match text.toList with
    | '\uFEFF' :: rest => rest
    | cs => cs
  let assignments ← readAssignments (cs.length + 1) cs
  if keysAreDistinct (assignments.map Prod.fst) then some assignments else none

end CaliforniaPoker.Toml
