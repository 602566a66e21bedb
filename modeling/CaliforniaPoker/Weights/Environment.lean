/-!
# The environment of the weights

Weights can be set from outside by variables and by a file that a variable names. Both hold bytes,
which are a text only if they are UTF-8.

* `RawText` — a text, or bytes that are none.
* `Environment` — the variables and the files.
* `Environment.setting?` — the text of a variable that counts as set.
-/

namespace CaliforniaPoker

/-- The content of a variable or of a file. -/
inductive RawText where
  /-- A text. -/
  | text (content : String)
  /-- Bytes that are not UTF-8. -/
  | undecodable
  deriving DecidableEq

/-- The variables that are set and the files that can be read. -/
structure Environment where
  /-- The content of a variable, if it is set. -/
  content : String → Option RawText
  /-- The content of the file at a path, if there is a file that can be read. -/
  file : String → Option RawText

namespace Environment

/-- The environment with no variable and no file. -/
def empty : Environment := { content := fun _ => none, file := fun _ => none }

/-- The text of a variable that counts: it is set to a text, and not to the empty one. -/
def setting? (env : Environment) (name : String) : Option String :=
  match env.content name with
  | some (.text content) => if content = "" then none else some content
  | _ => none

end Environment

end CaliforniaPoker
