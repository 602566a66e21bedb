import CaliforniaPoker.Json.Reading
import CaliforniaPoker.Text.Numeral

/-!
# JSON forms

A type has a JSON form when its values can be turned into JSON and back. A record is written as an
object with its fields in order; it is read from an object, where unknown names are ignored and
known ones must not be repeated, or from the array of its fields. A value of an enumeration is
written as its name, and is also read from an object that gives null under its name.

* `JsonForm` — the form of a type.
* `Json.record?`, `Json.unitVariant?` — reading records and enumerations.
* `jsonText`, `ofJsonText?` — between values and JSON texts.
-/

namespace CaliforniaPoker

/-- The JSON form of the values of a type. -/
class JsonForm (α : Type) where
  /-- The JSON of a value. -/
  toJson : α → Json
  /-- The value that some JSON stands for. -/
  ofJson? : Json → Option α

export JsonForm (toJson ofJson?)

/-- The compact JSON text of a value. -/
def jsonText {α : Type} [JsonForm α] (a : α) : String := (toJson a).render

/-- The value that a JSON text stands for. -/
def ofJsonText? {α : Type} [JsonForm α] (text : String) : Option α :=
  (Json.parse? text).bind ofJson?

namespace Json

/-- An object whose names are texts. -/
def record (fields : List (String × Json)) : Json :=
  object (fields.map fun (name, value) => (some name, value))

/-- The fields with the given names, of an object, or the items of an array. A name that an object
does not have gives nothing in its place. -/
def record? (names : List String) : Json → Option (List (Option Json))
  | object fields =>
    if fields.all (fun field => field.1.isSome) &&
        names.all (fun name => fields.countP (fun field => field.1 == some name) ≤ 1) then
      some (names.map fun name => (fields.find? fun field => field.1 == some name).map Prod.snd)
    else none
  | array items => some (items.map some)
  | _ => none

/-- The first of some values whose name is given, alone or with null. -/
def unitVariant? {α : Type} (values : List α) (name : α → String) : Json → Option α
  | string (some text) => values.find? fun a => name a == text
  | object [(some text, null)] => values.find? fun a => name a == text
  | _ => none

end Json

instance : JsonForm UInt8 where
  toJson b := .int b.toNat
  ofJson?
    | .int n => Numeral.byte? n
    | _ => none

instance : JsonForm Int32 where
  toJson w := .int w.toInt
  ofJson?
    | .int n => Numeral.int32? n
    | _ => none

/-- Natural numbers stand for positions, which are read below `2 ^ 64`. -/
instance : JsonForm Nat where
  toJson i := .int i
  ofJson?
    | .int n => Numeral.index? n
    | _ => none

instance {α : Type} [JsonForm α] : JsonForm (List α) where
  toJson as := .array (as.map toJson)
  ofJson?
    | .array items => items.mapM ofJson?
    | _ => none

instance {α : Type} [JsonForm α] : JsonForm (Option α) where
  toJson
    | some a => toJson a
    | none => .null
  ofJson?
    | .null => some none
    | j => (ofJson? j).map some

end CaliforniaPoker
