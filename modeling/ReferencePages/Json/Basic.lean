import ReferencePages.Text.Blank

/-!
# JSON values

A value as its text gives it: the members of an object in order, repeated keys included. A
string may contain the escape of half a surrogate pair; it is then a string without a text,
which is no error until somebody asks for the text.
-/

namespace ReferencePages

/-- A number: an integer written without fraction and exponent, or any other. -/
inductive JsonNumber where
  | integer (value : Int)
  | decimal (digits : String)
deriving Repr, DecidableEq, Inhabited

/-- A JSON value. -/
inductive Json where
  | null
  | bool (value : Bool)
  | number (value : JsonNumber)
  /-- A string, or none if it has half a surrogate pair. -/
  | string (text : Option String)
  | array (items : List Json)
  | object (members : List (Option String × Json))
deriving Repr, Inhabited

namespace Json

/-- A string with a text. -/
def text (s : String) : Json := .string (some s)

/-- An object with these members. -/
def ofMembers (members : List (String × Json)) : Json :=
  .object (members.map fun m => (some m.1, m.2))

/-- The text of a string. -/
def text? : Json → Option String
  | .string s => s
  | _ => none

/-- The truth value. -/
def bool? : Json → Option Bool
  | .bool b => some b
  | _ => none

/-- The items of an array. -/
def items? : Json → Option (List Json)
  | .array items => some items
  | _ => none

/-- The integer of a number written as one. -/
def integer? : Json → Option Int
  | .number (.integer n) => some n
  | _ => none

end Json

end ReferencePages
