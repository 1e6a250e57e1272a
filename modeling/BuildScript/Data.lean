/-!
# Structured data

Values in which models, options and token trees are exchanged: null, truth values,
numbers, strings, lists and named members. A record is read from named members,
where unknown ones are passed over, or from a list of all its fields in order.
-/

namespace BuildScript

inductive Data where
  | null
  | bool (value : Bool)
  /-- The number `mantissa` divided by ten to the power of `exponent`. -/
  | number (mantissa : Int) (exponent : Nat)
  | string (text : String)
  | list (items : List Data)
  | record (members : List (String × Data))
  deriving Inhabited, Repr

structure FieldName where
  name : String
  /-- Whether the field may be missing, which reads as null. -/
  optional : Bool
  deriving DecidableEq, Repr

namespace Data

def ofNat (n : Nat) : Data :=
  .number n 0

def ofString? : Option String → Data
  | some text => .string text
  | none => .null

def ofStrings (texts : List String) : Data :=
  .list (texts.map .string)

def string? : Data → Option String
  | .string text => some text
  | _ => none

/-- The text of a string, or null. -/
def nullableString? : Data → Option (Option String)
  | .null => some none
  | .string text => some (some text)
  | _ => none

def items? : Data → Option (List Data)
  | .list items => some items
  | _ => none

def strings? (data : Data) : Option (List String) :=
  data.items?.bind fun items => items.mapM string?

def member? (members : List (String × Data)) (field : FieldName) : Option Data :=
  match members.lookup field.name with
  | some value => some value
  | none => if field.optional then some .null else none

/-- The values of a record's fields, in order. -/
def fields? (names : List FieldName) : Data → Option (List Data)
  | .record members => names.mapM (member? members)
  | .list items => if items.length = names.length then some items else none
  | _ => none

end Data

end BuildScript
