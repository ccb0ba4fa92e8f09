import WhereClause.Number.Numeral

namespace WhereClause

/-!
# JSON documents

Documents as they are written: fields keep their order and may repeat, and numbers other than
integers keep their spelling.

- `Json`: the documents
- `Json.record?`: the fields of a structure, which may also be written as a list
- `Json.variant?`, `Json.tag?`: a tagged value, and a tag alone
-/

/-- A JSON document. A string is absent if it is spelled with half of a surrogate pair, which names
    no character. Integers that fit into 64 bits, signed or not, are `integer`; all other numbers
    are `number`. -/
inductive Json where
  | null
  | bool (b : Bool)
  | integer (n : Int)
  | number (n : Numeral)
  | string (s : Option String)
  | array (items : List Json)
  | object (fields : List (Option String × Json))

namespace Json

instance : Coe String Json := ⟨fun s => string (some s)⟩

/-- An object with the given fields. -/
def ofFields (fields : List (String × Json)) : Json :=
  object (fields.map fun (k, v) => (some k, v))

/-- The text of a string. -/
def text? : Json → Option String
  | string s => s
  | _ => none

/-- The integers that a plain number stands for. -/
def integer? : Json → Option Int
  | integer n => some n
  | _ => none

/-- A truth value. -/
def bool? : Json → Option Bool
  | bool b => some b
  | _ => none

/-- The value of a number in a floating-point format. Integers are rounded once, all other numbers
    first to the double format. -/
def floating? (p : Precision) : Json → Option Floating
  | integer n => some (.ofInt p n)
  | number n => n.floating?.map (.convert p)
  | _ => none

/-- The value of a field that occurs at most once: absent, or present with a value; it fails if it
    is repeated. -/
def field? (fields : List (Option String × Json)) (name : String) : Option (Option Json) :=
  match fields.filter fun f => f.1 = some name with
  | [] => some none
  | [f] => some (some f.2)
  | _ => none

/-! ### Shapes

A reader goes down into a document by at most a given number of levels. What it ignores may be
deeper.
-/

/-- The items of an array, if the reader may go one level down. -/
def items? (levels : Nat) : Json → Option (List Json)
  | array items => if levels = 0 then none else some items
  | _ => none

/-- The fields of a structure with the given field names, in that order. An object may have other
    fields too, which are ignored; an array lists the values in order and may stop early. -/
def record? (levels : Nat) (names : List String) (j : Json) : Option (List (Option Json)) :=
  if levels = 0 then none
  else match j with
    | object fields =>
      if fields.all fun f => f.1.isSome then names.mapM (field? fields) else none
    | array items =>
      if items.length ≤ names.length then
        some (items.map some ++ List.replicate (names.length - items.length) none)
      else none
    | _ => none

/-- The tag of a value with alternatives, and what is tagged: an object with a single field. -/
def variant? (levels : Nat) (j : Json) : Option (String × Json) :=
  if levels = 0 then none
  else match j with
    | object [(some tag, content)] => some (tag, content)
    | _ => none

/-- The tag of an alternative that holds nothing, which may stand alone or be tagged to null. -/
def tag? (levels : Nat) (j : Json) : Option String :=
  match j with
  | string s => s
  | object [(some tag, null)] => if levels = 0 then none else some tag
  | _ => none

/-- The member of a list that the tag names. -/
def named? {α : Type} (levels : Nat) (name : α → String) (all : List α) (j : Json) : Option α :=
  match j.tag? levels with
  | some tag => all.find? fun a => name a = tag
  | none => none

end Json

end WhereClause
