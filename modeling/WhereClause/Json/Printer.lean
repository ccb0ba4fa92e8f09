import WhereClause.Json.Basic

namespace WhereClause

/-!
# Writing JSON

- `Json.compact`: a document without white space
- `Json.pretty`: a document with a line for every item, indented by two blanks a level
-/

namespace Json

/-- A character inside a string. Quotes, backslashes and control characters are escaped. -/
def escaped (c : Char) : List Char :=
  if c = '"' then ['\\', '"']
  else if c = '\\' then ['\\', '\\']
  else if c = '\x08' then ['\\', 'b']
  else if c = '\t' then ['\\', 't']
  else if c = '\n' then ['\\', 'n']
  else if c = '\x0c' then ['\\', 'f']
  else if c = '\r' then ['\\', 'r']
  else if c < ' ' then
    ['\\', 'u', '0', '0', Nat.digitChar (c.toNat / 16), Nat.digitChar (c.toNat % 16)]
  else [c]

/-- A string with its quotes. One that names no characters is written empty. -/
def quoted (s : Option String) : String :=
  match s with
  | some s => String.ofList ('"' :: s.toList.flatMap escaped ++ ['"'])
  | none => "\"\""

/-- Texts with a text between them. -/
def between (separator : String) : List String → String
  | [] => ""
  | s :: ss => ss.foldl (fun written s => written ++ separator ++ s) s

mutual

/-- A document without white space. -/
def compact : Json → String
  | null => "null"
  | bool b => if b then "true" else "false"
  | integer n => n.repr
  | number n => String.ofList n.text
  | string s => quoted s
  | array items => "[" ++ between "," (compactItems items) ++ "]"
  | object fields => "\x7b" ++ between "," (compactFields fields) ++ "\x7d"

/-- The items of an array without white space. -/
def compactItems : List Json → List String
  | [] => []
  | j :: js => compact j :: compactItems js

/-- The fields of an object without white space. -/
def compactFields : List (Option String × Json) → List String
  | [] => []
  | (name, value) :: rest => (quoted name ++ ":" ++ compact value) :: compactFields rest

end

/-- A new line with the indentation of a level. -/
def newLine (level : Nat) : String :=
  "\n" ++ String.ofList (List.replicate (2 * level) ' ')

/-- Items between brackets on lines of their own; brackets around nothing stand together. -/
def block (opening closing : String) (level : Nat) (items : List String) : String :=
  match items with
  | [] => opening ++ closing
  | items =>
    opening ++ newLine (level + 1) ++ between ("," ++ newLine (level + 1)) items ++
      newLine level ++ closing

mutual

/-- A document with a line for every item, whose first line is at the given level. -/
def prettyAt (level : Nat) : Json → String
  | array items => block "[" "]" level (prettyItems level items)
  | object fields => block "\x7b" "\x7d" level (prettyFields level fields)
  | null => "null"
  | bool b => if b then "true" else "false"
  | integer n => n.repr
  | number n => String.ofList n.text
  | string s => quoted s

/-- The items of an array at the given level. -/
def prettyItems (level : Nat) : List Json → List String
  | [] => []
  | j :: js => prettyAt (level + 1) j :: prettyItems level js

/-- The fields of an object at the given level. -/
def prettyFields (level : Nat) : List (Option String × Json) → List String
  | [] => []
  | (name, value) :: rest =>
    (quoted name ++ ": " ++ prettyAt (level + 1) value) :: prettyFields level rest

end

/-- A document with a line for every item. -/
def pretty (j : Json) : String := prettyAt 0 j

end Json

end WhereClause
