import WhereClause.Number.Floating

namespace WhereClause

/-!
# TOML documents

Tables of keys and values. A document builds its tables line by line, and whether a table may still
grow depends on how it came about.

- `Toml`: the values
- `Toml.Origin`: how a table came about
- `Toml.insert?`: a key with its value, possibly below other keys
- `Toml.open?`, `Toml.openItem?`: a header
-/

namespace Toml

/-- How a table came about: on the way to another table, by a key with dots, by its own header, or
    between braces. -/
inductive Origin where
  | passing
  | dotted
  | header
  | braces
  deriving DecidableEq

end Toml

/-- A TOML value. Dates and times have no use here and are not kept. `tables` is an array of tables
    that headers build. -/
inductive Toml where
  | string (s : String)
  | integer (n : Int)
  | float (x : Floating)
  | bool (b : Bool)
  | moment
  | array (items : List Toml)
  | table (origin : Toml.Origin) (entries : List (String × Toml))
  | tables (items : List (List (String × Toml)))

namespace Toml

/-- The keys of a table with their values, in order. -/
abbrev Entries := List (String × Toml)

/-- A key with another value in its place. -/
def replaceKey (key : String) (v : Toml) (entries : Entries) : Entries :=
  entries.map fun e => if e.1 = key then (key, v) else e

/-- The table at the end of a path, changed. Tables that are not there yet are made on the way, with
    the given origin. A key with dots cannot go through a table that has a header; a header goes on
    in the last item of an array of tables. -/
def alter? (made : Origin) : (path : List String) → Origin → Entries →
    (Origin → Entries → Option Entries) → Option Entries
  | [], origin, entries, change => change origin entries
  | key :: path, _, entries, change =>
    match entries.lookup key with
    | none => do
      let inner ← alter? made path made [] change
      some (entries ++ [(key, table made inner)])
    | some (table origin inner) =>
      if origin = .braces ∨ (made = .dotted ∧ origin = .header) then none
      else do
        let inner ← alter? made path origin inner change
        some (replaceKey key (table origin inner) entries)
    | some (tables items) =>
      match items.getLast? with
      | none => none
      | some last => do
        let last ← alter? made path .header last change
        some (replaceKey key (tables (items.dropLast ++ [last])) entries)
    | some _ => none

/-- A new key of a table. -/
def addKey? (key : String) (v : Toml) (entries : Entries) : Option Entries :=
  match entries.lookup key with
  | none => some (entries ++ [(key, v)])
  | some _ => none

/-- A value under a key. Keys before it name tables, which only keys with dots may have made. -/
def insert? (path : List String) (key : String) (v : Toml) (entries : Entries) : Option Entries :=
  alter? .dotted path .header entries fun origin inner =>
    if path.isEmpty ∨ origin = .dotted then addKey? key v inner else none

/-- A table by its header. It must be new, or have been passed only. -/
def open? (path : List String) (key : String) (entries : Entries) : Option Entries :=
  alter? .passing path .header entries fun _ inner =>
    match inner.lookup key with
    | none => some (inner ++ [(key, table .header [])])
    | some (table .passing found) => some (replaceKey key (table .header found) inner)
    | some _ => none

/-- The next item of an array of tables by its header. -/
def openItem? (path : List String) (key : String) (entries : Entries) : Option Entries :=
  alter? .passing path .header entries fun _ inner =>
    match inner.lookup key with
    | none => some (inner ++ [(key, tables [[]])])
    | some (tables items) => some (replaceKey key (tables (items ++ [[]])) inner)
    | some _ => none

end Toml

end WhereClause
