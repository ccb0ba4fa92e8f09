import WhereClause.Toml.Scalar

namespace WhereClause

/-!
# Reading TOML

- `Toml.parse?`: the table that a text describes
-/

namespace Toml

/-- The greatest depth to which arrays and braces may be nested. -/
def maxNesting : Nat := 79

/-- The end of a line: white space, a comment, and a line break or the end of the text. -/
def lineEnd? (cs : List Char) : Option (List Char) :=
  let rest := match skipSpace cs with
    | '#' :: comment => comment.dropWhile isPlain
    | rest => rest
  match rest with
  | [] => some []
  | rest => newline? rest

/-- A text after white space, comments and line breaks. -/
def skipLines : (fuel : Nat) → List Char → List Char
  | 0, cs => cs
  | fuel + 1, cs =>
    match skipSpace cs with
    | [] => []
    | rest =>
      match lineEnd? rest with
      | some after => skipLines fuel after
      | none => rest

/-! ### Keys -/

/-- Characters of a key without quotes. -/
def isBare (c : Char) : Bool := c.isAlphanum || c = '_' || c = '-'

/-- One key. Quoted ones are on one line. -/
def readKey (cs : List Char) : Option (String × List Char) :=
  match cs with
  | '"' :: rest => (readBasic (cs.length + 1) rest).map fun (k, rest) => (String.ofList k, rest)
  | '\'' :: rest => (readLiteral rest).map fun (k, rest) => (String.ofList k, rest)
  | cs =>
    let key := cs.takeWhile isBare
    if key.isEmpty then none else some (String.ofList key, cs.dropWhile isBare)

/-- Keys with dots between them: those before the last one, and the last one. -/
def readPath : (fuel : Nat) → List Char → Option (List String × String × List Char)
  | 0, _ => none
  | fuel + 1, cs => do
    let (key, rest) ← readKey (skipSpace cs)
    match skipSpace rest with
    | '.' :: rest =>
      let (path, last, rest) ← readPath fuel rest
      some (key :: path, last, rest)
    | rest => some ([], key, rest)

/-- Keys with dots between them, of which there may be only so many as values may be nested. -/
def readDotted (cs : List Char) : Option (List String × String × List Char) :=
  (readPath (cs.length + 1) cs).filter fun (path, _, _) => path.length < maxNesting

/-- A key with its equals sign. -/
def readAssigned (cs : List Char) : Option (List String × String × List Char) := do
  let (path, key, rest) ← readDotted cs
  match rest with
  | '=' :: rest => some (path, key, skipSpace rest)
  | _ => none

/-! ### Values -/

/-- The items of an array, given how an item is read, up to its closing bracket. -/
def readItems (read : List Char → Option (Toml × List Char)) :
    (fuel : Nat) → List Char → Option (List Toml × List Char)
  | 0, _ => none
  | fuel + 1, cs =>
    match skipLines (cs.length + 1) cs with
    | ']' :: rest => some ([], rest)
    | start => do
      let (item, rest) ← read start
      match skipLines (rest.length + 1) rest with
      | ',' :: rest =>
        let (items, rest) ← readItems read fuel rest
        some (item :: items, rest)
      | ']' :: rest => some ([item], rest)
      | _ => none

/-- The entries between braces, given how a value is read, after those that are known. -/
def readEntries (read : List Char → Option (Toml × List Char)) :
    (fuel : Nat) → Entries → List Char → Option (Entries × List Char)
  | 0, _, _ => none
  | fuel + 1, entries, cs => do
    let (path, key, rest) ← readAssigned cs
    let (v, rest) ← read rest
    -- A key that is already there makes the whole table wrong, wherever its first value stands.
    let entries ← insert? path key v entries
    match skipSpace rest with
    | ',' :: rest => readEntries read fuel entries rest
    | '\x7d' :: rest => some (entries, rest)
    | _ => none

/-- A table between braces after the first of them. -/
def readBraces (read : List Char → Option (Toml × List Char)) (cs : List Char) :
    Option (Toml × List Char) :=
  match skipSpace cs with
  | '\x7d' :: rest => some (table .braces [], rest)
  | rest =>
    (readEntries read (cs.length + 1) [] rest).map fun (es, rest) => (table .braces es, rest)

/-- A value, with at most so many arrays and braces nested in it. -/
def readValue : (nesting : Nat) → List Char → Option (Toml × List Char)
  | nesting, cs =>
    match cs with
    | '"' :: _ => (readString cs).map fun (s, rest) => (string (String.ofList s), rest)
    | '\'' :: _ => (readString cs).map fun (s, rest) => (string (String.ofList s), rest)
    | '[' :: rest =>
      match nesting with
      | 0 => none
      | n + 1 =>
        (readItems (readValue n) (rest.length + 1) rest).map fun (vs, rest) => (array vs, rest)
    | '\x7b' :: rest =>
      match nesting with
      | 0 => none
      | n + 1 => readBraces (readValue n) rest
    | 't' :: 'r' :: 'u' :: 'e' :: rest => some (bool true, rest)
    | 'f' :: 'a' :: 'l' :: 's' :: 'e' :: rest => some (bool false, rest)
    | cs => readNumber cs

/-! ### Documents -/

/-- Where the lines of a document stand: below the last header, in the table read so far. -/
structure Progress where
  header : List String
  entries : Entries

namespace Progress

/-- A key and its value, below the last header. -/
def assign? (p : Progress) (path : List String) (key : String) (v : Toml) : Option Progress :=
  (alter? .passing p.header .header p.entries fun _ inner => insert? path key v inner).map
    fun entries => { p with entries }

/-- A header between brackets. -/
def enter? (p : Progress) (path : List String) (key : String) : Option Progress :=
  (open? path key p.entries).map fun entries => ⟨path ++ [key], entries⟩

/-- A header between double brackets. -/
def enterItem? (p : Progress) (path : List String) (key : String) : Option Progress :=
  (openItem? path key p.entries).map fun entries => ⟨path ++ [key], entries⟩

end Progress

/-- One line of a document after its leading white space, with the lines that its value may go on
    to. -/
def readLine (p : Progress) (cs : List Char) : Option (Progress × List Char) :=
  match cs with
  -- Two brackets first: one bracket alone would take the second for the beginning of a key.
  | '[' :: '[' :: rest => do
    let (path, key, rest) ← readDotted rest
    match rest with
    | ']' :: ']' :: rest =>
      let p ← p.enterItem? path key
      some (p, ← lineEnd? rest)
    | _ => none
  | '[' :: rest => do
    let (path, key, rest) ← readDotted rest
    match rest with
    | ']' :: rest =>
      let p ← p.enter? path key
      some (p, ← lineEnd? rest)
    | _ => none
  | cs => do
    let (path, key, rest) ← readAssigned cs
    let (v, rest) ← readValue maxNesting rest
    let p ← p.assign? path key v
    some (p, ← lineEnd? rest)

/-- All lines of a document. -/
def readLines : (fuel : Nat) → Progress → List Char → Option Progress
  | 0, _, _ => none
  | fuel + 1, p, cs =>
    match skipLines (cs.length + 1) cs with
    | [] => some p
    | rest => do
      let (p, rest) ← readLine p rest
      readLines fuel p rest

/-- The table that a text describes. A byte order mark in front does not count. -/
def parse? (text : String) : Option Entries :=
  let cs := match text.toList with
    | '\ufeff' :: rest => rest
    | cs => cs
  (readLines (cs.length + 1) ⟨[], []⟩ cs).map Progress.entries

end Toml

end WhereClause
