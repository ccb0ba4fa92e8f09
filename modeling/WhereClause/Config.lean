import WhereClause.Renderer
import WhereClause.Toml.Reader

namespace WhereClause

/-!
# Configuration

The options that a configuration file sets: `dialect`, `parameters` and `max_depth`. Each may be
missing, and other keys are ignored.

- `Config`, `Config.parse`: the options, and their reading from text
- `Config.load`, `Config.loadDefault`: the options of a file, and of the first file that exists
- `Config.renderer`: a renderer with these options
-/

/-- Options of a configuration file. -/
structure Config where
  dialect : Dialect
  parameters : Policy
  maxDepth : Nat
  deriving DecidableEq

namespace Config

/-- The options if nothing is set. -/
def default : Config := ⟨.generic, .all, defaultMaxDepth⟩

/-- The name of an alternative: a string, or the only key of a table, with nothing under it. -/
def choice? : Toml → Option String
  | .string s => some s
  | .table _ [(key, .array [])] => some key
  | .table _ [(key, .table _ [])] => some key
  | _ => none

/-- A number that is not negative. -/
def count? : Toml → Option Nat
  | .integer n => if 0 ≤ n then some n.toNat else none
  | _ => none

/-- The value of a key, or its default if it is missing. -/
def keyOr {α : Type} (entries : Toml.Entries) (key : String) (default : α)
    (read : Toml → Option α) : Option α :=
  match entries.lookup key with
  | none => some default
  | some v => read v

/-- The options of a document. -/
def ofToml? (entries : Toml.Entries) : Option Config := do
  let dialect ← keyOr entries "dialect" default.dialect fun v =>
    (choice? v).bind Dialect.ofName?
  let parameters ← keyOr entries "parameters" default.parameters fun v =>
    (choice? v).bind Policy.ofName?
  let maxDepth ← keyOr entries "max_depth" default.maxDepth count?
  some ⟨dialect, parameters, maxDepth⟩

/-- The options that a text sets. The nesting limit must be positive. -/
def parse (text : String) : Except Error Config :=
  match (Toml.parse? text).bind ofToml? with
  | none => .error (.config .invalid)
  | some config => if config.maxDepth = 0 then .error (.config .zeroDepth) else .ok config

/-- The options of a file, given its text if it exists. -/
def load (file : Option String) : Except Error Config :=
  match file with
  | some text => parse text
  | none => .error .missingFile

/-- The options of the first file that exists, given their texts; without one, the defaults. -/
def loadDefault (files : List (Option String)) : Except Error Config :=
  match files.findSome? id with
  | some text => parse text
  | none => .ok default

/-- A renderer with the given options, in which columns keep their names. -/
def renderer (c : Config) : Renderer := ⟨c.dialect, c.parameters, c.maxDepth, none⟩

end Config

end WhereClause
