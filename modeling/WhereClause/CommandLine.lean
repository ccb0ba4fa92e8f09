import WhereClause.CommandLine.Report
import WhereClause.Config
import WhereClause.Expr.Json

namespace WhereClause

/-!
# The command line

A call of the program as a function of its arguments and of what it can read.

- `CommandLine.Surroundings`: what a call can read
- `CommandLine.Exit`: what a call leaves behind
- `CommandLine.run`: the call
-/

namespace CommandLine

/-- What a call can read: files by name, the standard input, the configuration of the user, and the
    name of a configuration file in the environment. -/
structure Surroundings where
  file : String → Option String
  stdin : String
  userConfig : Option String
  environment : Option String

/-- Why a call fails. -/
inductive Failure where
  | noInput
  /-- A configuration file that was asked for cannot be used. -/
  | unusableConfig (name : String)
  /-- The input is not there. -/
  | unreadableInput (name : String)
  /-- The input is no tree. -/
  | invalidTree
  | error (e : Error)
  deriving DecidableEq

namespace Failure

/-- The message of a failure. -/
def message : Failure → String
  | noInput => "no input given. Pass a JSON file or `-` for stdin."
  | unusableConfig name => "reading config " ++ name
  | unreadableInput name => "reading " ++ name
  | invalidTree => "Invalid predicate tree"
  | error e => e.message

end Failure

/-- How a call ends. -/
structure Exit where
  status : Nat
  stdout : String
  failure : Option Failure
  deriving DecidableEq

/-- The configuration file that is looked for if none is named. -/
def configFile : String := "sqlpred.toml"

/-- The configuration of a call: the named file, or the first one there is of the local and the
    user's own. A dialect among the options prevails. -/
def config (s : Surroundings) (o : Options) : Except Failure Config := do
  let found ← match o.config with
    | some name => (Config.load (s.file name)).mapError fun _ => .unusableConfig name
    | none => (Config.loadDefault [s.file configFile, s.userConfig]).mapError .error
  pure { found with dialect := o.dialect.getD found.dialect }

/-- The text of the input, where a hyphen names the standard input. -/
def input (s : Surroundings) (name : String) : Except Failure String :=
  if name = "-" then .ok s.stdin
  else match s.file name with
    | some text => .ok text
    | none => .error (.unreadableInput name)

/-- The tree that a call renders, with its configuration, which is read first. -/
def task (s : Surroundings) (o : Options) : Except Failure (Config × Expr) :=
  match o.input with
  | none => .error .noInput
  | some name => do
    -- A configuration that cannot be used is reported before an input that cannot be read.
    let config ← config s o
    let text ← input s name
    match Expr.parse? text with
    | some e => .ok (config, e)
    | none => .error .invalidTree

/-- The query of a tree. -/
def query (o : Options) (c : Config) (e : Expr) : Except Error Query :=
  if o.inline then (c.renderer.inline e).map fun sql => ⟨sql, []⟩ else c.renderer.parameterized e

/-- The input in the output, if it is wanted. -/
def echo (o : Options) (e : Expr) : String :=
  if o.verbose then lines ["Input: " ++ e.text, ""] else ""

/-- A call that renders. -/
def render (s : Surroundings) (o : Options) : Exit :=
  match task s o with
  | .error failure => ⟨1, "", some failure⟩
  | .ok (c, e) =>
    match query o c e with
    | .error err => ⟨1, echo o e, some (.error err)⟩
    | .ok q => ⟨0, echo o e ++ formatted (o.format.getD .pretty) c.dialect q, none⟩

/-- A call with its arguments. -/
def run (s : Surroundings) (args : List String) : Exit :=
  match parse s.environment args with
  | .render o => render s o
  | .dialects _ => ⟨0, listing, none⟩
  | .version => ⟨0, versionText, none⟩
  | .help => ⟨0, helpText, none⟩
  | .misuse => ⟨2, "", none⟩

end CommandLine

end WhereClause
