import WhereClause.CommandLine

namespace WhereClause

/-!
# The program

Reads what a call needs, and prints what it leaves behind.
-/

/-- The text of a file, if it can be read. -/
def readFile? (name : String) : IO (Option String) := do
  try
    let text ← IO.FS.readFile name
    return some text
  catch _ => return none

/-- The directory of the user's configuration files. -/
def configDirectory? : IO (Option String) := do
  match ← IO.getEnv "XDG_CONFIG_HOME" with
  | some dir => return some dir
  | none => return (← IO.getEnv "HOME").map (· ++ "/.config")

/-- The user's own configuration. -/
def userConfig? : IO (Option String) := do
  match ← configDirectory? with
  | some dir => readFile? (dir ++ "/sqlpred/config.toml")
  | none => return none

/-- The names of the files that a command may read. -/
def filesOf : CommandLine.Command → List String
  | .render o => CommandLine.configFile :: o.config.toList ++ o.input.toList
  | _ => []

/-- The files with the given names that can be read. -/
def readFiles : List String → IO (List (String × String))
  | [] => return []
  | name :: names => do
    let rest ← readFiles names
    match ← readFile? name with
    | some text => return (name, text) :: rest
    | none => return rest

/-- The standard input, if the command reads it. -/
def readStdin : CommandLine.Command → IO String
  | .render o => do
    if o.input = some "-" then (← IO.getStdin).readToEnd else return ""
  | _ => return ""

end WhereClause

open WhereClause in
/-- The program: its arguments, what it prints, and its exit status. -/
def main (args : List String) : IO UInt32 := do
  let environment ← IO.getEnv "SQLPRED_CONFIG"
  let command := CommandLine.parse environment args
  let files ← readFiles (filesOf command)
  let userConfig ← userConfig?
  let stdin ← readStdin command
  let exit := CommandLine.run ⟨fun name => files.lookup name, stdin, userConfig, environment⟩ args
  IO.print exit.stdout
  match exit.failure with
  | some failure => IO.eprintln ("Error: " ++ failure.message)
  | none => if exit.status ≠ 0 then IO.eprint CommandLine.helpText
  return UInt32.ofNat exit.status
