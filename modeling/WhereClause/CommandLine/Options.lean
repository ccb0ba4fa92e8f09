import WhereClause.Dialect

namespace WhereClause

/-!
# Command-line options

What the arguments of a call ask for. Options may stand before and after the input, short ones may
share a hyphen, and after `--` nothing is an option any more.

- `CommandLine.Options`, `CommandLine.Command`: what a call asks for
- `CommandLine.parse`: the command that the arguments spell
-/

namespace CommandLine

/-- Output formats. -/
inductive Format where
  | sql
  | json
  | pretty
  deriving DecidableEq

namespace Format

/-- The format of the given name. -/
def ofName? : String → Option Format
  | "sql" => some sql
  | "json" => some json
  | "pretty" => some pretty
  | _ => none

end Format

/-- The options given so far. -/
structure Options where
  input : Option String
  dialect : Option Dialect
  format : Option Format
  config : Option String
  inline : Bool
  verbose : Bool
  deriving DecidableEq

/-- What a call asks for. `misuse` is a call that makes no sense. -/
inductive Command where
  | render (o : Options)
  | dialects (o : Options)
  | version
  | help
  | misuse
  deriving DecidableEq

/-- Options that take a value. -/
inductive Setting where
  | dialect
  | format
  | config

/-- Options without a value. -/
inductive Switch where
  | inline
  | verbose
  | version
  | help

/-- An option of either kind. -/
inductive Flag where
  | setting (s : Setting)
  | switch (s : Switch)

namespace Flag

/-- The option with a short name. -/
def ofShort? : Char → Option Flag
  | 'd' => some (setting .dialect)
  | 'f' => some (setting .format)
  | 'c' => some (setting .config)
  | 'v' => some (switch .verbose)
  | 'h' => some (switch .help)
  | 'V' => some (switch .version)
  | _ => none

/-- The option with a long name. -/
def ofLong? : String → Option Flag
  | "dialect" => some (setting .dialect)
  | "format" => some (setting .format)
  | "config" => some (setting .config)
  | "inline" => some (switch .inline)
  | "verbose" => some (switch .verbose)
  | "help" => some (switch .help)
  | "version" => some (switch .version)
  | _ => none

end Flag

/-- What reading an argument leads to: a finished command, the options up to there, or a setting
    whose value is the next argument. -/
inductive Step where
  | stop (c : Command)
  | go (o : Options)
  | await (s : Setting) (o : Options)

namespace Options

/-- No options. -/
def empty : Options := ⟨none, none, none, none, false, false⟩

/-- A setting with its value. No setting may be repeated, and a file name is not empty. -/
def set (o : Options) (s : Setting) (value : String) : Step :=
  match s with
  | .dialect =>
    match o.dialect, Dialect.ofName? value with
    | none, some d => .go { o with dialect := some d }
    | _, _ => .stop .misuse
  | .format =>
    match o.format, Format.ofName? value with
    | none, some f => .go { o with format := some f }
    | _, _ => .stop .misuse
  | .config =>
    if o.config.isNone ∧ value ≠ "" then .go { o with config := some value } else .stop .misuse

/-- A switch. Those that ask for information end the reading. -/
def switch (o : Options) : Switch → Step
  | .inline => if o.inline then .stop .misuse else .go { o with inline := true }
  | .verbose => if o.verbose then .stop .misuse else .go { o with verbose := true }
  | .version => .stop .version
  | .help => .stop .help

/-- The input, of which there is only one. -/
def setInput (o : Options) (name : String) : Step :=
  match o.input with
  | none => .go { o with input := some name }
  | some _ => .stop .misuse

/-- Short options that share a hyphen. What follows one with a value is its value, with or without
    an equals sign. -/
def shorts (o : Options) : List Char → Step
  | [] => .go o
  | c :: cs =>
    match Flag.ofShort? c with
    | none => .stop .misuse
    | some (.setting s) =>
      match cs with
      | [] => .await s o
      | '=' :: value => o.set s (String.ofList value)
      -- What follows the letter is taken as the value even if it spells further options.
      | value => o.set s (String.ofList value)
    | some (.switch s) =>
      match o.switch s with
      | .go o => shorts o cs
      | step => step

/-- A long option, possibly with a value after an equals sign. -/
def long (o : Options) (cs : List Char) : Step :=
  let name := String.ofList (cs.takeWhile (· ≠ '='))
  match Flag.ofLong? name, cs.dropWhile (· ≠ '=') with
  | some (.setting s), _ :: value => o.set s (String.ofList value)
  | some (.setting s), [] => .await s o
  | some (.switch s), [] => o.switch s
  | some (.switch _), _ :: _ => .stop .misuse
  | none, _ => .stop .misuse

/-- An argument that is not the value of a setting. A hyphen alone is an input. -/
def argument (o : Options) (arg : String) : Step :=
  match arg.toList with
  | ['-'] => o.setInput arg
  | '-' :: '-' :: cs => o.long cs
  | '-' :: cs => o.shorts cs
  | _ => o.setInput arg

end Options

/-- The arguments after `--`. -/
def readInputs (o : Options) : List String → Step
  | [] => .go o
  | arg :: args =>
    match o.setInput arg with
    | .go o => readInputs o args
    | step => step

/-- An argument can be the value of a setting before it. -/
def isValue (arg : String) : Bool :=
  match arg.toList with
  | ['-'] => true
  | '-' :: _ => false
  | _ => true

/-- The arguments after a command that lists the dialects: nothing may follow. -/
def readListing (o : Options) : List String → Command
  | [] => .dialects o
  | ["--"] => .dialects o
  | "-h" :: _ => .help
  | "--help" :: _ => .help
  | _ => .misuse

/-- The arguments after a command that asks for help, which may name another command. -/
def readHelp : List String → Command
  | [] => .help
  | ["dialects"] => .help
  | ["help"] => .help
  | _ => .misuse

/-- The end of the options: a finished command, or rendering. -/
def finish : Step → Command
  | .stop c => c
  | .go o => .render o
  | .await _ _ => .misuse

/-- The arguments one by one. -/
def readArguments (o : Options) : List String → Command
  | [] => .render o
  | "--" :: args => finish (readInputs o args)
  | "dialects" :: args => readListing o args
  | "help" :: args => readHelp args
  | arg :: args =>
    match o.argument arg with
    | .stop c => c
    | .go o => readArguments o args
    | .await s o =>
      match args with
      | [] => .misuse
      | value :: args =>
        -- A setting does not swallow an option that follows it.
        if isValue value then
          match o.set s value with
          | .go o => readArguments o args
          | step => finish step
        else .misuse

/-- The options with the configuration that the environment names, which counts if the arguments
    name none. It has to be a name too. -/
def withEnvironment (environment : Option String) (o : Options) : Option Options :=
  match o.config, environment with
  | none, some name => if name = "" then none else some { o with config := some name }
  | _, _ => some o

/-- The command that the arguments spell. -/
def parse (environment : Option String) (args : List String) : Command :=
  match readArguments .empty args with
  | .render o =>
    match withEnvironment environment o with
    | some o => .render o
    | none => .misuse
  | .dialects o =>
    match withEnvironment environment o with
    | some o => .dialects o
    | none => .misuse
  | c => c

end CommandLine

end WhereClause
