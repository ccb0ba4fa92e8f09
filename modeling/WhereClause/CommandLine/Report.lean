import WhereClause.Json.Printer
import WhereClause.Query.Json
import WhereClause.Renderer
import WhereClause.CommandLine.Options

namespace WhereClause

/-!
# Output of the command line

- `CommandLine.pretty`: a query with a table of its parameters
- `CommandLine.listing`: a table of the dialects
- `CommandLine.formatted`: a query in a given format
-/

namespace CommandLine

/-- A text filled with blanks up to a width. Longer texts are not cut. -/
def padded (width : Nat) (s : String) : String :=
  s ++ String.ofList (List.replicate (width - s.length) ' ')

/-- Texts on lines of their own. -/
def lines (texts : List String) : String :=
  String.join (texts.map fun t => t ++ "\n")

/-- A horizontal line. -/
def rule (width : Nat) : String :=
  String.ofList (List.replicate width '─')

/-- A row of the table of parameters. -/
def parameterRow (name type host value : String) : String :=
  padded 10 name ++ " " ++ padded 28 type ++ " " ++ padded 24 host ++ " " ++ value

/-- A query, and a table of its parameters if it has any. -/
def pretty (dialect : Dialect) (q : Query) : String :=
  let clause := ["WHERE " ++ q.sql]
  let row := fun (p : Parameter) =>
    parameterRow (dialect.rules.paramMark ++ p.name) p.type.text p.host.text p.value.text
  match q.parameters with
  | [] => lines clause
  | ps => lines (clause ++ ["", parameterRow "Name" "Type" "Host" "Value", rule 80] ++ ps.map row)

/-- A query in the given format. -/
def formatted (format : Format) (dialect : Dialect) (q : Query) : String :=
  match format with
  | .sql => lines [q.sql]
  | .json => lines [(q.toJson FloatStyle.number).pretty]
  | .pretty => pretty dialect q

/-- A text without the white space around it. -/
def trimmed (s : String) : String :=
  String.ofList (Text.dropBlanks (Text.dropBlanks s.toList).reverse).reverse

/-- How a dialect joins strings: its operator, or its function. -/
def concatName : ConcatStyle → String
  | .infixed token => trimmed token
  | .function name => name ++ "()"

/-- A row of the table of dialects. -/
def dialectRow (name mark concat : String) : String :=
  padded 14 name ++ " " ++ padded 8 mark ++ " " ++ concat

/-- The table of dialects. -/
def listing : String :=
  lines (["Supported dialects", "", dialectRow "Name" "Prefix" "Concat", rule 40] ++
    Dialect.all.map fun d => dialectRow d.name d.rules.paramMark (concatName d.rules.concat))

/-- The name and version of the program. -/
def versionText : String := lines ["sqlpred 0.3.0"]

/-- How the program is called. -/
def helpText : String :=
  lines [
    "Usage: sqlpred [OPTIONS] [INPUT] [COMMAND]",
    "",
    "Commands:",
    "  dialects  List supported dialects",
    "  help      Print this message",
    "",
    "Arguments:",
    "  [INPUT]  JSON predicate tree file, or `-` for stdin",
    "",
    "Options:",
    "  -d, --dialect <DIALECT>  Target SQL dialect",
    "      --inline             Inline literals instead of binding parameters",
    "  -f, --format <FORMAT>    Output format: sql, json or pretty",
    "  -c, --config <CONFIG>    Config file",
    "  -v, --verbose            Verbose output",
    "  -h, --help               Print help",
    "  -V, --version            Print version"]

end CommandLine

end WhereClause
