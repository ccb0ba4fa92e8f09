import WhereClause.Method
import WhereClause.Template

namespace WhereClause

/-!
# Errors

Everything that can go wrong, by cause. The wording is here and nowhere else.

- `Malformed`: how a tree can break the rules its producer promises to keep
- `ConfigFault`: how a configuration can be wrong
- `Error`, `Error.message`: all causes, and their messages
-/

/-- Ways in which a tree is malformed. -/
inductive Malformed where
  /-- The tree is nested more deeply than the limit. -/
  | nesting (limit : Nat)
  /-- A method is called with a receiver it does not have, or without the one it needs. -/
  | receiver (method : String) (family : Family) (expected : Bool)
  /-- A method is called with a number of arguments it does not take. -/
  | arguments (method : String) (signature : Signature) (given : Nat)
  /-- A template has a place for an operand that is not there. -/
  | operand (template : Template) (index given : Nat)
  deriving DecidableEq

/-- Ways in which a configuration is wrong. -/
inductive ConfigFault where
  /-- A dialect goes by another name. -/
  | unknownDialect (name : String)
  /-- The nesting limit is zero. -/
  | zeroDepth
  /-- The text is not a document of the expected shape. -/
  | invalid
  deriving DecidableEq

/-- Errors by cause. -/
inductive Error where
  /-- The dialect has no form for a construct. -/
  | unsupported (dialect : String) (construct : String)
  /-- A host type has no counterpart in the database. -/
  | typeResolution (host : String)
  | malformed (cause : Malformed)
  | config (cause : ConfigFault)
  /-- A file is not there. -/
  | missingFile
  deriving DecidableEq

namespace Malformed

/-- What is wrong with a tree. -/
def message : Malformed → String
  | nesting limit => "expression nesting exceeds " ++ limit.repr ++ " levels"
  | receiver method family expected =>
    "`" ++ method ++ "` is " ++ (if expected then "an instance" else "a static") ++ " method of " ++
      family.text
  | arguments method signature given =>
    "`" ++ method ++ "` expects " ++ signature.arityText ++ " arguments, got " ++ given.repr
  | operand template index given =>
    "template `" ++ template.display ++ "` needs operand " ++ index.repr ++ " but only " ++
      given.repr ++ " given"

end Malformed

namespace ConfigFault

/-- What is wrong with a configuration. -/
def message : ConfigFault → String
  | unknownDialect name => "unknown dialect '" ++ name ++ "'"
  | zeroDepth => "max_depth must be positive"
  | invalid => "invalid document"

end ConfigFault

namespace Error

/-- The message of an error. -/
def message : Error → String
  | unsupported dialect construct => dialect ++ " dialect cannot translate `" ++ construct ++ "`"
  | typeResolution host => "No database type mapping for host type '" ++ host ++ "'"
  | malformed cause => "Malformed expression: " ++ cause.message
  | config cause => "Configuration error: " ++ cause.message
  | missingFile => "IO error: No such file or directory (os error 2)"

end Error

end WhereClause
