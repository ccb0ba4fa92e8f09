namespace WhereClause

/-!
# SQL string literals

A text between single quotes, in which a quote is written twice. Where the reader of the literal
treats the backslash as an escape, a backslash is written twice as well.

- `Text.double`: a text with one character written twice
- `Text.quote`: the literal of a text
- `Text.quoteEscaping`: the literal for readers with backslash escapes
-/

namespace Text

/-- Every occurrence of one character written twice, and all else once. -/
def double (q : Char) : List Char → List Char
  | [] => []
  | c :: cs => if c = q then q :: q :: double q cs else c :: double q cs

/-- A text between single quotes, with its own quotes doubled. -/
def quote (cs : List Char) : List Char :=
  '\'' :: double '\'' cs ++ ['\'']

/-- A text between single quotes, with its backslashes and quotes doubled. -/
def quoteEscaping (cs : List Char) : List Char :=
  '\'' :: double '\'' (double '\\' cs) ++ ['\'']

end Text

end WhereClause
