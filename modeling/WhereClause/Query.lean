import WhereClause.Parameter

namespace WhereClause

/-!
# Queries

What a rendered tree is: the text after `WHERE`, and the parameters that stand in it.
-/

/-- The text of a condition, and the parameters it mentions in order. -/
structure Query where
  sql : String
  parameters : List Parameter
  deriving DecidableEq

end WhereClause
