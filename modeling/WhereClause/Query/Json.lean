import WhereClause.Query
import WhereClause.Value.Json

namespace WhereClause

/-!
# Queries as documents

- `QueryType.toJson`, `Parameter.toJson`, `Query.toJson`
-/

namespace QueryType

/-- The fields of a resolved type. -/
def fields (t : QueryType) : List (String × Json) :=
  [("sql_type", t.sqlType.name), ("not_null", .bool t.notNull), ("length", .integer t.length),
    ("precision", .integer t.precision), ("scale", .integer t.scale)]

/-- A resolved type with all its fields. -/
def toJson (t : QueryType) : Json := .ofFields t.fields

end QueryType

namespace Parameter

/-- A parameter with all its fields. -/
def toJson (style : FloatStyle) (p : Parameter) : Json :=
  .ofFields [("name", p.name), ("host_type", p.host.toJson), ("query_type", p.type.toJson),
    ("value", p.value.toJson style)]

end Parameter

namespace Query

/-- A query with its parameters. -/
def toJson (style : FloatStyle) (q : Query) : Json :=
  .ofFields [("sql", q.sql), ("params", .array (q.parameters.map (Parameter.toJson style)))]

end Query

end WhereClause
