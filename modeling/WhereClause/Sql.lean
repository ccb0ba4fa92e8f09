import WhereClause.Dialect.Rules
import WhereClause.Draft

namespace WhereClause

/-!
# SQL expressions

What a tree becomes in a dialect, as an expression and not yet as text: the forms that are chosen,
with their operands. Every form but the parenthesized infix ones and the lists sets its operands
apart from the text before them.

- `Sql`: the expressions
- `Sql.draft`: an expression laid out from left to right
-/

/-- An SQL expression. -/
inductive Sql where
  | column (name : String)
  | constant (place : Position) (c : Constant)
  /-- A template with its operands. -/
  | form (t : Template) (operands : List Sql)
  /-- An operator before its operand. -/
  | prefixed (token : String) (operand : Sql)
  /-- An operator between its operands, in parentheses. -/
  | infixed (token : String) (left right : Sql)
  /-- Strings joined to one; no string at all is the empty one. -/
  | concat (style : ConcatStyle) (parts : List Sql)
  /-- The first part that is not null. -/
  | coalesce (parts : List Sql)
  /-- Membership in a list; an empty list has no members. -/
  | inList (needle : Sql) (items : List Sql)
  /-- The value of the first branch whose test holds. -/
  | caseWhen (branches : List (Sql × Sql)) (otherwise : Sql)
  /-- An expression that is one level further down in the tree. -/
  | level (s : Sql)
  /-- An expression that the dialect does not have. -/
  | fault (e : Error)

namespace Sql

/-- A piece of a template among its operands. -/
def pieceDraft (t : Template) (operands : List Draft) : Piece → Draft
  | .text s => .text s
  | .slot i =>
    match operands[i]? with
    | some d => .operand d
    | none => .fault (.malformed (.operand t i operands.length))

/-- A template with its operands filled in. -/
def formDraft (t : Template) (operands : List Draft) : Draft :=
  t.foldr (fun piece rest => pieceDraft t operands piece ++ rest) .empty

/-- Joined strings: nothing is the empty literal, and a single part stands for itself. -/
def concatDraft (style : ConcatStyle) (parts : List Draft) : Draft :=
  match parts with
  | [] => .text "''"
  | [d] => d
  | ds =>
    match style with
    | .infixed token => .text "(" ++ Draft.join token ds ++ .text ")"
    | .function name => .text name ++ .text "(" ++ Draft.join ", " ds ++ .text ")"

/-- Membership in a list. The needle is not written if the list is empty. -/
def inListDraft (needle : Draft) (items : List Draft) : Draft :=
  match items with
  | [] => .text "(1 = 0)"
  | ds => .text "(" ++ needle ++ .text " in (" ++ Draft.join ", " ds ++ .text "))"

mutual

/-- An expression laid out from left to right. -/
def draft : Sql → Draft
  | column name => .column name
  | constant place c => .constant place c
  | form t operands => formDraft t (draftList operands)
  | prefixed token operand => .text token ++ .operand operand.draft
  | infixed token left right =>
    .text "(" ++ left.draft ++ .text " " ++ .text token ++ .text " " ++ right.draft ++ .text ")"
  | concat style parts => concatDraft style (draftList parts)
  | coalesce parts => .text "COALESCE(" ++ Draft.join ", " (draftList parts) ++ .text ")"
  | inList needle items => inListDraft needle.draft (draftList items)
  | caseWhen branches otherwise =>
    .text "(case" ++ draftBranches branches ++ .text " else " ++ otherwise.draft ++ .text " end)"
  | level s => .level s.draft
  | fault e => .fault e

/-- Expressions laid out one by one. -/
def draftList : List Sql → List Draft
  | [] => []
  | s :: ss => s.draft :: draftList ss

/-- The branches of a `case`. -/
def draftBranches : List (Sql × Sql) → Draft
  | [] => .empty
  | (test, value) :: rest =>
    .text " when " ++ test.draft ++ .text " then " ++ value.draft ++ draftBranches rest

end

end Sql

end WhereClause
