import WhereClause.Dialect.Access
import WhereClause.Dialect.Generic
import WhereClause.Dialect.MySql
import WhereClause.Dialect.Oracle
import WhereClause.Dialect.SqlServer
import WhereClause.Dialect.Sqlite
import WhereClause.Error

namespace WhereClause

/-!
# Dialects

The seven dialects by name.

- `Dialect`, `Dialect.rules`: the dialects and their forms
- `Dialect.ofAlias?`: the dialect a person names, in any case and by common short names
- `Dialect.ofName?`: the dialect a configuration names, exactly
-/

/-- The supported dialects. -/
inductive Dialect where
  | generic
  | sqlServer
  | sqlServerCe
  | oracle
  | sqlite
  | access
  | mySql
  deriving DecidableEq

namespace Dialect

/-- All dialects, in the order in which they are listed. -/
def all : List Dialect := [generic, sqlServer, sqlServerCe, oracle, sqlite, access, mySql]

/-- The forms of a dialect. -/
def rules : Dialect → Rules
  | generic => Generic.rules
  | sqlServer => SqlServer.rules
  | sqlServerCe => SqlServerCe.rules
  | oracle => Oracle.rules
  | sqlite => Sqlite.rules
  | access => Access.rules
  | mySql => MySql.rules

/-- The name of a dialect. -/
def name (d : Dialect) : String := d.rules.name

/-- The dialect of exactly the given name. -/
def ofName? (name : String) : Option Dialect :=
  all.find? fun d => d.name = name

/-- A text with its ASCII letters in lower case. -/
def lowered (name : String) : String :=
  String.ofList (name.toList.map Char.toLower)

/-- The dialect that goes by a name or a common short name, in any case. -/
def ofAlias? (name : String) : Except Error Dialect :=
  match lowered name with
  | "ansi" => .ok generic
  | "mssql" => .ok sqlServer
  | "tsql" => .ok sqlServer
  | "sqlce" => .ok sqlServerCe
  | name =>
    match ofName? name with
    | some d => .ok d
    | none => .error (.config (.unknownDialect name))

end Dialect

end WhereClause
