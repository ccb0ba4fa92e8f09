import WhereClause.Dialect
import WhereClause.Query
import WhereClause.Writer

namespace WhereClause

/-!
# Rendering

Predicate trees as queries.

- `Settings.query`: a tree in given settings
- `Renderer`: options for any number of trees, with `Renderer.inline` and `Renderer.parameterized`
-/

namespace Settings

/-- A tree as a condition, written after what a state already holds. -/
def queryFrom (w : Settings) (p : Position) (s : State) (e : Expr) : Except Error Query :=
  match s.writePredicate w p e with
  | ⟨s', none⟩ => .ok ⟨s'.text, s'.bindings.parameters⟩
  | ⟨_, some err⟩ => .error err

/-- A tree as a condition. -/
def query (w : Settings) (e : Expr) : Except Error Query :=
  w.queryFrom (.root 0) .initial e

end Settings

/-- The nesting limit if none is given. -/
def defaultMaxDepth : Nat := 256

/-- Options for rendering. Without a resolver columns keep their names. -/
structure Renderer where
  dialect : Dialect
  policy : Policy
  maxDepth : Nat
  resolver : Option (String → String)

namespace Renderer

/-- A dialect with every other option at its default. -/
def of (dialect : Dialect) : Renderer := ⟨dialect, .all, defaultMaxDepth, none⟩

/-- The settings for a mode. -/
def settings (r : Renderer) (mode : Mode) : Settings where
  rules := r.dialect.rules
  mode := mode
  resolve := r.resolver.getD id
  maxDepth := r.maxDepth

/-- A tree as text with all constants as literals. -/
def inline (r : Renderer) (e : Expr) : Except Error String :=
  ((r.settings .inline).query e).map Query.sql

/-- A tree as text with the constants that the policy selects as parameters. -/
def parameterized (r : Renderer) (e : Expr) : Except Error Query :=
  (r.settings (.parameterized r.policy)).query e

end Renderer

end WhereClause
