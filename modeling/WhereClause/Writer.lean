import WhereClause.Dialect.Rules
import WhereClause.Draft
import WhereClause.Layout
import WhereClause.Parameter

namespace WhereClause

/-!
# Writing

A draft is written into a growing text. The writer keeps the parameters bound so far and counts the
levels it has entered, and it keeps all three also when a draft fails: what was written before the
failure stays, except in an operand, which is only added when it is complete.

- `Settings`: the dialect, the mode, the names of columns and the nesting limit
- `State`: the text, the parameters and the level
- `Draft.write`: a draft written in a state
- `State.writePredicate`, `State.writeValue`: trees written one after another
-/

/-- How drafts are written. -/
structure Settings where
  rules : Rules
  mode : Mode
  /-- The name under which a column appears in the text. -/
  resolve : String → String
  maxDepth : Nat

/-- What has been written. -/
structure State where
  text : String
  bindings : Bindings
  depth : Nat

namespace State

/-- Nothing written yet. -/
def initial : State := ⟨"", .empty, 0⟩

/-- Text added at the end. -/
def put (s : State) (t : String) : State := { s with text := s.text ++ t }

end State

/-- The state after writing, and the error that ended it, if any. -/
structure Outcome where
  state : State
  error? : Option Error

namespace Outcome

/-- A complete writing. -/
def done (s : State) : Outcome := ⟨s, none⟩

/-- A writing that stopped. -/
def failed (s : State) (e : Error) : Outcome := ⟨s, some e⟩

end Outcome

/-- An operand as it follows a text: in parentheses if two hyphens would meet, which would start a
    comment. -/
def guarded (before operand : String) : String :=
  if before.endsWith '-' && operand.startsWith '-' then "(" ++ operand ++ ")" else operand

namespace Draft

/-- A constant: a parameter if its value is bound, and a literal otherwise. -/
def writeConstant (w : Settings) (place : Position) (c : Constant) (s : State) : Outcome :=
  if w.mode.binds c.value then
    match s.bindings.bind w.rules.paramMark w.rules.types place c with
    | (.ok t, bindings) => .done { s.put t with bindings }
    -- No text is added, but the bindings are those that the register answered with.
    | (.error e, bindings) => .failed { s with bindings } e
  else
    match w.rules.literal c.value with
    | some t => .done (s.put t)
    | none => .failed s (.unsupported w.rules.name c.value.text)

/-- A draft written at the end of a text. An operand is written apart and then added. A level above
    the limit fails and stays counted; any other is left again. -/
def write (w : Settings) : Draft → State → Outcome
  | empty, s => .done s
  | text t, s => .done (s.put t)
  | column name, s => .done (s.put (w.resolve name))
  | constant place c, s => writeConstant w place c s
  | append first second, s =>
    match first.write w s with
    | ⟨s', none⟩ => second.write w s'
    | ⟨s', some e⟩ => .failed s' e
  | operand d, s =>
    match d.write w { s with text := "" } with
    | ⟨s', none⟩ => .done { s' with text := s.text ++ guarded s.text s'.text }
    -- The text set apart is lost; parameters bound and levels counted in it are not.
    | ⟨s', some e⟩ => .failed { s' with text := s.text } e
  | level d, s =>
    if w.maxDepth < s.depth + 1 then
      .failed { s with depth := s.depth + 1 } (.malformed (.nesting w.maxDepth))
    else
      match d.write w { s with depth := s.depth + 1 } with
      | ⟨s', e⟩ => ⟨{ s' with depth := s'.depth - 1 }, e⟩
  | fault e, s => .failed s e

end Draft

namespace State

/-- A tree written as a condition. -/
def writePredicate (w : Settings) (p : Position) (e : Expr) (s : State) : Outcome :=
  (e.predicate w.rules p).draft.write w s

/-- A tree written as a value. -/
def writeValue (w : Settings) (p : Position) (e : Expr) (s : State) : Outcome :=
  (e.value w.rules p).draft.write w s

end State

end WhereClause
