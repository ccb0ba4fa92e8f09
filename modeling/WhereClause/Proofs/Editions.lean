import Mathlib.Logic.Function.Basic
import WhereClause.Expr.Build
import WhereClause.Proofs.Simulation
import WhereClause.Proofs.Written

namespace WhereClause

/-!
# Two editions of one server

The compact edition has the forms of the server except for three parts of dates. The forms of these
parts have the same shape, so both editions can write the same trees and bind the same parameters,
and a tree without these parts has the same text in both.

* `Settings.SpellsAlike` — settings that write drafts of the same shape side by side;
* `SqlServer.withDateParts` — the server with three forms replaced;
* `Renderer.query_editions` — queries of both editions.
-/

/-! ### Rules that write alike -/

/-- Two settings that spell constants, columns and levels in the same way. -/
structure Settings.SpellsAlike (w w' : Settings) : Prop where
  types : w.rules.types = w'.rules.types
  literal : w.rules.literal = w'.rules.literal
  paramMark : w.rules.paramMark = w'.rules.paramMark
  mode : w.mode = w'.mode
  resolve : w.resolve = w'.resolve
  maxDepth : w.maxDepth = w'.maxDepth

/-- The same parameters and level, and also the same text if fixed texts are the same. -/
structure State.Parallel (same : Prop) (s s' : State) : Prop where
  text : same → s.text = s'.text
  bindings : s.bindings = s'.bindings
  depth : s.depth = s'.depth

namespace Settings

variable {w w' : Settings} {same : Prop}

/-- Editions that spell literals alike write a constant alike. -/
theorem SpellsAlike.writeConstant (h : w.SpellsAlike w') (place : Position) (c : Constant)
    {s s' : State} (hs : s.Parallel same s') :
    (Draft.writeConstant w place c s).Paired (State.Parallel same)
      (Draft.writeConstant w' place c s') := by
  have hput : ∀ t, (s.put t).Parallel same (s'.put t) := fun t =>
    ⟨fun h => by simp [State.put, hs.text h], hs.bindings, hs.depth⟩
  -- Everything a constant is written with is the same on both sides, so the two runs take one
  -- branch.
  simp only [Draft.writeConstant, ← h.mode, ← h.types, ← h.literal, ← h.paramMark, ← hs.bindings]
  split
  · rcases s.bindings.bind w.rules.paramMark w.rules.types place c with ⟨_ | _, b⟩
    · exact ⟨⟨hs.text, rfl, hs.depth⟩, rfl⟩
    · exact ⟨⟨(hput _).text, rfl, hs.depth⟩, rfl⟩
  · cases w.rules.literal c.value with
    | some t => exact ⟨hput t, rfl⟩
    | none => exact ⟨hs, rfl⟩

/-- Every step keeps two states parallel. -/
theorem SpellsAlike.simulates (h : w.SpellsAlike w') :
    w.Simulates w' (fun t t' => same → t = t') Eq (State.Parallel same) where
  text := fun ht hs => ⟨fun h => by simp [State.put, ht h, hs.text h], hs.bindings, hs.depth⟩
  column := fun _ _ _ hs =>
    ⟨fun hsame => by simp [State.put, h.resolve, hs.text hsame], hs.bindings, hs.depth⟩
  constant := by
    rintro ⟨place, c⟩ _ s s' rfl hs
    exact h.writeConstant place c hs
  apart := fun hs => ⟨fun _ => rfl, hs.bindings, hs.depth⟩
  added := fun hs ht => ⟨fun h => by simp [hs.text h, ht.text h], ht.bindings, ht.depth⟩
  dropped := fun hs ht => ⟨fun h => hs.text h, ht.bindings, ht.depth⟩
  depth := fun hs => hs.depth
  atDepth := fun _ _ _ hs => ⟨fun h => hs.text h, hs.bindings, rfl⟩
  limit := h.maxDepth

/-- **Rules that agree.** If two rules agree except for the fixed texts of properties, they write
    the same trees with the same parameters, and with the same text if no property of the tree has
    different texts. -/
theorem SpellsAlike.query (h : w.SpellsAlike w') (ha : w.rules.Agrees w'.rules) {e : Expr}
    (hproperty : ∀ n ∈ e.nodes, ∀ p, n.property? = some p →
      Option.Rel (List.Forall₂ (Piece.Alike fun t t' => same → t = t'))
        (w.rules.property p) (w'.rules.property p)) :
    (∃ q q', w.query e = .ok q ∧ w'.query e = .ok q' ∧ q.parameters = q'.parameters ∧
      (same → q.sql = q'.sql)) ∨
    (∃ err err', w.query e = .error err ∧ w'.query e = .error err') := by
  have hrelated : ∀ n ∈ e.nodes, ∀ p, n.property? = some p →
      Rules.PropertyRelated
        (fun s s' => Draft.Alike (fun t t' => same → t = t') Eq s.draft s'.draft)
        w.rules w'.rules p := by
    intro n hn p hp
    -- The templates of a property may differ in their texts, never in their slots.
    have hforms := hproperty n hn p hp
    unfold Rules.PropertyRelated
    revert hforms
    generalize w.rules.property p = template
    generalize w'.rules.property p = template'
    rintro (ht | _)
    · exact .some fun s s' hs => Sql.formDraft_alike ht (.cons hs .nil)
    · exact .none
  have hdrafts := (Expr.layout_related_of_agrees (Sql.alike_respects (fun _ _ => rfl) w.rules) ha
    (fun _ _ hc => by rw [hc]) (fun _ _ _ hc => .constant (by rw [hc])) (fun _ => .column)
    (Expr.alike_refl (fun _ => rfl) e) hrelated (.root 0)).predicate
  have hinitial : State.initial.Parallel same .initial := ⟨fun _ => rfl, rfl, rfl⟩
  rcases (Draft.write_simulates h.simulates hdrafts hinitial).done_or_failed with
    ⟨s, s', hs, hs', hstate⟩ | ⟨s, s', err, err', hs, hs', -⟩
  · exact .inl ⟨_, _, query_of_write hs, query_of_write hs', by rw [hstate.bindings],
      hstate.text⟩
  · exact .inr ⟨err, err', query_of_write_error hs, query_of_write_error hs'⟩

/-- Rules that agree, also in the properties of a tree, write it to the same query. -/
theorem SpellsAlike.query_eq (h : w.SpellsAlike w') (ha : w.rules.Agrees w'.rules) {e : Expr}
    (hproperty : ∀ n ∈ e.nodes, ∀ p, n.property? = some p →
      w.rules.property p = w'.rules.property p) :
    (∃ q, w.query e = .ok q ∧ w'.query e = .ok q) ∨
    (∃ err err', w.query e = .error err ∧ w'.query e = .error err') := by
  have hforms : ∀ n ∈ e.nodes, ∀ p, n.property? = some p →
      Option.Rel (List.Forall₂ (Piece.Alike fun t t' => True → t = t'))
        (w.rules.property p) (w'.rules.property p) := by
    intro n hn p hp
    rw [hproperty n hn p hp]
    cases w'.rules.property p with
    | none => exact .none
    | some t => exact .some (Sql.pieces_alike_refl (fun _ _ => rfl) t)
  rcases h.query ha hforms with
    ⟨⟨sql, parameters⟩, ⟨sql', parameters'⟩, hq, hq', hparameters, hsql⟩ | herr
  · obtain rfl : parameters = parameters' := hparameters
    obtain rfl : sql = sql' := hsql trivial
    exact .inl ⟨_, hq, hq'⟩
  · exact .inr herr

end Settings

/-! ### The editions -/

/-- The server with the forms of three parts of dates replaced. -/
def SqlServer.withDateParts : Rules :=
  { SqlServer.rules with
    property :=
      Function.update (Function.update (Function.update SqlServer.rules.property
        (.part .year) (some ["DATEPART(year, ", 0, ")"]))
        (.part .month) (some ["DATEPART(month, ", 0, ")"]))
        (.part .day) (some ["DATEPART(day, ", 0, ")"]) }

/-- A property by which the editions differ: the year, the month or the day of a date. -/
def Expr.isCalendarPart : Expr → Bool
  | member _ _ name .date => name = "Year" || name = "Month" || name = "Day"
  | _ => false

namespace SqlServerCe

/-- The smaller edition has the properties of the other, with its own parts of dates. -/
theorem property_eq : SqlServerCe.rules.property = SqlServer.withDateParts.property := by
  funext p
  cases p with
  | length => rfl
  | part p => cases p <;> rfl

/-- All properties have forms of one shape in both editions. -/
theorem property_alike (p : Property) :
    Option.Rel (List.Forall₂ (Piece.Alike fun t t' => False → t = t'))
      (SqlServerCe.rules.property p) (SqlServer.rules.property p) := by
  have hshape : ∀ {before before' after after' : String},
      Option.Rel (List.Forall₂ (Piece.Alike fun t t' => False → t = t'))
        (some [.text before, .slot 0, .text after]) (some [.text before', .slot 0, .text after']) :=
    .some (.cons (.text False.elim) (.cons .slot (.cons (.text False.elim) .nil)))
  cases p with
  | length => exact hshape
  | part p => cases p <;> exact hshape

/-- All but the three parts have the same form in both editions. -/
theorem property_eq_of_not_isCalendarPart {n : Expr} (hn : n.isCalendarPart = false)
    {p : Property} (hp : n.property? = some p) :
    SqlServerCe.rules.property p = SqlServer.rules.property p := by
  cases n with
  | member k object name family =>
    cases family with
    | date =>
      simp only [Expr.isCalendarPart, Bool.or_eq_false_iff, decide_eq_false_iff_not] at hn
      obtain ⟨part, hpart, rfl⟩ := Option.map_eq_some_iff.mp hp
      unfold Family.datePart? at hpart
      split at hpart
      · exact absurd rfl hn.1.1
      · exact absurd rfl hn.1.2
      · exact absurd rfl hn.2
      all_goals cases hpart <;> rfl
    | string =>
      obtain ⟨-, rfl⟩ : name = "Length" ∧ Property.length = p := by
        simpa [Expr.property?, Family.property?] using hp
      rfl
    | _ => simp [Expr.property?, Family.property?] at hp
  | _ => simp [Expr.property?] at hp

end SqlServerCe

namespace Renderer

/-- **Queries of both editions.** The compact edition can render a tree if and only if the server
    can, with the same parameters. Its text is what the server writes with the forms of the year,
    the month and the day replaced, and if the tree takes none of these it is the text of the
    server. -/
theorem query_editions (r : Renderer) (mode : Mode) (e : Expr) :
    let compact := { r with dialect := .sqlServerCe }.settings mode
    let server := { r with dialect := .sqlServer }.settings mode
    let replaced := { server with rules := SqlServer.withDateParts }
    (∃ q q', compact.query e = .ok q ∧ server.query e = .ok q' ∧ replaced.query e = .ok q ∧
      q.parameters = q'.parameters ∧
      ((∀ n ∈ e.nodes, n.isCalendarPart = false) → q.sql = q'.sql)) ∨
    (∃ err err' err'', compact.query e = .error err ∧ server.query e = .error err' ∧
      replaced.query e = .error err'') := by
  intro compact server replaced
  have hserver : compact.SpellsAlike server := ⟨rfl, rfl, rfl, rfl, rfl, rfl⟩
  have hreplaced : compact.SpellsAlike replaced := ⟨rfl, rfl, rfl, rfl, rfl, rfl⟩
  have hagrees : compact.rules.Agrees server.rules := by constructor <;> rfl
  have hagrees' : compact.rules.Agrees replaced.rules := by constructor <;> rfl
  have hsame := hreplaced.query_eq hagrees' (e := e) fun _ _ p _ =>
    congrFun SqlServerCe.property_eq p
  have hshape := hserver.query hagrees (e := e) fun _ _ p _ => SqlServerCe.property_alike p
  cases hq : compact.query e with
  | ok q =>
    have hq'' : replaced.query e = .ok q := by simpa [hq] using hsame
    obtain ⟨q', hq', hparameters⟩ :
        ∃ q', server.query e = .ok q' ∧ q.parameters = q'.parameters := by
      simpa [hq] using hshape
    refine .inl ⟨q, q', rfl, hq', hq'', hparameters, fun hnone => ?_⟩
    have hplain := hserver.query_eq hagrees fun n hn p hp =>
      SqlServerCe.property_eq_of_not_isCalendarPart (hnone n hn) hp
    obtain rfl : q' = q := by simpa [hq, hq'] using hplain
    rfl
  | error err =>
    obtain ⟨err'', herr''⟩ : ∃ err, replaced.query e = .error err := by simpa [hq] using hsame
    obtain ⟨err', herr'⟩ : ∃ err, server.query e = .error err := by simpa [hq] using hshape
    exact .inr ⟨err, err', err'', rfl, herr', herr''⟩

example :
    let tree := Build.binary .equal (Build.member .date "Year" (Build.column "Born" .date))
      (Build.member .date "Hour" (Build.column "Seen" .date))
    (of .sqlServerCe).inline tree = .ok "(DATEPART(year, Born) = DATEPART(hour, Seen))" ∧
      (of .sqlServer).inline tree = .ok "(YEAR(Born) = DATEPART(hour, Seen))" := by
  decide +kernel

end Renderer

end WhereClause
