import WhereClause.Error
import WhereClause.Expr.Basic
import WhereClause.SqlType

namespace WhereClause

/-!
# Bound parameters

Constants can be handed to the database apart from the text. Each place of the tree gets at most one
parameter, however often it is written, and parameters are named `p0`, `p1`, ... in the order in
which their places are first met.

- `Policy`: which values are bound
- `Parameter`: a bound value with its types
- `Register`, `Register.bind`: the next number, the parameters and the slots of the places met so
  far
- `Bindings`, `Bindings.bind`: a register in which every slot leads to a parameter
-/

/-- Which constants become parameters: all that are not null, or only those that are neither numbers
    nor truth values. -/
inductive Policy where
  | all
  | nonNumeric
  deriving DecidableEq

namespace Policy

/-- The policy binds the value. -/
def binds (p : Policy) (v : Value) : Bool :=
  match p, v with
  | _, .null => false
  | all, _ => true
  | nonNumeric, .bool _ => false
  | nonNumeric, v => !v.isNumeric

/-- The name of a policy in documents. -/
def name : Policy → String
  | all => "all"
  | nonNumeric => "non_numeric"

/-- The policy of the given name. -/
def ofName? (name : String) : Option Policy :=
  [all, nonNumeric].find? fun p => p.name = name

end Policy

/-- How constants are written: all as literals, or those that a policy selects as parameters. -/
inductive Mode where
  | inline
  | parameterized (policy : Policy)
  deriving DecidableEq

namespace Mode

/-- The value becomes a parameter. -/
def binds : Mode → Value → Bool
  | inline, _ => false
  | parameterized policy, v => policy.binds v

end Mode

/-- A bound value. The name is without the mark of the dialect. -/
structure Parameter where
  name : String
  host : HostType
  type : QueryType
  value : Value
  deriving DecidableEq

/-- The name of the parameter with the given number. -/
def Bindings.nameOf (i : Nat) : String := "p" ++ i.repr

/-- What is kept of the parameters so far: the number of the next one, the parameters in order, and
    for every place met the slot at which its parameter stands. Nothing makes the three agree but
    the way in which places are bound. -/
structure Register where
  next : Nat
  parameters : List Parameter
  slots : List (Position × Nat)
  deriving DecidableEq

namespace Register

/-- No parameters yet. -/
def empty : Register := ⟨0, [], []⟩

/-- The slot of a place that has been met. -/
def slot? (r : Register) (place : Position) : Option Nat := r.slots.lookup place

/-- Slots with a new one for a place, instead of the one that it had. -/
def setSlot (slots : List (Position × Nat)) (place : Position) (slot : Nat) :
    List (Position × Nat) :=
  slots.filter (fun x => x.1 ≠ place) ++ [(place, slot)]

/-- The placeholder for a place: the mark of the dialect before the name of the parameter. A place
    that has been met keeps its parameter; a new one gets the next number if its host type has a
    counterpart in the database. There is no answer if a slot leads to no parameter. -/
def bind (mark : String) (types : TypeSystem) (place : Position) (c : Constant) :
    StateM Register (Option (Except Error String)) := do
  match (← get).slot? place with
  | some slot => return (← get).parameters[slot]?.map fun p => .ok (mark ++ p.name)
  | none =>
    match types.resolve? c.host with
    | none => return some (.error (.typeResolution c.host.kind.text))
    | some type =>
      let name := Bindings.nameOf (← get).next
      modify fun r => { r with slots := setSlot r.slots place r.parameters.length }
      modify fun r => { r with parameters := r.parameters ++ [⟨name, c.host, type, c.value⟩] }
      modify fun r => { r with next := r.next + 1 }
      return some (.ok (mark ++ name))

/-- The register with a parameter for one more place. -/
def granted (r : Register) (place : Position) (c : Constant) (type : QueryType) : Register :=
  ⟨r.next + 1, r.parameters ++ [⟨Bindings.nameOf r.next, c.host, type, c.value⟩],
    setSlot r.slots place r.parameters.length⟩

variable {r : Register} {mark : String} {types : TypeSystem} {place : Position} {c : Constant}

/-- A place that has been met. -/
theorem bind_of_slot {i : Nat} (h : r.slot? place = some i) :
    (bind mark types place c).run r = (r.parameters[i]?.map fun p => .ok (mark ++ p.name), r) := by
  simp only [bind, StateT.run_bind, StateT.run_get, pure_bind, h]
  rfl

/-- A new place whose type has no counterpart. -/
theorem bind_of_unresolved (h : r.slot? place = none) (ht : types.resolve? c.host = none) :
    (bind mark types place c).run r =
      (some (.error (.typeResolution c.host.kind.text)), r) := by
  simp only [bind, StateT.run_bind, StateT.run_get, pure_bind, h, ht]
  rfl

/-- A new place whose type has a counterpart. -/
theorem bind_of_resolved {type : QueryType} (h : r.slot? place = none)
    (ht : types.resolve? c.host = some type) :
    (bind mark types place c).run r =
      (some (.ok (mark ++ Bindings.nameOf r.next)), r.granted place c type) := by
  simp only [bind, StateT.run_bind, StateT.run_get, pure_bind, h, ht]
  rfl

/-- Every slot leads to a parameter. -/
def InRange (r : Register) : Prop := ∀ x ∈ r.slots, x.2 < r.parameters.length

theorem InRange.lt_length (hr : r.InRange) {i : Nat} (h : r.slot? place = some i) :
    i < r.parameters.length := by
  obtain ⟨before, after, hslots, -⟩ := List.lookup_eq_some_iff.mp h
  exact hr (place, i) (by simp [hslots])

/-- Where every slot leads to a parameter, there is an answer. -/
theorem InRange.isSome_bind (hr : r.InRange) (mark : String) (types : TypeSystem) (place : Position)
    (c : Constant) : ((bind mark types place c).run r).1.isSome := by
  cases hslot : r.slot? place with
  | some i => simp [bind_of_slot hslot, List.getElem?_eq_getElem (hr.lt_length hslot)]
  | none =>
    cases htype : types.resolve? c.host with
    | none => simp [bind_of_unresolved hslot htype]
    | some type => simp [bind_of_resolved hslot htype]

/-- And every slot still leads to one afterwards. -/
theorem InRange.bind (hr : r.InRange) (mark : String) (types : TypeSystem) (place : Position)
    (c : Constant) : ((bind mark types place c).run r).2.InRange := by
  cases hslot : r.slot? place with
  | some i => rwa [bind_of_slot hslot]
  | none =>
    cases htype : types.resolve? c.host with
    | none => rwa [bind_of_unresolved hslot htype]
    | some type =>
      rw [bind_of_resolved hslot htype]
      intro x hx
      rw [granted, List.length_append]
      rcases List.mem_append.mp hx with hx | hx
      · exact Nat.lt_add_right 1 (hr x (List.mem_filter.mp hx).1)
      · obtain rfl := List.mem_singleton.mp hx
        exact Nat.lt_succ_self _

end Register

/-- A register in which every slot leads to a parameter, so that there is always an answer. -/
structure Bindings extends Register where
  inRange : toRegister.InRange

namespace Bindings

/-- No parameters yet. -/
def empty : Bindings := ⟨.empty, fun _ hx => absurd hx List.not_mem_nil⟩

/-- The placeholder for a place, or the error if there is none, and the parameters afterwards. -/
def bind (b : Bindings) (mark : String) (types : TypeSystem) (place : Position) (c : Constant) :
    Except Error String × Bindings :=
  let result := (Register.bind mark types place c).run b.toRegister
  (result.1.get (b.inRange.isSome_bind mark types place c),
    ⟨result.2, b.inRange.bind mark types place c⟩)

end Bindings

end WhereClause
