import Mathlib.Data.List.Forall2
import WhereClause.Proofs.Parameters

namespace WhereClause

/-!
# Parameters under two policies

Both policies meet the constants of a tree in the same order, and a constant that the narrower one
binds is bound by the wider one as well. What a policy leaves as a literal only opens gaps in the
numbering: without these the parameters under the narrower policy are some of those under the wider
one, in the same order.

* `eraseDups_filter` — whether repetitions or unwanted members are dropped first does not matter;
* `Parameter.renumber` — parameters under the names that their places in the list give them;
* `Bindings.Lists.renumber_filter` — the parameters of some constants and of a selection of them;
* `Renderer.nonNumeric_parameters` — the parameters of a tree under both policies.
-/

/-! ### Selections of constants -/

/-- The first occurrences of some members of a list are those of the list that are such members. -/
theorem eraseDups_filter {α : Type} [DecidableEq α] (keep : α → Bool) (l : List α) :
    (l.filter keep).eraseDups = l.eraseDups.filter keep := by
  induction l using List.reverseRecOn with
  | nil => rfl
  | append_singleton l a ih =>
    by_cases ha : keep a
    · have hmem : a ∈ l.filter keep ↔ a ∈ l := by simp [ha]
      rw [List.filter_append, List.filter_singleton, ha, cond_true, eraseDups_concat,
        eraseDups_concat]
      by_cases hl : a ∈ l
      · rw [if_pos (hmem.mpr hl), if_pos hl, ih]
      · rw [if_neg (fun h => hl (hmem.mp h)), if_neg hl, List.filter_append, ih]
        simp [ha]
    · rw [List.filter_append, eraseDups_concat, List.filter_singleton]
      by_cases hl : a ∈ l
      · simp [hl, ha, ih]
      · simp [hl, ha, ih]

/-- Two parameters that carry the same constant differ at most in their names. -/
theorem Parameter.Carries.eq_of_carries {types : TypeSystem} {p p' : Parameter} {c : Constant}
    (h : p.Carries types c) (h' : p'.Carries types c) : p' = { p with name := p'.name } := by
  have htype : p'.type = p.type := by
    have hsome : some p'.type = some p.type := by rw [← h'.type, ← h.type]
    exact Option.some.inj hsome
  cases p'
  simp only [Parameter.mk.injEq, true_and]
  exact ⟨h'.host.trans h.host.symm, htype, h'.value.trans h.value.symm⟩

/-- Some parameters with the names that their places in the list give them. -/
def Parameter.renumber (ps : List Parameter) : List Parameter :=
  ps.mapIdx fun i p => { p with name := Bindings.nameOf i }

/-- Parameters that are numbered in order are those that they agree with up to names, renumbered. -/
theorem Parameter.eq_renumber {ps ps' : List Parameter}
    (h : List.Forall₂ (fun p p' => p' = { p with name := p'.name }) ps ps')
    (hnames : ps'.map Parameter.name = (List.range ps'.length).map Bindings.nameOf) :
    ps' = renumber ps := by
  have hlength : ps.length = ps'.length := h.length_eq
  apply List.ext_getElem
  · rw [renumber, List.length_mapIdx, hlength]
  · intro i hi hi'
    have hname : ps'[i].name = Bindings.nameOf i := by
      have hget := congrArg (·[i]?) hnames
      simpa [hi] using hget
    have hagree : ps'[i] = { ps[i] with name := ps'[i].name } := h.get (by omega) hi
    simp only [renumber, List.getElem_mapIdx]
    rw [← hname]
    exact hagree

namespace Bindings

variable {types : TypeSystem} {b b' : Bindings} {xs : List (Position × Constant)}
  (hplaces : ∀ x ∈ xs, ∀ y ∈ xs, x.1 = y.1 → x = y)

include hplaces

/-- Where no place holds two constants, every constant is carried by the parameter of its place. -/
theorem Lists.exists_find? (h : b.Lists types xs) {x : Position × Constant} (hx : x ∈ xs) :
    ∃ p, b.find? x.1 = some p ∧ p.Carries types x.2 := by
  have hmet : x.1 ∈ b.entries.map Prod.fst := by
    rw [h.places, List.mem_eraseDups]
    exact List.mem_map_of_mem hx
  obtain ⟨⟨place, p⟩, hy, hplace⟩ := List.mem_map.mp hmet
  obtain ⟨c, hc, hcarries⟩ := h.carries _ hy
  obtain rfl : (place, c) = x := hplaces _ hc x hx hplace
  exact ⟨p, h.find?_eq hy, hcarries⟩

/-- The places of a selection of constants are those of the parameters with such values. -/
theorem Lists.places_filter (h : b.Lists types xs) (keep : Value → Bool)
    (h' : b'.Lists types (xs.filter fun x => keep x.2.value)) :
    (b.entries.filter fun y => keep y.2.value).map Prod.fst = b'.entries.map Prod.fst := by
  -- Whether a place is kept can be told from the parameter that it has.
  let keptAt (place : Position) : Bool := (b.find? place).any fun p => keep p.value
  have hentries : (b.entries.filter fun y => keep y.2.value).map Prod.fst =
      (b.entries.map Prod.fst).filter keptAt := by
    rw [List.filter_map]
    congr 1
    apply List.filter_congr
    intro y hy
    have hfound : b.find? y.1 = some y.2 := h.find?_eq hy
    simp [keptAt, hfound]
  have hconstants : (xs.filter fun x => keep x.2.value).map Prod.fst =
      (xs.map Prod.fst).filter keptAt := by
    rw [List.filter_map]
    congr 1
    apply List.filter_congr
    intro x hx
    obtain ⟨p, hfound, hcarries⟩ := h.exists_find? hplaces hx
    simp [keptAt, hfound, hcarries.value]
  rw [hentries, h'.places, hconstants, eraseDups_filter, h.places]

/-- **Selections.** The parameters of those constants whose values are selected are the parameters
    of all constants with such values, renumbered. -/
theorem Lists.renumber_filter (h : b.Lists types xs) (keep : Value → Bool)
    (h' : b'.Lists types (xs.filter fun x => keep x.2.value)) :
    b'.parameters = Parameter.renumber (b.parameters.filter fun p => keep p.value) := by
  have hsame : List.Forall₂ (fun y y' => y.1 = y'.1)
      (b.entries.filter fun y => keep y.2.value) b'.entries := by
    have hmap := h.places_filter hplaces keep h'
    rwa [← List.forall₂_eq_eq_eq, List.forall₂_map_left_iff, List.forall₂_map_right_iff] at hmap
  -- At one and the same place both lists carry the same constant, so they agree up to names.
  have hagree : List.Forall₂ (fun p p' => p' = { p with name := p'.name })
      (b.parameters.filter fun p => keep p.value) b'.parameters := by
    rw [← h.aligned.map_snd_entries, ← h'.aligned.map_snd_entries, List.filter_map,
      List.forall₂_map_left_iff, List.forall₂_map_right_iff, List.forall₂_iff_zip]
    refine ⟨hsame.length_eq, ?_⟩
    intro y y' hyy'
    obtain ⟨hy, hy'⟩ := List.of_mem_zip hyy'
    obtain ⟨c, hc, hcarries⟩ := h.carries y (List.mem_of_mem_filter hy)
    obtain ⟨c', hc', hcarries'⟩ := h'.carries y' hy'
    have hplace : y.1 = y'.1 := List.forall₂_zip hsame hyy'
    have hconstant := hplaces _ hc _ (List.mem_of_mem_filter hc') hplace
    obtain rfl : c = c' := congrArg Prod.snd hconstant
    exact hcarries.eq_of_carries hcarries'
  refine Parameter.eq_renumber hagree ?_
  rw [h'.names, h'.aligned.next_eq]

end Bindings

/-! ### Both policies -/

/-- A truth value. -/
def Value.isBool : Value → Bool
  | bool _ => true
  | _ => false

/-- The narrower policy leaves out numbers and truth values. -/
theorem Policy.binds_nonNumeric (v : Value) :
    Policy.nonNumeric.binds v = (Policy.all.binds v && !(v.isNumeric || v.isBool)) := by
  cases v <;> simp [Policy.binds, Value.isBool]

namespace Renderer

/-- **Two policies.** If a tree has a query under both policies, the parameters under the one that
    leaves out numbers and truth values are those under the other one whose values are neither, in
    the same order and with the same types, and renumbered from zero. -/
theorem nonNumeric_parameters {r : Renderer} {e : Expr} {q q' : Query}
    (hall : { r with policy := .all }.parameterized e = .ok q)
    (hnonNumeric : { r with policy := .nonNumeric }.parameterized e = .ok q') :
    q'.parameters =
      (q.parameters.filter fun p => !(p.value.isNumeric || p.value.isBool)).mapIdx
        fun i p => { p with name := "p" ++ i.repr } := by
  obtain ⟨b, h⟩ := Settings.exists_transcript hall
  obtain ⟨b', h'⟩ := Settings.exists_transcript hnonNumeric
  have hd : r.dialect.rules.Sound := r.dialect.sound
  -- The draft is the same for both, and the narrower policy binds a selection of its constants.
  let bound := (e.predicate r.dialect.rules (.root 0)).draft.constants.filter
    fun x => Policy.all.binds x.2.value
  have hbound : b.Lists r.dialect.rules.types bound := h.lists
  have hselected : b'.Lists r.dialect.rules.types
      (bound.filter fun x => !(x.2.value.isNumeric || x.2.value.isBool)) := by
    have hlists := h'.lists
    simp only [settings, Mode.binds, Policy.binds_nonNumeric] at hlists
    rw [List.filter_filter]
    simp only [Bool.and_comm]
    exact hlists
  have hplaces : ∀ x ∈ bound, ∀ y ∈ bound, x.1 = y.1 → x = y := by
    intro x hx y hy hplace
    apply List.inj_on_of_nodup_map (e.constants_nodup (.root 0)) _ _ hplace
    · exact Expr.mem_constants_of_mem_draft hd (List.mem_of_mem_filter hx)
    · exact Expr.mem_constants_of_mem_draft hd (List.mem_of_mem_filter hy)
  rw [h.parameters, h'.parameters]
  exact hbound.renumber_filter hplaces (fun v => !(v.isNumeric || v.isBool)) hselected

/-- A number is written three times between two strings. Where it is bound the second string is the
    third parameter, and otherwise the second. -/
theorem nonNumeric_parameters_indexOf :
    let r := Renderer.of .generic
    let two : Value := .int ⟨.i32, 2, by decide⟩
    let tree := Build.binary .andAlso
      (Build.binary .greaterThan
        (Build.indexOf (Build.column "Name" .string) (Build.literal (.string "an"))
          (some (Build.literal two))) (Build.column "Age" .integer))
      (Build.binary .equal (Build.column "City" .string) (Build.literal (.string "Ulm")))
    let text (name s : String) : Parameter :=
      ⟨name, .of .string, ⟨.nVarChar, false, unboundedLength, 0, 0⟩, .string s⟩
    let q : Query :=
      ⟨"(((case when POSITION(@p0 IN SUBSTRING(Name FROM @p1 + 1)) = 0 then -1 else " ++
        "POSITION(@p0 IN SUBSTRING(Name FROM @p1 + 1)) + @p1 - 1 end) > Age) and (City = @p2))",
        [text "p0" "an", ⟨"p1", .of (.int .i32), ⟨.int, true, 0, 0, 0⟩, two⟩, text "p2" "Ulm"]⟩
    let q' : Query :=
      ⟨"(((case when POSITION(@p0 IN SUBSTRING(Name FROM 2 + 1)) = 0 then -1 else " ++
        "POSITION(@p0 IN SUBSTRING(Name FROM 2 + 1)) + 2 - 1 end) > Age) and (City = @p1))",
        [text "p0" "an", text "p1" "Ulm"]⟩
    { r with policy := .all }.parameterized tree = .ok q ∧
      { r with policy := .nonNumeric }.parameterized tree = .ok q' ∧
      q'.parameters =
        (q.parameters.filter fun p => !(p.value.isNumeric || p.value.isBool)).mapIdx
          fun i p => { p with name := "p" ++ i.repr } := by
  intro r two tree text q q'
  have hqueries : { r with policy := .all }.parameterized tree = .ok q ∧
      { r with policy := .nonNumeric }.parameterized tree = .ok q' := by decide +kernel
  exact ⟨hqueries.1, hqueries.2, nonNumeric_parameters hqueries.1 hqueries.2⟩

end Renderer

end WhereClause
