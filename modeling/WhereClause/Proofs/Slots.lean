import WhereClause.Proofs.Sessions

namespace WhereClause

/-!
# Parameters over many requests

The writer asks for the parameter of a place whenever it comes to the place, and it may ask under
another mark, for another dialect, or in vain. A request changes the next number, the list of
parameters and the slots of the places one after the other, and looks a slot up in the list without
asking whether it is there. However the requests follow each other, the three agree after each of
them, and places and slots correspond one to one. A place that has its parameter keeps it, and a
request that fails leaves no trace.

* `Register.Kept` — what every request keeps;
* `Register.Coherent` — numbers, places and slots agree;
* `Request` — one request, with its answer and the register after it;
* `Request.log` — requests one after another;
* `Request.run_coherent` — what holds after any requests.

The writer goes through the same register (`Bindings.run_register`).
-/

/-! ### Registers -/

namespace Register

/-- Numbers, places and slots agree. The next number is the length of the list, every parameter is
    named by its slot, and each slot of the list belongs to exactly one place. -/
structure Coherent (r : Register) : Prop where
  count : r.next = r.parameters.length
  names : ∀ (i : Nat) (p : Parameter), r.parameters[i]? = some p → p.name = "p" ++ i.repr
  onto : ∀ i, i < r.parameters.length ↔ ∃ place, r.slot? place = some i
  injective : ∀ place place' i, r.slot? place = some i → r.slot? place' = some i → place = place'

/-- What every request keeps: slots are given out in order, names by their numbers, and no place has
    two slots. -/
structure Kept (r : Register) : Prop where
  aligned : r.Aligned
  numbered : r.Numbered
  distinct : (r.slots.map Prod.fst).Nodup

/-- A register starts well. -/
theorem kept_empty : empty.Kept := ⟨aligned_empty, rfl, List.nodup_nil⟩

variable {r : Register} {place : Position} {i : Nat}

/-- In an aligned register no slot leads out of the list. -/
theorem Aligned.inRange (h : r.Aligned) : r.InRange := by
  intro x hx
  have hmem : x.2 ∈ r.slots.map Prod.snd := List.mem_map_of_mem hx
  rw [h.slots_eq] at hmem
  exact List.mem_range.mp hmem

namespace Kept

/-- A new place is added without harm. -/
theorem push (h : r.Kept) (hnew : r.slot? place = none) {p : Parameter}
    (hp : p.name = Bindings.nameOf r.next) : (r.push place p).Kept where
  aligned := h.aligned.push place p
  numbered := h.numbered.push place hp
  distinct := by
    rw [Register.push, List.map_append, List.map_singleton, List.nodup_append_comm]
    exact List.nodup_cons.mpr ⟨slot?_eq_none_iff.mp hnew, h.distinct⟩

/-- As no place has two slots, the slot that stands with a place is the one that is found. -/
theorem slot?_eq (h : r.Kept) (hmem : (place, i) ∈ r.slots) : r.slot? place = some i := by
  cases hslot : r.slot? place with
  | none => exact absurd (List.mem_map_of_mem hmem) (slot?_eq_none_iff.mp hslot)
  | some j =>
    have hj : (place, j) ∈ r.slots := List.mem_of_getElem? (h.aligned.getElem?_slots hslot)
    have hsame := List.inj_on_of_nodup_map h.distinct hj hmem rfl
    rw [(Prod.mk.inj hsame).2]

/-- The slot of a place holds a parameter, which is named by it. -/
theorem exists_parameter (h : r.Kept) (hi : r.slot? place = some i) :
    ∃ p, r.parameters[i]? = some p ∧ p.name = "p" ++ i.repr := by
  have hp := List.getElem?_eq_getElem (h.aligned.inRange.lt_length hi)
  exact ⟨_, hp, h.numbered.name_eq hp⟩

/-- In a register that is kept, places, slots, names and counter fit together. -/
theorem coherent (h : r.Kept) : r.Coherent where
  count := h.aligned.next_eq
  names _ _ hp := h.numbered.name_eq hp
  onto i := by
    constructor
    · intro hi
      -- The slot with this number stands at this index, next to the place that it belongs to.
      have hlength : i < r.slots.length := by rwa [h.aligned.length_slots]
      have hslot : r.slots[i].2 = i := by
        have hrange : (r.slots.map Prod.snd)[i]? = some i := by
          rw [h.aligned.slots_eq, List.getElem?_range hi]
        simpa [hlength] using hrange
      refine ⟨r.slots[i].1, h.slot?_eq ?_⟩
      nth_rewrite 2 [← hslot]
      exact List.getElem_mem hlength
    · rintro ⟨place, hslot⟩
      exact h.aligned.inRange.lt_length hslot
  injective place place' i hi hi' := by
    have hsame := (h.aligned.getElem?_slots hi).symm.trans (h.aligned.getElem?_slots hi')
    exact (Prod.mk.inj (Option.some.inj hsame)).1

end Kept

end Register

/-! ### Requests -/

/-- A request for the parameter of a place. -/
structure Request where
  place : Position
  constant : Constant
  mark : String
  types : TypeSystem

namespace Request

open Register

/-- What is written in answer, or the error, and the register after the request. -/
def perform (q : Request) (r : Register) : Option (Except Error String) × Register :=
  (Register.bind q.mark q.types q.place q.constant).run r

/-- The answer to a request; there is none if a slot leads out of the list. -/
def answer (q : Request) (r : Register) : Option (Except Error String) := (q.perform r).1

/-- The register after a request, whether it was answered or failed. -/
def after (q : Request) (r : Register) : Register := (q.perform r).2

/-- The register after requests one after another. -/
def run (qs : List Request) (r : Register) : Register := qs.foldl (fun r q => q.after r) r

/-- Requests one after another, each with its answer. -/
def log : List Request → Register → List (Request × Option (Except Error String))
  | [], _ => []
  | q :: qs, r => (q, q.answer r) :: log qs (q.after r)

/-- The parameter of a place that is new. -/
def granted (q : Request) (r : Register) (type : QueryType) : Parameter :=
  ⟨Bindings.nameOf r.next, q.constant.host, type, q.constant.value⟩

variable {r : Register}

/-- A request for a place that has its slot. -/
theorem of_slot? {q : Request} {i : Nat} (h : r.slot? q.place = some i) :
    q.answer r = r.parameters[i]?.map (fun p => .ok (q.mark ++ p.name)) ∧ q.after r = r :=
  Prod.mk.inj (Register.bind_of_slot h)

/-- A request for a new place whose type has no counterpart. -/
theorem of_unresolved {q : Request} (hnew : r.slot? q.place = none)
    (htype : q.types.resolve? q.constant.host = none) :
    q.answer r = some (.error (.typeResolution q.constant.host.kind.text)) ∧ q.after r = r :=
  Prod.mk.inj (Register.bind_of_unresolved hnew htype)

/-- A request for a new place whose type has a counterpart. -/
theorem of_resolved {q : Request} {type : QueryType} (hnew : r.slot? q.place = none)
    (htype : q.types.resolve? q.constant.host = some type) :
    q.answer r = some (.ok (q.mark ++ Bindings.nameOf r.next)) ∧
      q.after r = r.push q.place (q.granted r type) := by
  have hperform : q.perform r = (some (.ok (q.mark ++ Bindings.nameOf r.next)),
      r.granted q.place q.constant type) := Register.bind_of_resolved hnew htype
  obtain ⟨hanswer, hafter⟩ := Prod.mk.inj hperform
  exact ⟨hanswer, hafter.trans (granted_eq hnew type)⟩

/-- **One request.** The place has its slot already, or its type has no counterpart, or it gets the
    next parameter. -/
theorem outcome (q : Request) (r : Register) :
    (∃ i, r.slot? q.place = some i ∧
      q.answer r = r.parameters[i]?.map (fun p => .ok (q.mark ++ p.name)) ∧ q.after r = r) ∨
    (r.slot? q.place = none ∧ q.types.resolve? q.constant.host = none ∧
      q.answer r = some (.error (.typeResolution q.constant.host.kind.text)) ∧ q.after r = r) ∨
    ∃ type, r.slot? q.place = none ∧ q.types.resolve? q.constant.host = some type ∧
      q.answer r = some (.ok (q.mark ++ Bindings.nameOf r.next)) ∧
      q.after r = r.push q.place (q.granted r type) := by
  cases hslot : r.slot? q.place with
  | some i => exact .inl ⟨i, rfl, of_slot? hslot⟩
  | none =>
    cases htype : q.types.resolve? q.constant.host with
    | none => exact .inr (.inl ⟨rfl, rfl, of_unresolved hslot htype⟩)
    | some type => exact .inr (.inr ⟨type, rfl, rfl, of_resolved hslot htype⟩)

/-- A request leaves what was there before, also if it fails. -/
theorem le_after (q : Request) (r : Register) : r ≤ q.after r := by
  rcases q.outcome r with ⟨_, -, -, hafter⟩ | ⟨-, -, -, hafter⟩ | ⟨_, -, -, -, hafter⟩
  · rw [hafter]
    exact r.le_refl
  · rw [hafter]
    exact r.le_refl
  · rw [hafter]
    exact r.le_push _ _

/-- **What a request keeps.** The fields change one after the other, and agree again in the end. -/
theorem kept_after (q : Request) (hr : r.Kept) : (q.after r).Kept := by
  rcases q.outcome r with ⟨_, -, -, hafter⟩ | ⟨-, -, -, hafter⟩ | ⟨_, hnew, -, -, hafter⟩
  · rwa [hafter]
  · rwa [hafter]
  · rw [hafter]
    exact hr.push hnew rfl

/-- As no slot leads out of the list, every request has an answer. -/
theorem isSome_answer (q : Request) (hr : r.Kept) : (q.answer r).isSome :=
  hr.aligned.inRange.isSome_bind q.mark q.types q.place q.constant

/-- A request for a place that has its slot is answered by the number of the slot. -/
theorem answer_of_slot? {q : Request} {i : Nat} (hr : r.Kept) (h : r.slot? q.place = some i) :
    q.answer r = some (.ok (q.mark ++ ("p" ++ i.repr))) := by
  obtain ⟨p, hp, hname⟩ := hr.exists_parameter h
  rw [(of_slot? h).1, hp, ← hname]
  rfl

/-- The place of a request that is answered has the slot of the answer from then on. -/
theorem slot?_of_answer {q : Request} {t : String} (hr : r.Kept)
    (h : q.answer r = some (.ok t)) :
    ∃ i : Nat, t = q.mark ++ ("p" ++ i.repr) ∧ (q.after r).slot? q.place = some i := by
  rcases q.outcome r with
    ⟨i, hslot, -, hafter⟩ | ⟨-, -, hanswer, -⟩ | ⟨type, hnew, -, hanswer, hafter⟩
  · have hsame := (answer_of_slot? hr hslot).symm.trans h
    exact ⟨i, (Except.ok.inj (Option.some.inj hsame)).symm, by rwa [hafter]⟩
  · exact absurd (hanswer.symm.trans h) (by simp)
  · have hsame := Except.ok.inj (Option.some.inj (hanswer.symm.trans h))
    refine ⟨r.next, hsame.symm, ?_⟩
    rw [hafter, slot?_push hnew, hr.aligned.next_eq]

/-- A request that fails is for a new place whose type has no counterpart. -/
theorem of_error {q : Request} {err : Error} (h : q.answer r = some (.error err)) :
    r.slot? q.place = none ∧ q.types.resolve? q.constant.host = none ∧ q.after r = r := by
  rcases q.outcome r with ⟨i, -, hanswer, -⟩ | ⟨hnew, htype, -, hafter⟩ | ⟨_, -, -, hanswer, -⟩
  · have hsome := hanswer.symm.trans h
    cases hp : r.parameters[i]? <;> simp [hp] at hsome
  · exact ⟨hnew, htype, hafter⟩
  · exact absurd (hanswer.symm.trans h) (by simp)

/-- Where the type of a request has no counterpart, nothing changes, whether the place is new or
    not. -/
theorem after_of_unresolved {q : Request} (htype : q.types.resolve? q.constant.host = none) :
    q.after r = r := by
  rcases q.outcome r with ⟨_, -, -, hafter⟩ | ⟨-, -, -, hafter⟩ | ⟨_, -, hsome, -⟩
  · exact hafter
  · exact hafter
  · exact absurd (htype.symm.trans hsome) (by simp)

/-! ### Many requests -/

/-- What every request keeps holds after any requests. -/
theorem run_induction {P : Register → Prop} (hstep : ∀ (q : Request) r, P r → P (q.after r))
    (qs : List Request) (hr : P r) : P (run qs r) := by
  induction qs generalizing r with
  | nil => exact hr
  | cons q qs ih => exact ih (hstep q r hr)

/-- So do all requests of a run. -/
theorem le_run (qs : List Request) (r : Register) : r ≤ run qs r :=
  run_induction (fun q _ h => le_trans h (q.le_after _)) qs r.le_refl

/-- A register stays kept along a run. -/
theorem kept_run (qs : List Request) (hr : r.Kept) : (run qs r).Kept :=
  run_induction (fun q _ => q.kept_after) qs hr

/-- Two runs in a row are one run. -/
theorem run_append (qs more : List Request) (r : Register) :
    run (qs ++ more) r = run more (run qs r) := List.foldl_append

/-- The place of an answered request has the slot of the answer at the end. -/
theorem slot?_of_mem_log {qs : List Request} {q : Request} {t : String} (hr : r.Kept)
    (h : (q, some (.ok t)) ∈ log qs r) :
    ∃ i : Nat, t = q.mark ++ ("p" ++ i.repr) ∧ (run qs r).slot? q.place = some i := by
  induction qs generalizing r with
  | nil => exact absurd h List.not_mem_nil
  | cons first qs ih =>
    rcases List.mem_cons.mp h with heq | hlater
    · obtain ⟨rfl, hanswer⟩ := Prod.mk.inj heq
      obtain ⟨i, ht, hi⟩ := slot?_of_answer hr hanswer.symm
      exact ⟨i, ht, slot?_of_le (le_run qs _) hi⟩
    · exact ih (first.kept_after hr) hlater

/-- A place gets its slot from an answered request. -/
theorem exists_mem_log {qs : List Request} {place : Position} {i : Nat}
    (hnew : r.slot? place = none) (h : (run qs r).slot? place = some i) :
    ∃ q t, (q, some (.ok t)) ∈ log qs r ∧ q.place = place := by
  induction qs generalizing r with
  | nil => exact absurd (hnew.symm.trans h) (by simp)
  | cons first qs ih =>
    cases hnext : (first.after r).slot? place with
    | none =>
      obtain ⟨q, t, hmem, hplace⟩ := ih hnext h
      exact ⟨q, t, List.mem_cons_of_mem _ hmem, hplace⟩
    | some j =>
      -- The first request brings the place in, so it is a request for this place.
      rcases first.outcome r with ⟨_, -, -, hafter⟩ | ⟨-, -, -, hafter⟩ | ⟨_, -, -, hanswer, hafter⟩
      · rw [hafter, hnew] at hnext
        exact absurd hnext (by simp)
      · rw [hafter, hnew] at hnext
        exact absurd hnext (by simp)
      · refine ⟨first, _, List.mem_cons.mpr (.inl (by rw [hanswer])), ?_⟩
        by_contra hother
        refine absurd hnext (ne_of_eq_of_ne (slot?_eq_none_iff.mpr ?_) (by simp))
        rw [hafter, Register.push, List.map_append, List.mem_append, not_or]
        exact ⟨slot?_eq_none_iff.mp hnew, by simpa using Ne.symm hother⟩

/-- The places with a slot are those of the answered requests. -/
theorem isSome_slot?_run_iff (qs : List Request) (place : Position) :
    ((run qs .empty).slot? place).isSome ↔
      ∃ q t, (q, some (.ok t)) ∈ log qs .empty ∧ q.place = place := by
  rw [Option.isSome_iff_exists]
  constructor
  · rintro ⟨i, hi⟩
    exact exists_mem_log rfl hi
  · rintro ⟨q, t, hmem, rfl⟩
    obtain ⟨i, -, hi⟩ := slot?_of_mem_log kept_empty hmem
    exact ⟨i, hi⟩

/-- **Parameters over many requests.** After any requests the register is coherent, and the places
    with a slot are those of the answered requests. The next request, whatever it is, has an answer.
    It changes nothing if its type has no counterpart, if it fails, or if its place has a slot, and
    in that case it is answered by the number of the slot. For a new place whose type has a
    counterpart it is answered by the next number. No later request changes a parameter, a slot, or
    the name in the answer for a place. -/
theorem run_coherent (qs : List Request) :
    (run qs .empty).Coherent ∧
    (∀ place, ((run qs .empty).slot? place).isSome ↔
      ∃ q t, (q, some (.ok t)) ∈ log qs .empty ∧ q.place = place) ∧
    (∀ q : Request,
      (q.answer (run qs .empty)).isSome ∧
      (q.types.resolve? q.constant.host = none → q.after (run qs .empty) = run qs .empty) ∧
      (∀ err, q.answer (run qs .empty) = some (.error err) →
        (run qs .empty).slot? q.place = none ∧ q.types.resolve? q.constant.host = none ∧
        q.after (run qs .empty) = run qs .empty) ∧
      (∀ i, (run qs .empty).slot? q.place = some i →
        q.answer (run qs .empty) = some (.ok (q.mark ++ ("p" ++ i.repr))) ∧
        q.after (run qs .empty) = run qs .empty) ∧
      ∀ type, (run qs .empty).slot? q.place = none →
        q.types.resolve? q.constant.host = some type →
        q.answer (run qs .empty) = some (.ok (q.mark ++ ("p" ++ (run qs .empty).next.repr))) ∧
        (q.after (run qs .empty)).slot? q.place = some (run qs .empty).next ∧
        (q.after (run qs .empty)).parameters = (run qs .empty).parameters ++
          [⟨"p" ++ (run qs .empty).next.repr, q.constant.host, type, q.constant.value⟩]) ∧
    ∀ more,
      (run qs .empty).parameters <+: (run (qs ++ more) .empty).parameters ∧
      (∀ place i, (run qs .empty).slot? place = some i →
        (run (qs ++ more) .empty).slot? place = some i) ∧
      ∀ q t, (q, some (.ok t)) ∈ log qs .empty → ∃ name, t = q.mark ++ name ∧
        ∀ again : Request, again.place = q.place →
          again.answer (run (qs ++ more) .empty) = some (.ok (again.mark ++ name)) := by
  have hkept : (run qs .empty).Kept := kept_run qs kept_empty
  refine ⟨hkept.coherent, isSome_slot?_run_iff qs, fun q => ⟨q.isSome_answer hkept,
    after_of_unresolved, fun _ => of_error, fun i hi => ?_, fun type hnew htype => ?_⟩,
    fun more => ?_⟩
  · exact ⟨answer_of_slot? hkept hi, (of_slot? hi).2⟩
  · obtain ⟨hanswer, hafter⟩ := of_resolved hnew htype
    refine ⟨hanswer, ?_, by rw [hafter]; rfl⟩
    rw [hafter, slot?_push hnew, hkept.aligned.next_eq]
  -- Whatever is asked later, the run so far is kept: names and slots are read off the longer one.
  · have hle : run qs .empty ≤ run (qs ++ more) .empty := by
      rw [run_append]
      exact le_run more _
    refine ⟨hle.1, fun place i => slot?_of_le hle, fun q t hq => ?_⟩
    obtain ⟨i, ht, hi⟩ := slot?_of_mem_log kept_empty hq
    refine ⟨"p" ++ i.repr, ht, fun again hplace => ?_⟩
    exact answer_of_slot? (kept_run _ kept_empty) (hplace ▸ slot?_of_le hle hi)

/-- Two equal texts, with a request between them that fails. The first place is asked for again
    under another mark and with a type that has no counterpart; the second is new. -/
theorem run_coherent_reuse :
    let text : Request := ⟨.root 0, ⟨.string "dr", .of .string⟩, "@", .unbounded⟩
    let odd : Request := ⟨.root 1, ⟨.null, .of (.other "Money")⟩, "@", .unbounded⟩
    let again : Request := { odd with place := .root 0, mark := ":" }
    let equal : Request := { text with place := .root 2 }
    let r := run [text, odd] .empty
    (odd.answer r = some (.error (.typeResolution "Money")) ∧ odd.after r = r) ∧
    (r.slot? again.place = some 0 ∧ again.answer r = some (.ok ":p0") ∧ again.after r = r) ∧
    (r.slot? equal.place = none ∧ (equal.after r).slot? equal.place = some 1) ∧
    (run [text, odd, equal] .empty).slot? text.place = some 0 ∧
    ∃ name, "@p0" = "@" ++ name ∧
      again.answer (run [text, odd, equal] .empty) = some (.ok (":" ++ name)) := by
  intro text odd again equal r
  obtain ⟨-, -, hnext, hlater⟩ := run_coherent [text, odd]
  obtain ⟨-, hslots, hnames⟩ := hlater [equal]
  have hfailed : odd.answer r = some (.error (.typeResolution "Money")) := rfl
  have hslot : r.slot? again.place = some 0 := rfl
  have hnew : r.slot? equal.place = none := rfl
  -- The first request was answered before the second failed, and stays answered.
  have hlog : (text, some (.ok "@p0")) ∈ log [text, odd] .empty := List.mem_cons.mpr (.inl rfl)
  refine ⟨⟨hfailed, ((hnext odd).2.2.1 _ hfailed).2.2⟩, ⟨hslot, (hnext again).2.2.2.1 0 hslot⟩,
    ⟨hnew, ((hnext equal).2.2.2.2 _ hnew rfl).2.1⟩, hslots text.place 0 hslot, ?_⟩
  obtain ⟨name, hname, hanswer⟩ := hnames text _ hlog
  exact ⟨name, hname, hanswer again rfl⟩

end Request

end WhereClause
