import SchemaWalk.Proofs.MapM
import SchemaWalk.Proofs.Schema.Onward

/-! # Dead ends: the first step of a path that leads nowhere, and all that comes below it -/
namespace SchemaWalk

theorem exists_refused_of_foldlM {α β ε : Type} {f : β → α → Except ε β} {l : List α} {b : β}
    {e : ε} (h : l.foldlM f b = .error e) :
    ∃ before x later c, l = before ++ x :: later ∧ before.foldlM f b = .ok c ∧
      f c x = .error e := by
  induction l generalizing b with
  | nil => cases h
  | cons x l ih =>
    rw [List.foldlM_cons] at h
    cases hx : f b x with
    | error e' =>
      rw [hx] at h
      cases h
      exact ⟨[], x, l, b, rfl, rfl, hx⟩
    | ok b' =>
      rw [hx] at h
      obtain ⟨before, y, later, c, rfl, hbefore, hy⟩ := ih h
      refine ⟨x :: before, y, later, c, rfl, ?_, hy⟩
      rw [List.foldlM_cons, hx]
      exact hbefore

namespace Schema

variable {schema : Schema}

/-- Why a step leads nowhere from a type. It is named by its own name and that of the type, or else
by the type that it leads to by its scope, or by that of its field. -/
inductive Stuck (schema : Schema) (t : TypeDef) (s : Selection) : ResolutionError → Prop
  | missingField : s.scope = none → t.field? s.name = none →
    Stuck schema t s (.missingField s.name t.name)
  | malformedReference {f : Field} : s.scope = none → t.field? s.name = some f →
    f.typeName? = none → Stuck schema t s (.malformedReference s.name t.name)
  | missingScope {typeName : String} : s.scope = some typeName → schema.type? typeName = none →
      Stuck schema t s (.missingType typeName)
  | missingFieldType {f : Field} {typeName : String} :
      s.scope = none → t.field? s.name = some f → f.typeName? = some typeName →
        schema.type? typeName = none → Stuck schema t s (.missingType typeName)

theorem advance_of_scope {t : TypeDef} {s : Selection} {typeName : String}
    (hs : s.scope = some typeName) {e : ResolutionError} :
    schema.advance t s = .error e ↔ schema.type? typeName = none ∧ e = .missingType typeName := by
  simp only [advance, nextName, hs, bind, Except.bind]
  cases schema.type? typeName with
  | none => simp [eq_comm]
  | some u => simp

theorem stuck_of_advance {t : TypeDef} {s : Selection} {e : ResolutionError}
    (h : schema.advance t s = .error e) : schema.Stuck t s e := by
  cases hscope : s.scope with
  | some typeName =>
    obtain ⟨hnone, rfl⟩ := (advance_of_scope hscope).1 h
    exact .missingScope hscope hnone
  | none =>
    cases hf : t.field? s.name with
    | none =>
      rw [advance_of_field?_none hscope hf] at h
      cases h
      exact .missingField hscope hf
    | some f =>
      have hname : f.name = s.name := by simpa using List.find?_some hf
      cases (advance_eq_error_iff hscope hf).1 h with
      | malformed hreference => exact hname ▸ .malformedReference hscope hf hreference
      | undefined hreference hnone => exact .missingFieldType hscope hf hreference hnone

/-! ## Beginnings of a walk -/

section

variable {q steps : List Step} {e : ResolutionError}

theorem typeAlong_concat (schema : Schema) (q later : List Step) :
    schema.typeAlong (q ++ later) =
      schema.typeAlong q >>= later.foldlM fun t s => schema.advance t s.toSelection := by
  rw [typeAlong, List.foldlM_append, typeAlong]

theorem typeAlong_error_below (h : schema.typeAlong q = .error e) (hq : q <+: steps) :
    schema.typeAlong steps = .error e := by
  obtain ⟨later, rfl⟩ := hq
  rw [typeAlong_concat, h]
  rfl

theorem exists_typeAlong_above {t : TypeDef} (h : schema.typeAlong steps = .ok t)
    (hq : q <+: steps) : ∃ u, schema.typeAlong q = .ok u := by
  refine exists_ok_iff.2 fun e he => ?_
  rw [typeAlong_error_below he hq] at h
  cases h

theorem fieldsAlong_eq_error_iff :
    schema.fieldsAlong steps = .error e ↔ schema.typeAlong steps = .error e :=
  map_eq_error_iff

theorem exists_fieldsAlong_iff :
    (∃ fields, schema.fieldsAlong steps = .ok fields) ↔ ∃ t, schema.typeAlong steps = .ok t := by
  simp only [exists_ok_iff, ne_eq, fieldsAlong_eq_error_iff]

end

/-- Around the step that is refused: what ends before it leads to a type, and what
goes on with it fails. -/
theorem typeAlong_around {before later : List Step} {s : Step} {t : TypeDef} {e : ResolutionError}
    (hbefore : schema.typeAlong before = .ok t) (hs : schema.advance t s.toSelection = .error e)
    {q : List Step} (hq : q <+: before ++ s :: later) :
    (q.length ≤ before.length → ∃ u, schema.typeAlong q = .ok u) ∧
      (before.length < q.length → schema.typeAlong q = .error e) := by
  constructor
  · intro hle
    exact exists_typeAlong_above hbefore
      (List.prefix_of_prefix_length_le hq (List.prefix_append _ _) hle)
  · intro hlt
    have hfirst : schema.typeAlong (before ++ [s]) = .error e := by
      rw [typeAlong_concat, hbefore]
      change schema.advance t s.toSelection >>= pure = _
      rw [hs]
      rfl
    have hbegins : before ++ [s] <+: before ++ s :: later := ⟨later, by simp⟩
    refine typeAlong_error_below hfirst (List.prefix_of_prefix_length_le hbegins hq ?_)
    rw [List.length_append]
    exact hlt

/-- A beginning of a walk that fails, while all shorter ones lead to a type. -/
structure LeastFailing (schema : Schema) (steps first : List Step) : Prop where
  begins : first <+: steps
  fails : ∃ e, schema.fieldsAlong first = .error e
  shorter : ∀ q, q <+: steps → q.length < first.length → ∃ fields, schema.fieldsAlong q = .ok fields

theorem LeastFailing.length_le {steps first other : List Step} (h : schema.LeastFailing steps first)
    (hother : schema.LeastFailing steps other) : first.length ≤ other.length := by
  refine Nat.le_of_not_lt fun hlt => ?_
  obtain ⟨e, he⟩ := hother.fails
  obtain ⟨fields, hfields⟩ := h.shorter other hother.begins hlt
  rw [he] at hfields
  cases hfields

theorem LeastFailing.eq {steps first other : List Step} (h : schema.LeastFailing steps first)
    (hother : schema.LeastFailing steps other) : first = other := by
  have hbegins := List.prefix_of_prefix_length_le h.begins hother.begins (h.length_le hother)
  exact hbegins.eq_of_length_le (hother.length_le h)

theorem exists_beginning_ascend (p : Path) (further : Nat) :
    ∃ q, q <+: p.steps ∧ q.length = (p.ascend further).length ∧
      ∀ schema : Schema, schema.typeAlong (p.ascend further).steps = schema.typeAlong q := by
  refine ⟨p.steps.take (p.selections.length - (further + 1)), List.take_prefix _ _, ?_,
    fun schema => ?_⟩
  · rw [Path.length_eq, Path.selections_ascend, List.length_take, List.length_take, Path.selections,
      List.length_map]
  · rw [typeAlong_eq, typeAlong_eq, ← Path.selections, Path.selections_ascend, List.map_take,
      ← Path.selections]

theorem fieldsAt_append_of_error {p : Path} {e : ResolutionError}
    (h : schema.typeAlong p.steps = .error e) (chain : List Step) :
    schema.fieldsAt (p.append chain) = .error e := by
  rw [fieldsAt, fieldsAlong_eq_error_iff, typeAlong_append, h]
  rfl

/-- A path that fails has a first step which leads nowhere, and that step and the type before it say
what the error is. All that ends above this step leads to a type. All that goes on below it fails in
the same way, however it goes on. -/
theorem fails_from_first_stuck_step_on {p : Path} {e : ResolutionError}
    (h : schema.fieldsAt p = .error e) :
    ∃ before s later t, p.steps = before ++ s :: later ∧
      (∀ first, schema.LeastFailing p.steps first ↔ first = before ++ [s]) ∧
      schema.typeAlong before = .ok t ∧ schema.Stuck t s.toSelection e ∧
      (∀ q, q <+: p.steps → q.length ≤ before.length →
        ∃ fields, schema.fieldsAlong q = .ok fields) ∧
      (∀ q, q <+: p.steps → before.length < q.length →
        ∀ chain, schema.fieldsAlong (q ++ chain) = .error e) ∧
      (∀ chain, schema.fieldsAt (p.append chain) = .error e) ∧
      ∀ further, ((p.ascend further).length ≤ before.length →
        ∃ fields, schema.fieldsAt (p.ascend further) = .ok fields) ∧
        (before.length < (p.ascend further).length →
          ∀ chain, schema.fieldsAt ((p.ascend further).append chain) = .error e) := by
  rw [fieldsAt, fieldsAlong_eq_error_iff] at h
  obtain ⟨before, s, later, t, hsteps, hbefore, hs⟩ := exists_refused_of_foldlM h
  have haround : ∀ q, q <+: p.steps → _ := fun q hq => typeAlong_around hbefore hs (hsteps ▸ hq)
  have hleast : schema.LeastFailing p.steps (before ++ [s]) := by
    have hbegins : before ++ [s] <+: p.steps := ⟨later, by rw [hsteps]; simp⟩
    refine ⟨hbegins, ⟨e, fieldsAlong_eq_error_iff.2 ((haround _ hbegins).2 (by simp))⟩,
      fun q hq hlt => ?_⟩
    rw [List.length_append] at hlt
    exact exists_fieldsAlong_iff.2 ((haround q hq).1 (Nat.le_of_lt_succ hlt))
  refine ⟨before, s, later, t, hsteps, fun first => ⟨fun hfirst => hfirst.eq hleast, ?_⟩, hbefore,
    stuck_of_advance hs, ?_, ?_, fieldsAt_append_of_error h, fun further => ?_⟩
  · rintro rfl
    exact hleast
  · exact fun q hq hle => exists_fieldsAlong_iff.2 ((haround q hq).1 hle)
  · intro q hq hlt chain
    exact fieldsAlong_eq_error_iff.2
      (typeAlong_error_below ((haround q hq).2 hlt) (List.prefix_append q chain))
  · obtain ⟨q, hq, hlength, htype⟩ := exists_beginning_ascend p further
    rw [← hlength]
    constructor
    · intro hle
      rw [fieldsAt, exists_fieldsAlong_iff, htype]
      exact (haround q hq).1 hle
    · intro hlt
      exact fieldsAt_append_of_error ((htype schema).trans ((haround q hq).2 hlt))

/-- The second step has a field whose type has no name. The first two steps are the least that fail,
going up to the first one helps, and going up to the second one does not. -/
theorem fails_from_first_stuck_step_on_mail :
    let p := Path.start.append
      [{ name := "node", scope := some "User" }, { name := "mail" }, { name := "node" }]
    let e := ResolutionError.malformedReference "mail" "User"
    frayed.fieldsAt p = .error e ∧ frayed.LeastFailing p.steps (p.steps.take 2) ∧
      (∃ fields, frayed.fieldsAt (p.ascend 1) = .ok fields) ∧
      frayed.fieldsAt ((p.ascend 0).append [{ name := "login", scope := some "Query" }]) =
        .error e := by
  intro p e
  have hfails : frayed.fieldsAt p = .error e := rfl
  obtain ⟨before, s, later, t, hsteps, hleast, -, -, -, -, -, hascend⟩ :=
    fails_from_first_stuck_step_on hfails
  have hone : before.length = 1 := by
    refine Nat.le_antisymm (Nat.le_of_lt_succ (Nat.lt_of_not_le fun hle => ?_))
      (Nat.le_of_not_lt fun hlt => ?_)
    · obtain ⟨fields, hfields⟩ := (hascend 0).1 hle
      cases hfields
    · cases (hascend 1).2 hlt []
  have hfirst : p.steps.take 2 = before ++ [s] := by
    rw [hsteps, List.take_append, hone, List.take_of_length_le (by omega)]
    rfl
  exact ⟨hfails, (hleast _).2 hfirst, (hascend 1).1 (Nat.le_of_eq hone.symm),
    (hascend 0).2 (by rw [hone]; decide) _⟩

end Schema

end SchemaWalk
