import SchemaWalk.Proofs.Introspection.Loading
import SchemaWalk.Proofs.Shell.Narrowing
import SchemaWalk.Resolution

/-! # Closed schemas: where every field leads to a type, only the path itself can lead nowhere -/
namespace SchemaWalk

namespace Schema

/-- The two ways to a schema: from definitions, and from a reply. -/
inductive Built : Schema → Prop
  | ofTypes {queryName : String} {defs : List TypeDef} {s : Schema} :
      ofTypes? queryName defs = some s → Built s
  | loaded {body : Json.Bytes} {l : Introspection.Loaded} :
      Introspection.load body = .ok l → Built l.schema

/-- Every field of every type refers to a type of the schema in the end. -/
def Closed (schema : Schema) : Prop :=
  ∀ e ∈ schema.types.entries, ∀ f ∈ e.2.fields, ∃ name ∈ f.typeName?, (schema.type? name).isSome

instance (schema : Schema) : Decidable schema.Closed :=
  inferInstanceAs
    (Decidable (∀ e ∈ schema.types.entries, ∀ f ∈ e.2.fields, ∃ name ∈ f.typeName?, _))

theorem Built.types_eq {schema : Schema} (h : schema.Built) :
    ∃ defs, schema.types = collect defs := by
  cases h with
  | ofTypes h => exact ⟨_, (ofTypes?_eq_some_iff.1 h).2.1⟩
  | loaded h =>
    obtain ⟨d, errors, -, -, htypes⟩ := Introspection.exists_description_of_load h
    exact ⟨d.types, htypes⟩

theorem Built.name_eq {schema : Schema} (h : schema.Built) {name : String} {t : TypeDef}
    (ht : schema.type? name = some t) : t.name = name := by
  obtain ⟨defs, htypes⟩ := h.types_eq
  rw [type?, htypes] at ht
  exact (of_find?_collect ht).2

theorem type?_query (schema : Schema) : schema.type? schema.queryName = some schema.query :=
  (Option.some_get schema.query_defined).symm

theorem Built.stored_query {schema : Schema} (h : schema.Built) :
    schema.type? schema.query.name = some schema.query := by
  rw [h.name_eq schema.type?_query, schema.type?_query]

/-- The two ways in which a step can miss a schema: it is narrowed to a type that the schema does
not define, or a type of the schema has no such field. -/
inductive Misses (schema : Schema) (s : Selection) : ResolutionError → Prop
  | scope {name : String} : s.scope = some name → schema.type? name = none →
    Misses schema s (.missingType name)
  | field {t : TypeDef} : s.scope = none → schema.type? t.name = some t → t.field? s.name = none →
      Misses schema s (.missingField s.name t.name)

section

variable {schema : Schema} (hbuilt : schema.Built) (hclosed : schema.Closed)

include hbuilt hclosed

theorem advance_closed {t : TypeDef} (ht : schema.type? t.name = some t) (s : Selection) :
    (∃ u, schema.advance t s = .ok u ∧ schema.type? u.name = some u) ∨
      ∃ e, schema.advance t s = .error e ∧ schema.Misses s e := by
  cases hscope : s.scope with
  | some name =>
    cases hu : schema.type? name with
    | some u =>
      have hname : u.name = name := hbuilt.name_eq hu
      exact .inl ⟨u, by simp [advance, nextName, hscope, hu, bind, Except.bind], by rw [hname, hu]⟩
    | none =>
      exact .inr ⟨_, by simp [advance, nextName, hscope, hu, bind, Except.bind], .scope hscope hu⟩
  | none =>
    cases hf : t.field? s.name with
    | none =>
      exact .inr
        ⟨_, by simp [advance, nextName, hscope, hf, bind, Except.bind], .field hscope ht hf⟩
    | some f =>
      obtain ⟨name, hname, hdefined⟩ :=
        hclosed (t.name, t) (Dictionary.mem_of_find? ht) f (List.mem_of_find?_eq_some hf)
      obtain ⟨u, hu⟩ := Option.isSome_iff_exists.1 hdefined
      have hown : u.name = name := hbuilt.name_eq hu
      rw [Option.mem_def] at hname
      exact .inl
        ⟨u, by simp [advance, nextName, hscope, hf, hname, hu, bind, Except.bind], by rw [hown, hu]⟩

/-- The type is one of the schema all along a walk, by induction on the steps. -/
theorem walk_closed {t : TypeDef} (ht : schema.type? t.name = some t) (steps : List Selection) :
    (∃ u, steps.foldlM schema.advance t = .ok u ∧ schema.type? u.name = some u) ∨
      ∃ e, steps.foldlM schema.advance t = .error e ∧ ∃ s ∈ steps, schema.Misses s e := by
  induction steps generalizing t with
  | nil => exact .inl ⟨t, rfl, ht⟩
  | cons s steps ih =>
    rw [List.foldlM_cons]
    rcases advance_closed hbuilt hclosed ht s with ⟨u, hu, hdefined⟩ | ⟨e, he, hmisses⟩
    · rw [hu]
      rcases ih hdefined with hled | ⟨e, he, s', hs', hmisses⟩
      · exact .inl hled
      · exact .inr ⟨e, he, s', List.mem_cons_of_mem _ hs', hmisses⟩
    · rw [he]
      exact .inr ⟨e, rfl, s, List.mem_cons_self, hmisses⟩

theorem misses_of_fieldsAt {p : Path} {e : ResolutionError} (h : schema.fieldsAt p = .error e) :
    ∃ s ∈ p.selections, schema.Misses s e := by
  rw [fieldsAt, fieldsAlong, typeAlong_eq, ← Path.selections] at h
  rcases walk_closed hbuilt hclosed hbuilt.stored_query p.selections
    with ⟨u, hu, -⟩ | ⟨e', he, hmisses⟩
  · rw [hu] at h
    cases h
  · rw [he] at h
    cases h
    exact hmisses

end

theorem fieldsAt_of_isAtRoot (schema : Schema) {p : Path} (h : p.isAtRoot = true) :
    schema.fieldsAt p = .ok schema.query.fields := by
  have hnone : p.selections = [] := by simpa [p.isAtRoot_eq] using h
  rw [fieldsAt, fieldsAlong, typeAlong_eq, ← Path.selections, hnone]
  rfl

/-- In a closed schema a path fails only by a name of its own. No reference is malformed, a missing
type is one that a step is narrowed to, and a missing field is one that a step selects on a type
which is there and does not have it. At the root nothing fails. -/
theorem closed_schema_never_at_fault {schema : Schema} (hbuilt : schema.Built)
    (hclosed : schema.Closed) (p : Path) :
    (∀ field type, schema.fieldsAt p ≠ .error (.malformedReference field type)) ∧
      (∀ name, schema.fieldsAt p = .error (.missingType name) →
        schema.type? name = none ∧ ∃ s ∈ p.selections, s.scope = some name) ∧
      ((∀ s ∈ p.selections, ∀ name, s.scope = some name → (schema.type? name).isSome) →
        ∀ e, schema.fieldsAt p = .error e → ∃ s ∈ p.selections,
          ∃ t, e = .missingField s.name t.name ∧ s.scope = none ∧ schema.type? t.name = some t ∧
            t.field? s.name = none) ∧
      (p.isAtRoot = true → schema.fieldsAt p = .ok schema.query.fields) := by
  refine ⟨?_, ?_, ?_, schema.fieldsAt_of_isAtRoot⟩
  · intro field type h
    obtain ⟨s, -, hmisses⟩ := misses_of_fieldsAt hbuilt hclosed h
    cases hmisses
  · intro name h
    obtain ⟨s, hs, hmisses⟩ := misses_of_fieldsAt hbuilt hclosed h
    cases hmisses with
    | scope hscope hnone => exact ⟨hnone, s, hs, hscope⟩
  · intro hscopes e h
    obtain ⟨s, hs, hmisses⟩ := misses_of_fieldsAt hbuilt hclosed h
    cases hmisses with
    | scope hscope hnone =>
      have hdefined := hscopes s hs _ hscope
      rw [hnone] at hdefined
      cases hdefined
    | @field t hscope ht hfield => exact ⟨s, hs, t, rfl, hscope, ht, hfield⟩

/-- A closed schema whose fields lead round in a circle, behind wrappers. -/
def circle : Schema where
  queryName := "Query"
  mutationName := none
  subscriptionName := none
  types :=
    let user : TypeRef := .named .object "User"
    collect [{ kind := .object, name := "Query",
               fields := [{ name := "user", type := user.nonNull }] },
      { kind := .object, name := "User",
        fields := [{ name := "friends", type := user.nonNull.list },
          { name := "login", type := .named .scalar "String" }] },
      { kind := .scalar, name := "String" }]
  query_defined := by decide

/-- On the same way the one path goes on with a field that users do not have, and the other is
narrowed to a type that is not there. -/
theorem circle_never_at_fault :
    let lost := Path.start.append [{ name := "user" }, { name := "friends" }, { name := "age" }]
    let narrowed := Path.start.append
      [{ name := "user" }, { name := "friends", scope := some "Ghost" }, { name := "age" }]
    circle.Built ∧ circle.Closed ∧
      (∀ s ∈ lost.selections, ∀ name, s.scope = some name → (circle.type? name).isSome) ∧
      circle.fieldsAt lost = .error (.missingField "age" "User") ∧
      circle.fieldsAt narrowed = .error (.missingType "Ghost") ∧
      (∃ s ∈ lost.selections, ∃ t,
        ResolutionError.missingField "age" "User" = .missingField s.name t.name ∧ s.scope = none ∧
          circle.type? t.name = some t ∧ t.field? s.name = none) ∧
      ∃ s ∈ narrowed.selections, s.scope = some "Ghost" := by
  intro lost narrowed
  have hbuilt : circle.Built := .ofTypes (ofTypes?_eq_some_iff.2 ⟨rfl, rfl, rfl, rfl⟩)
  have hclosed : circle.Closed := by decide +kernel
  have hscopes : ∀ s ∈ lost.selections, ∀ name, s.scope = some name →
      (circle.type? name).isSome := by
    simp [lost]
  have hlost : circle.fieldsAt lost = .error (.missingField "age" "User") := by rfl
  have hnarrowed : circle.fieldsAt narrowed = .error (.missingType "Ghost") := by rfl
  obtain ⟨-, -, hfield, -⟩ := closed_schema_never_at_fault hbuilt hclosed lost
  obtain ⟨-, hscope, -, -⟩ := closed_schema_never_at_fault hbuilt hclosed narrowed
  exact ⟨hbuilt, hclosed, hscopes, hlost, hnarrowed, hfield hscopes _ hlost, (hscope _ hnarrowed).2⟩

end Schema

end SchemaWalk
