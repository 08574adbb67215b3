import SchemaWalk.Proofs.Introspection.Listing
import SchemaWalk.Proofs.Schema.Closed

/-! # One step further: exactly the names that are listed can be selected next -/
namespace SchemaWalk

namespace TypeDef

theorem field?_eq_none_iff {t : TypeDef} {name : String} :
    t.field? name = none ↔ ∀ f ∈ t.fields, f.name ≠ name := by
  simp [field?, List.find?_eq_none]

end TypeDef

namespace Schema

variable {schema : Schema}

/-- A schema whose definitions were put together field by field, or came with a reply. -/
inductive Assembled : Schema → Prop
  | ofTypes {queryName : String} {defs : List TypeDef} {s : Schema} :
      (∀ t ∈ defs, t.Distinct) → ofTypes? queryName defs = some s → Assembled s
  | loaded {body : Json.Bytes} {l : Introspection.Loaded} :
      Introspection.load body = .ok l → Assembled l.schema

theorem Assembled.distinct (h : schema.Assembled) {name : String} {t : TypeDef}
    (ht : schema.type? name = some t) : t.Distinct := by
  obtain ⟨defs, htypes, hdefs⟩ : ∃ defs, schema.types = collect defs ∧ ∀ t ∈ defs, t.Distinct := by
    cases h with
    | ofTypes hdefs h => exact ⟨_, (ofTypes?_eq_some_iff.1 h).2.1, hdefs⟩
    | loaded h => exact Introspection.exists_distinct_of_load h
  rw [type?, htypes] at ht
  exact hdefs t (of_find?_collect ht).1

/-! ## The type at the end of a path -/

theorem typeAlong_append (schema : Schema) (p : Path) (chain : List Step) :
    schema.typeAlong (p.append chain).steps =
      schema.typeAlong p.steps >>= (chain.map (·.toSelection)).foldlM schema.advance := by
  rw [typeAlong_eq, typeAlong_eq, ← Path.selections, ← Path.selections, Path.selections_append,
    List.foldlM_append]

theorem Built.stored_of_advance (h : schema.Built) {t u : TypeDef} {s : Selection}
    (hu : schema.advance t s = .ok u) : schema.type? u.name = some u := by
  rw [advance] at hu
  cases hname : nextName t s with
  | error e => rw [hname] at hu; cases hu
  | ok name =>
    simp only [hname, bind, Except.bind] at hu
    split at hu
    · cases hu
    · next v hv =>
      cases hu
      rw [h.name_eq hv, hv]

/-- Wherever a walk from a stored type ends, a stored type is there. By
induction on the selections. -/
theorem Built.stored_of_foldlM (h : schema.Built) {t u : TypeDef}
    (ht : schema.type? t.name = some t) {l : List Selection}
    (hu : l.foldlM schema.advance t = .ok u) : schema.type? u.name = some u := by
  induction l generalizing t with
  | nil => cases hu; exact ht
  | cons s l ih =>
    rw [List.foldlM_cons] at hu
    cases hs : schema.advance t s with
    | error e => rw [hs] at hu; cases hu
    | ok v =>
      rw [hs] at hu
      exact ih (h.stored_of_advance hs) hu

theorem Built.stored_of_typeAlong (h : schema.Built) {steps : List Step} {t : TypeDef}
    (ht : schema.typeAlong steps = .ok t) : schema.type? t.name = some t := by
  rw [typeAlong_eq] at ht
  exact h.stored_of_foldlM h.stored_query ht

/-! ## The next step -/

/-- The two ways in which a field can lead nowhere: its type has no name, or a name that the schema
does not define. -/
inductive Dangles (schema : Schema) (type : String) (f : Field) : ResolutionError → Prop
  | malformed : f.typeName? = none → Dangles schema type f (.malformedReference f.name type)
  | undefined {typeName : String} : f.typeName? = some typeName → schema.type? typeName = none →
      Dangles schema type f (.missingType typeName)

theorem advance_of_field?_none {t : TypeDef} {s : Selection} (hs : s.scope = none)
    (hf : t.field? s.name = none) : schema.advance t s = .error (.missingField s.name t.name) := by
  simp [advance, nextName, hs, hf, bind, Except.bind]

theorem advance_eq_error_iff {t : TypeDef} {s : Selection} (hs : s.scope = none) {f : Field}
    (hf : t.field? s.name = some f) {e : ResolutionError} :
    schema.advance t s = .error e ↔ schema.Dangles t.name f e := by
  simp only [advance, nextName, hs, hf, bind, Except.bind]
  constructor
  · intro h
    cases hname : f.typeName? with
    | none =>
      rw [hname] at h
      cases h
      exact .malformed hname
    | some typeName =>
      cases htype : schema.type? typeName with
      | none =>
        simp only [hname, htype] at h
        cases h
        exact .undefined hname htype
      | some u =>
        simp only [hname, htype] at h
        cases h
  · intro h
    cases h with
    | malformed hname => rw [hname]
    | undefined hname htype => simp only [hname, htype]

theorem fieldsAt_eq_ok_iff {p : Path} {fields : List Field} :
    schema.fieldsAt p = .ok fields ↔ ∃ t, schema.typeAlong p.steps = .ok t ∧ t.fields = fields := by
  rw [fieldsAt, fieldsAlong]
  cases schema.typeAlong p.steps <;> simp [Except.map]

theorem fieldsAt_append_eq_error_iff {p : Path} {t : TypeDef}
    (ht : schema.typeAlong p.steps = .ok t) (n : Step) {e : ResolutionError} :
    schema.fieldsAt (p.append [n]) = .error e ↔ schema.advance t n.toSelection = .error e := by
  rw [fieldsAt, fieldsAlong, typeAlong_append, ht]
  change Except.map _ ([n.toSelection].foldlM schema.advance t) = _ ↔ _
  rw [List.foldlM_cons]
  cases schema.advance t n.toSelection <;> simp [Except.map, bind, Except.bind, pure, Except.pure]

/-- The listing tells what can be selected next. A step that is not narrowed is refused as a missing
field exactly if no listed field has its name, to the letter, and then the step and the type are
named. A step with a listed name is refused only if that field leads nowhere. -/
theorem refused_exactly_if_not_listed (hbuilt : schema.Built) {p : Path} {listed : List Field}
    (hlisted : schema.fieldsAt p = .ok listed) {n : Step} (hscope : n.scope = none) :
    ∃ t, schema.typeAlong p.steps = .ok t ∧ t.fields = listed ∧ schema.type? t.name = some t ∧
      ((∃ field type, schema.fieldsAt (p.append [n]) = .error (.missingField field type)) ↔
        ∀ f ∈ listed, f.name ≠ n.name) ∧
      (∀ field type, schema.fieldsAt (p.append [n]) = .error (.missingField field type) →
        field = n.name ∧ type = t.name) ∧
      (∀ f, listed.find? (·.name = n.name) = some f →
        ∀ e, schema.fieldsAt (p.append [n]) = .error e ↔ schema.Dangles t.name f e) ∧
      (schema.Assembled → (listed.map (·.name)).Nodup) := by
  obtain ⟨t, ht, rfl⟩ := fieldsAt_eq_ok_iff.1 hlisted
  have hstored : schema.type? t.name = some t := hbuilt.stored_of_typeAlong ht
  have hfailure : ∀ e, schema.fieldsAt (p.append [n]) = .error e ↔
      schema.advance t n.toSelection = .error e := fun e => fieldsAt_append_eq_error_iff ht n
  refine ⟨t, ht, rfl, hstored, ?_, ?_, ?_, fun hassembled => hassembled.distinct hstored⟩
  · rw [← TypeDef.field?_eq_none_iff]
    constructor
    · rintro ⟨field, type, h⟩
      cases hf : t.field? n.name with
      | none => rfl
      | some f => cases (advance_eq_error_iff hscope hf).1 ((hfailure _).1 h)
    · intro hf
      exact ⟨n.name, t.name, (hfailure _).2 (advance_of_field?_none hscope hf)⟩
  · intro field type h
    rw [hfailure] at h
    cases hf : t.field? n.name with
    | none =>
      rw [advance_of_field?_none hscope hf] at h
      cases h
      exact ⟨rfl, rfl⟩
    | some f => cases (advance_eq_error_iff hscope hf).1 h
  · intro f hf e
    rw [hfailure]
    exact advance_eq_error_iff hscope hf

/-- A schema with a field whose type is not defined, and one whose type has no name. -/
def frayed : Schema where
  queryName := "Query"
  mutationName := none
  subscriptionName := none
  types :=
    collect [{ kind := .object, name := "Query",
               fields := [{ name := "node", type := .named .interface "Node" }] },
      { kind := .interface, name := "Node" },
      { kind := .object, name := "User",
        fields := [{ name := "login", type := .named .scalar "String" },
          { name := "pet", type := (TypeRef.named .object "Pet").list },
          { name := "mail", type := ⟨⟨.list, none⟩, []⟩ }] }]
  query_defined := by decide

/-- Below a step that is narrowed to users, a listed name in capitals is not there, and a field that
is there leads to a type that is not. -/
theorem refused_exactly_if_not_listed_below_narrowed :
    let p := Path.start.append [{ name := "node", scope := some "User" }]
    let login : Field := { name := "login", type := .named .scalar "String" }
    let pet : Field := { name := "pet", type := (TypeRef.named .object "Pet").list }
    let mail : Field := { name := "mail", type := ⟨⟨.list, none⟩, []⟩ }
    (frayed.Built ∧ frayed.Assembled ∧ frayed.fieldsAt p = .ok [login, pet, mail]) ∧
      (∃ field type, frayed.fieldsAt (p.append [{ name := "Login" }]) =
        .error (.missingField field type)) ∧
      frayed.fieldsAt (p.append [{ name := "pet", arguments := .ofList [("age", .integer 3)] }]) =
        .error (.missingType "Pet") ∧
      ["login", "pet", "mail"].Nodup := by
  intro p login pet mail
  have hbuilt : frayed.Built := .ofTypes (ofTypes?_eq_some_iff.2 ⟨rfl, rfl, rfl, rfl⟩)
  have hassembled : frayed.Assembled :=
    .ofTypes (by decide) (ofTypes?_eq_some_iff.2 ⟨rfl, rfl, rfl, rfl⟩)
  have hlisted : frayed.fieldsAt p = .ok [login, pet, mail] := rfl
  obtain ⟨-, -, -, -, hmissing, -, -, hdistinct⟩ :=
    refused_exactly_if_not_listed hbuilt hlisted (n := { name := "Login" }) rfl
  obtain ⟨t, -, -, -, -, -, hdangles, -⟩ := refused_exactly_if_not_listed hbuilt hlisted
    (n := { name := "pet", arguments := .ofList [("age", .integer 3)] }) rfl
  exact ⟨⟨hbuilt, hassembled, hlisted⟩, hmissing.2 (by decide),
    (hdangles pet rfl _).2 (.undefined rfl rfl), hdistinct hassembled⟩

end Schema

end SchemaWalk
