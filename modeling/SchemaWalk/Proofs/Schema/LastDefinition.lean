import Mathlib.Data.List.Induction
import SchemaWalk.Proofs.Introspection.Decoding
import SchemaWalk.Proofs.Introspection.Listing
import SchemaWalk.Proofs.Schema.Closed

/-! # Several definitions of one name: the last one stays, at the place of the first field -/
namespace SchemaWalk

variable {α : Type}

/-- Behind `a` nothing else in the list has its name. -/
def IsLast (name : α → String) (l : List α) (a : α) : Prop :=
  ∃ before later, l = before ++ a :: later ∧ ∀ b ∈ later, name b ≠ name a

theorem find?_reverse_eq_some_iff {name : α → String} {l : List α} {n : String} {a : α} :
    l.reverse.find? (fun b => name b = n) = some a ↔ name a = n ∧ IsLast name l a := by
  rw [List.find?_eq_some_iff_append, decide_eq_true_eq]
  refine and_congr_right fun hname => ?_
  constructor
  · rintro ⟨later, before, hl, hlater⟩
    refine ⟨before.reverse, later.reverse, ?_, fun b hb => ?_⟩
    · rw [← List.reverse_reverse l, hl]
      simp
    · simpa [hname] using hlater b (List.mem_reverse.1 hb)
  · rintro ⟨before, later, rfl, hlater⟩
    refine ⟨later.reverse, before.reverse, by simp, fun b hb => ?_⟩
    simpa [hname] using hlater b (List.mem_reverse.1 hb)

/-! ## Types -/

namespace Schema

theorem find?_collect_eq_some_iff {defs : List TypeDef} {name : String} {t : TypeDef} :
    (collect defs).find? name = some t ↔ t.name = name ∧ IsLast TypeDef.name defs t := by
  rw [find?_collect, find?_reverse_eq_some_iff]

theorem find?_collect_eq_none_iff {defs : List TypeDef} {name : String} :
    (collect defs).find? name = none ↔ ∀ t ∈ defs, t.name ≠ name := by
  simp [find?_collect]

/-- The definitions that a schema was collected from decide what is found in it. -/
structure CollectedFrom (s : Schema) (defs : List TypeDef) : Prop where
  type?_eq_some_iff : ∀ name t, s.type? name = some t ↔ t.name = name ∧ IsLast TypeDef.name defs t
  type?_eq_none_iff : ∀ name, s.type? name = none ↔ ∀ t ∈ defs, t.name ≠ name
  own_names : ∀ e ∈ s.types.entries, e.2.name = e.1
  query : s.query.name = s.queryName ∧ IsLast TypeDef.name defs s.query

theorem collectedFrom {s : Schema} {defs : List TypeDef} (h : s.types = collect defs) :
    s.CollectedFrom defs := by
  have htypes : ∀ name t, s.type? name = some t ↔ t.name = name ∧ IsLast TypeDef.name defs t := by
    intro name t
    rw [type?, h, find?_collect_eq_some_iff]
  refine ⟨htypes, fun name => ?_, fun e he => ?_, (htypes _ _).1 s.type?_query⟩
  · rw [type?, h, find?_collect_eq_none_iff]
  · exact ((htypes e.1 e.2).1 (Dictionary.find?_of_mem he)).1

end Schema

/-! ## Fields -/

namespace TypeDef

variable {t : TypeDef}

theorem addFields_append_singleton (t : TypeDef) (fs : List Field) (f : Field) :
    t.addFields (fs ++ [f]) = (t.addFields fs).addField f := by
  rw [addFields, List.foldl_append]
  rfl

/-- Only the fields change. By induction from the last one that was added. -/
theorem addFields_eq (t : TypeDef) (fs : List Field) :
    t.addFields fs = { t with fields := (t.addFields fs).fields } := by
  induction fs using List.reverseRecOn with
  | nil => rfl
  | append_singleton fs f ih =>
    rw [addFields_append_singleton, addField, ih]

theorem names_addFields (ht : t.fields = []) (fs : List Field) :
    (t.addFields fs).fields.map (·.name) = (fs.map (·.name)).eraseDups := by
  induction fs using List.reverseRecOn with
  | nil => simp [addFields, ht]
  | append_singleton fs f ih =>
    rw [addFields_append_singleton, addField, Field.names_put, ih, List.map_append,
      List.eraseDups_append]
    generalize fs.map (·.name) = names
    by_cases hknown : f.name ∈ names
    · simp [hknown, List.removeAll]
    · simp [hknown, List.removeAll, List.eraseDups_cons]

theorem field?_addFields (ht : t.fields = []) (fs : List Field) (name : String) :
    (t.addFields fs).field? name = fs.reverse.find? (·.name = name) := by
  induction fs using List.reverseRecOn with
  | nil => simp [addFields, field?, ht]
  | append_singleton fs f ih =>
    rw [addFields_append_singleton, addField, field?, Field.find?_put, ← field?, ih,
      List.reverse_concat, List.find?_cons]
    by_cases hname : f.name = name
    · simp [hname]
    · simp [hname, Ne.symm hname]

theorem Distinct.mem_fields_iff (h : t.Distinct) {f : Field} :
    f ∈ t.fields ↔ t.field? f.name = some f := by
  constructor
  · intro hf
    obtain ⟨before, later, hfields⟩ := List.append_of_mem hf
    rw [field?, List.find?_eq_some_iff_append]
    refine ⟨by simp, before, later, hfields, fun g hg => ?_⟩
    rw [Distinct, hfields, List.map_append, List.map_cons, List.nodup_append] at h
    have hne := h.2.2 g.name (List.mem_map_of_mem hg) f.name List.mem_cons_self
    simpa using hne
  · exact fun hf => List.mem_of_find?_eq_some hf

end TypeDef

namespace Introspection

open Json Text

/-- The texts of a type that do not nest too deep, with blanks around. Fields of one name may be
told any number of times. -/
structure ToldAs (t : TypeDef) (body : List Char) : Prop where
  shallow : nesting t ≤ maxDepth
  text : ∃ before inside after, Gap before ∧ TypeDefText t inside ∧ Gap after ∧
    body = before ++ inside ++ after

theorem ToldAs.decode_eq {t : TypeDef} {body : List Char} (h : ToldAs t body) :
    decode typeDef (encode body) = .ok (TypeDef.addFields { t with fields := [] } t.fields) := by
  obtain ⟨before, inside, after, hbefore, hinside, hafter, rfl⟩ := h.text
  exact decode_of_reads (fun _ => reads_typeDef_addFields h.shallow) hbefore hinside hafter

end Introspection

namespace Schema

open Introspection

/-- Of several types of one name the last one stays, under its name; there is no schema exactly if
none has the name of the root. The root is always found, also in a schema that came with a reply. Of
several fields of one name there is one, in the place of the first and as the last was defined; a
type that is decoded has the fields that it gets when they are added one by one. -/
theorem last_definition_stays (queryName : String) (defs : List TypeDef) :
    (ofTypes? queryName defs = none ↔ ∀ t ∈ defs, t.name ≠ queryName) ∧
      (∀ mutation subscription e,
        (Description.mk (some queryName) mutation subscription defs).schema = .error e ↔
          e = .missingQueryType queryName ∧ ∀ t ∈ defs, t.name ≠ queryName) ∧
      (∀ s, ofTypes? queryName defs = some s → s.queryName = queryName ∧ s.CollectedFrom defs) ∧
      (∀ body l, load body = .ok l → ∃ d errors, decode response body = .ok ⟨some d, errors⟩ ∧
        d.query = some l.schema.queryName ∧ l.schema.CollectedFrom d.types) ∧
      (∀ (t : TypeDef) fs, t.fields = [] →
        let u := fs.foldl TypeDef.addField t
        u = { t with fields := u.fields } ∧ u.fields.map (·.name) = (fs.map (·.name)).eraseDups ∧
          (∀ f, f ∈ u.fields ↔ IsLast Field.name fs f) ∧
          ∀ name f, u.field? name = some f ↔ f.name = name ∧ IsLast Field.name fs f) ∧
      (∀ t body, ToldAs t body →
        decode typeDef (Text.encode body) =
          .ok (t.fields.foldl TypeDef.addField { t with fields := [] })) ∧
      ∀ body t, decode typeDef body = .ok t → t.Distinct := by
  refine ⟨ofTypes?_eq_none_iff, ?_, ?_, ?_, ?_, fun t body => ToldAs.decode_eq,
    fun body t => of_decode fun limit => returns_typeDef limit Json.maxDepth⟩
  · intro mutation subscription e
    rw [← @ofTypes?_eq_none_iff queryName defs]
    cases h : ofTypes? queryName defs <;> simp [Description.schema, h, eq_comm]
  · intro s hs
    obtain ⟨hname, htypes, -⟩ := ofTypes?_eq_some_iff.1 hs
    exact ⟨hname, collectedFrom htypes⟩
  · intro body l hl
    obtain ⟨d, errors, hbody, hquery, htypes⟩ := exists_description_of_load hl
    exact ⟨d, errors, hbody, hquery, collectedFrom htypes⟩
  · intro t fs ht
    have hfield : ∀ name f, (t.addFields fs).field? name = some f ↔
        f.name = name ∧ IsLast Field.name fs f := by
      intro name f
      rw [TypeDef.field?_addFields ht, find?_reverse_eq_some_iff]
    have hdistinct : (t.addFields fs).Distinct :=
      TypeDef.Distinct.addFields (by simp [TypeDef.Distinct, ht]) fs
    have hmem : ∀ f, f ∈ (t.addFields fs).fields ↔ IsLast Field.name fs f := by
      intro f
      rw [hdistinct.mem_fields_iff, hfield]
      simp
    exact ⟨t.addFields_eq fs, TypeDef.names_addFields ht fs, hmem, hfield⟩

def scalarField (name type : String) : Field := { name, type := .named .scalar type }

def scalarFieldText (f : Field) : List Char :=
  Json.spacedObject [("name", Json.quotedText f.name), ("type", Json.spacedObject
    [("kind", Json.quotedText "SCALAR"), ("name", Json.quotedText (f.typeName?.getD ""))])]

theorem fieldText_scalarField {name type : String} (hname : Json.isPlain name = true)
    (htype : Json.isPlain type = true) :
    FieldText (scalarField name type) (scalarFieldText (scalarField name type)) := by
  have hlink : TypeRefText (.named .scalar type)
      (Json.spacedObject [("kind", Json.quotedText "SCALAR"), ("name", Json.quotedText type)]) := by
    apply Json.recordText_spacedObject (by simp) (by simp [Json.isPlain])
    constructor <;> simp [linkParts, Json.Part.required, Json.Part.maybe, TypeRef.named]
    exact ⟨Json.stringText_quotedText rfl, .some (Json.stringText_quotedText htype)⟩
  apply Json.recordText_spacedObject (by simp) (by simp [Json.isPlain])
  constructor
    <;> simp [fieldParts, Json.Part.required, Json.Part.maybe, Json.Part.many, Json.Part.mark,
      scalarField]
  exact ⟨Json.stringText_quotedText hname, hlink⟩

/-- A type that is defined twice, the second time with a field that is defined twice: it is read
with its two fields, the repeated one first and by its later definition. -/
theorem last_definition_stays_of_user :
    let fs := [scalarField "id" "Int", scalarField "name" "String", scalarField "id" "ID"]
    let user : TypeDef := { kind := .object, name := "User", fields := fs }
    let text := Json.spacedObject [("kind", Json.quotedText "OBJECT"),
      ("name", Json.quotedText "User"), ("fields", Json.spacedList (fs.map scalarFieldText))]
    let body := Json.spacedObject [("data", Json.spacedObject [("__schema",
      Json.spacedObject [("queryType", Json.spacedObject [("name", Json.quotedText "User")]),
        ("types", Json.spacedList [text, text])])])]
    (∃ s, ofTypes? "User" [{ kind := .scalar, name := "User" }, user] = some s ∧
      s.type? "User" = some user) ∧
      (∃ l, load (Text.encode body) = .ok l ∧ l.schema.query.name = l.schema.queryName) ∧
      ToldAs user text ∧
      decode typeDef (Text.encode text) =
        .ok { user with fields := [scalarField "id" "ID", scalarField "name" "String"] } := by
  intro fs user text body
  obtain ⟨hnone, -, hsome, hloaded, -, hdecoded, -⟩ :=
    last_definition_stays "User" [{ kind := .scalar, name := "User" }, user]
  have htold : ToldAs user text := by
    refine ⟨by decide, [], text, [], Json.gap_nil, ?_, Json.gap_nil, by simp⟩
    have hlist : Json.ListText FieldText fs (Json.spacedList (fs.map scalarFieldText)) :=
      Json.listText_spacedList_map (by simp [fs]) (by
        simp only [fs, List.forall_mem_cons, List.not_mem_nil, false_implies, implies_true,
          and_true]
        exact ⟨fieldText_scalarField rfl rfl, fieldText_scalarField rfl rfl,
          fieldText_scalarField rfl rfl⟩)
    apply Json.recordText_spacedObject (by simp) (by decide)
    constructor <;> simp [typeDefParts, Json.Part.required, Json.Part.maybe, Json.Part.many, user]
    exact ⟨Json.stringText_quotedText rfl, Json.stringText_quotedText rfl, .list hlist⟩
  refine ⟨?_, ?_, htold, hdecoded user text htold⟩
  · cases hs : ofTypes? "User" [{ kind := .scalar, name := "User" }, user] with
    | none => exact absurd rfl (hnone.1 hs user (by simp))
    | some s =>
      have huser : IsLast TypeDef.name [{ kind := .scalar, name := "User" }, user] user :=
        ⟨[_], [], rfl, by simp⟩
      exact ⟨s, rfl, ((hsome s hs).2.type?_eq_some_iff "User" user).2 ⟨rfl, huser⟩⟩
  · have hload : (load (Text.encode body)).toOption.isSome = true := by decide +kernel
    cases hl : load (Text.encode body) with
    | error e => rw [hl] at hload; cases hload
    | ok l =>
      obtain ⟨d, errors, -, -, hcollected⟩ := hloaded _ l hl
      exact ⟨l, rfl, hcollected.query.1⟩

end Schema

end SchemaWalk
