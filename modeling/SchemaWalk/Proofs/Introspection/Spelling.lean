import SchemaWalk.Introspection.Response
import SchemaWalk.Proofs.Json.Grammar

/-! # The replies in which a service may tell a schema -/
namespace SchemaWalk.Introspection

open Json

/-- The parts of a link, with the texts of the reference below it if there is one. -/
def linkParts (l : Link) (below : Option (List Char → Prop)) : List Part :=
  [.required "kind" (StringText l.kind.wireName), .maybe "name" (l.name.map StringText),
    .maybe "ofType" below]

def LinksText : Link → List Link → List Char → Prop
  | l, [] => RecordText (linkParts l none)
  | l, below :: links => RecordText (linkParts l (some (LinksText below links)))

def TypeRefText (t : TypeRef) : List Char → Prop := LinksText t.outer t.inner

def inputValueParts (v : InputValue) : List Part :=
  [.required "name" (StringText v.name), .maybe "description" (v.description.map StringText),
    .required "type" (TypeRefText v.type), .maybe "defaultValue" (v.defaultValue.map StringText)]

def InputValueText (v : InputValue) : List Char → Prop := RecordText (inputValueParts v)

def fieldParts (f : Field) : List Part :=
  [.required "name" (StringText f.name), .maybe "description" (f.description.map StringText),
    .many "args" InputValueText f.arguments, .required "type" (TypeRefText f.type),
    .mark "isDeprecated" f.isDeprecated,
    .maybe "deprecationReason" (f.deprecationReason.map StringText)]

def FieldText (f : Field) : List Char → Prop := RecordText (fieldParts f)

def enumValueParts (v : EnumValue) : List Part :=
  [.required "name" (StringText v.name), .maybe "description" (v.description.map StringText),
    .mark "isDeprecated" v.isDeprecated,
    .maybe "deprecationReason" (v.deprecationReason.map StringText)]

def EnumValueText (v : EnumValue) : List Char → Prop := RecordText (enumValueParts v)

/-- Only an empty name may be left out. -/
def typeDefParts (t : TypeDef) : List Part :=
  [.required "kind" (StringText t.kind.wireName), ⟨"name", StringText t.name, t.name = ""⟩,
    .maybe "description" (t.description.map StringText), .many "fields" FieldText t.fields,
    .many "inputFields" InputValueText t.inputFields, .many "interfaces" TypeRefText t.interfaces,
    .many "enumValues" EnumValueText t.enumValues,
    .many "possibleTypes" TypeRefText t.possibleTypes]

def TypeDefText (t : TypeDef) : List Char → Prop := RecordText (typeDefParts t)

def SingleText (member text : String) : List Char → Prop :=
  RecordText [.required member (StringText text)]

/-- The roots are given by their names, and all types in any order. -/
def descriptionParts (d : Description) : List Part :=
  [.maybe "queryType" (d.query.map (SingleText "name")),
    .maybe "mutationType" (d.mutation.map (SingleText "name")),
    .maybe "subscriptionType" (d.subscription.map (SingleText "name")),
    .many "types" TypeDefText d.types]

def DataText (d : Description) : List Char → Prop :=
  RecordText [.required "__schema" (RecordText (descriptionParts d))]

def responseParts (r : Response) : List Part :=
  [.maybe "data" (r.data.map DataText),
    .maybe "errors" (r.errors.map (ListText (SingleText "message")))]

inductive ReplyText (r : Response) : List Char → Prop
  | reply {before t after : List Char} (hbefore : Gap before) (ht : RecordText (responseParts r) t)
      (hafter : Gap after) : ReplyText r (before ++ t ++ after)

/-- All references that a type makes to others. -/
def references (t : TypeDef) : List TypeRef :=
  t.fields.flatMap (fun f => f.type :: f.arguments.map (·.type)) ++ t.inputFields.map (·.type) ++
    t.interfaces ++
    t.possibleTypes

/-- How deep a list nests, from how deep its items do. -/
def listNesting (items : List Nat) : Nat := items.max?.getD 0 + 1

def inputValueNesting (v : InputValue) : Nat := v.type.links.length + 1

def fieldNesting (f : Field) : Nat :=
  max f.type.links.length (listNesting (f.arguments.map inputValueNesting)) + 1

/-- How deep the lists and objects nest in the texts of a type. Each link of a reference stands
inside the one before it. -/
def nesting (t : TypeDef) : Nat :=
  let references := t.interfaces ++ t.possibleTypes
  listNesting (t.fields.map fieldNesting ++ t.inputFields.map inputValueNesting ++
    references.map (·.links.length) ++ t.enumValues.map fun _ => 1) + 1

theorem listNesting_pos (items : List Nat) : 0 < listNesting items := Nat.succ_pos _

theorem lt_listNesting {items : List Nat} {n : Nat} (h : n ∈ items) : n < listNesting items :=
  Nat.lt_succ_of_le (List.le_max?_getD_of_mem h)

theorem listNesting_le {items : List Nat} {n : Nat} (h : ∀ m ∈ items, m ≤ n) :
    listNesting items ≤ n + 1 := by
  apply Nat.succ_le_succ
  cases hmax : items.max? with
  | none => exact Nat.zero_le n
  | some m => exact (List.max?_le_iff hmax).2 h

/-- Five lists and objects stand around the reference of an argument, and around others fewer. -/
theorem nesting_le {t : TypeDef} {n : Nat} (h : ∀ r ∈ references t, r.links.length ≤ n) :
    nesting t ≤ n + 5 := by
  simp only [references, List.mem_append, List.mem_flatMap, List.mem_cons, List.mem_map] at h
  have hinput : ∀ {vs : List InputValue}, (∀ v ∈ vs, v.type.links.length ≤ n) →
      ∀ m ∈ vs.map inputValueNesting, m ≤ n + 1 := by
    rintro vs hvs m hm
    obtain ⟨v, hv, rfl⟩ := List.mem_map.1 hm
    exact Nat.succ_le_succ (hvs v hv)
  have hfields : ∀ m ∈ t.fields.map fieldNesting, m ≤ n + 3 := by
    intro m hm
    obtain ⟨f, hf, rfl⟩ := List.mem_map.1 hm
    have htype := h f.type (.inl (.inl (.inl ⟨f, hf, .inl rfl⟩)))
    have harguments := listNesting_le (hinput fun v hv =>
      h v.type (.inl (.inl (.inl ⟨f, hf, .inr ⟨v, hv, rfl⟩⟩))))
    rw [fieldNesting]
    omega
  apply Nat.succ_le_succ
  apply listNesting_le
  simp only [List.mem_append]
  rintro m (((hm | hm) | hm) | hm)
  · exact hfields m hm
  · have hvalue := hinput (fun v hv => h v.type (.inl (.inl (.inr ⟨v, hv, rfl⟩)))) m hm
    omega
  · obtain ⟨r, hr, rfl⟩ := List.mem_map.1 hm
    have hlinks := h r ((List.mem_append.1 hr).elim (fun hr => .inl (.inr hr)) .inr)
    omega
  · obtain ⟨v, -, rfl⟩ := List.mem_map.1 hm
    omega

/-- What replies can tell of a type: its references are not too long, and its fields
have different names. -/
structure Tellable (t : TypeDef) : Prop where
  short : ∀ r ∈ references t, r.links.length ≤ 100
  distinct : (t.fields.map (·.name)).Nodup

end SchemaWalk.Introspection
