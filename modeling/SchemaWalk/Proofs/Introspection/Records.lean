import SchemaWalk.Proofs.Introspection.Spelling
import SchemaWalk.Proofs.Json.RecordText
import SchemaWalk.Proofs.Schema.Collected

/-! # Reading the records of a reply, each from all texts that tell it -/
namespace SchemaWalk.Introspection

open Json

variable {limit : Nat}

theorem reads_kind (depth : Nat) (k : Kind) :
    Reads limit (kind limit depth) (StringText k.wireName) k := by
  intro gap t hgap ht hlimit rest
  obtain ⟨u, hu, htail⟩ := ht.tail hlimit rest
  have hlookup : (Kind.all.map fun k => (k.wireName, k)).lookup k.wireName = some k := by
    cases k <;> rfl
  rw [kind, variant, hgap.skipBlanks, hu, List.cons_append, skipBlanks_cons rfl]
  simp only [if_true, htail, bind, Except.bind, hlookup]

theorem reads_optionalString (x : Option String) :
    Reads limit (optionalString limit) (OptionText (x.map StringText)) x :=
  reads_optional StringText.reads (fun _ _ => StringText.opening) x

/-! ## References -/

def linkDraft (l : Link) (below : Option TypeRef) (seen : List String) : LinkDraft where
  kind := held seen "kind" (some l.kind) none
  name := held seen "name" l.name none
  below := held seen "ofType" below none

theorem reads_link (depth : Nat) (l : Link) {below : Option TypeRef}
    {texts : Option (List Char → Prop)} {reader : Reader TypeRef}
    (hbelow : Reads limit (optional reader) (OptionText texts) below)
    (hnone : texts = none → below = none) :
    Reads limit (record limit "TypeRef" (some (linkShape limit depth reader)))
      (RecordText (linkParts l texts)) ⟨l, (below.map TypeRef.links).getD []⟩ := by
  have hfits : FitsAll limit (linkDraft l below) (linkShape limit depth reader).members
      (linkParts l texts) := by
    refine .storing rfl (reads_kind depth l.kind) ?_ (.storing rfl (reads_optionalString l.name) ?_
      (.storing rfl hbelow ?_ .nil))
    all_goals
      intro seen
      simp [linkDraft, held_cons, Part.required, Part.maybe]
  refine reads_record "TypeRef" hfits rfl fun seen htold => ?_
  simp only [linkParts, List.forall_mem_cons, Part.required, Part.maybe, Option.map_eq_none_iff]
    at htold
  obtain ⟨hkind, hname, hofType, -⟩ := htold
  have hdraft : linkDraft l below seen = ⟨some l.kind, l.name, below⟩ := by
    rw [linkDraft, held_eq fun h => (hkind h).elim, held_eq hname,
      held_eq fun h => hnone (hofType h)]
  rw [hdraft]
  cases below <;> rfl

theorem linksText_opening {l : Link} {inner : List Link} {t : List Char} (h : LinksText l inner t) :
    Opening t := by
  cases inner with
  | nil => exact RecordText.opening h
  | cons => exact RecordText.opening h

theorem reads_links (l : Link) (inner : List Link) {depth : Nat} (hdepth : inner.length < depth) :
    Reads limit (typeRef limit depth) (LinksText l inner) ⟨l, inner⟩ := by
  induction inner generalizing l depth with
  | nil =>
    obtain ⟨depth, rfl⟩ := Nat.exists_eq_add_of_le' (Nat.one_le_of_lt hdepth)
    exact reads_link depth l (reads_null _) fun _ => rfl
  | cons below inner ih =>
    obtain ⟨depth, rfl⟩ := Nat.exists_eq_add_of_le' (Nat.one_le_of_lt hdepth)
    have hbelow := ih below (Nat.lt_of_succ_lt_succ hdepth)
    exact reads_link depth l (hbelow.optional fun _ => linksText_opening) (by simp)

theorem reads_typeRef {t : TypeRef} {depth : Nat} (h : t.links.length ≤ depth) :
    Reads limit (typeRef limit depth) (TypeRefText t) t :=
  reads_links t.outer t.inner (by rwa [TypeRef.links, List.length_cons] at h)

/-! ## Arguments, fields and values -/

def inputValueDraft (v : InputValue) (seen : List String) : InputValueDraft where
  name := held seen "name" (some v.name) none
  description := held seen "description" v.description none
  type := held seen "type" (some v.type) none
  defaultValue := held seen "defaultValue" v.defaultValue none

theorem reads_inputValue {v : InputValue} {depth : Nat} (h : inputValueNesting v ≤ depth) :
    Reads limit (inputValue limit depth) (InputValueText v) v := by
  rw [inputValueNesting] at h
  obtain ⟨depth, rfl⟩ := Nat.exists_eq_add_of_le' (show 1 ≤ depth by omega)
  have hfits : FitsAll limit (inputValueDraft v) (inputValueShape limit depth).members
      (inputValueParts v) := by
    refine .storing rfl (StringText.reads v.name) ?_ (.storing rfl
      (reads_optionalString v.description) ?_ (.storing rfl (reads_typeRef (by omega)) ?_
        (.storing rfl (reads_optionalString v.defaultValue) ?_ .nil)))
    all_goals
      intro seen
      simp [inputValueDraft, held_cons, Part.required, Part.maybe]
  refine reads_record "InputValue" hfits rfl fun seen htold => ?_
  simp only [inputValueParts, List.forall_mem_cons, Part.required, Part.maybe,
    Option.map_eq_none_iff] at htold
  obtain ⟨hname, hdescription, htype, hdefault, -⟩ := htold
  have hdraft : inputValueDraft v seen =
      ⟨some v.name, v.description, some v.type, v.defaultValue⟩ := by
    rw [inputValueDraft, held_eq fun h => (hname h).elim, held_eq hdescription,
      held_eq fun h => (htype h).elim, held_eq hdefault]
  rw [hdraft]
  rfl

def fieldDraft (f : Field) (seen : List String) : FieldDraft where
  name := held seen "name" (some f.name) none
  description := held seen "description" f.description none
  arguments := held seen "args" f.arguments []
  type := held seen "type" (some f.type) none
  isDeprecated := held seen "isDeprecated" f.isDeprecated false
  deprecationReason := held seen "deprecationReason" f.deprecationReason none

theorem reads_field {f : Field} {depth : Nat} (h : fieldNesting f ≤ depth) :
    Reads limit (field limit depth) (FieldText f) f := by
  rw [fieldNesting] at h
  have hlist := listNesting_pos (f.arguments.map inputValueNesting)
  obtain ⟨depth, rfl⟩ := Nat.exists_eq_add_of_le' (show 2 ≤ depth by omega)
  have hread : ∀ v ∈ f.arguments, Reads limit (inputValue limit depth) (InputValueText v) v := by
    intro v hv
    have hvalue := lt_listNesting (List.mem_map_of_mem (f := inputValueNesting) hv)
    exact reads_inputValue (by omega)
  have hfits :
      FitsAll limit (fieldDraft f) (fieldShape limit (depth + 1)).members (fieldParts f) := by
    refine .storing rfl (StringText.reads f.name) ?_ (.storing rfl
      (reads_optionalString f.description) ?_ (.storing rfl
        (reads_listOrNull hread fun _ _ => RecordText.opening) ?_
        (.storing rfl (reads_typeRef (by omega)) ?_ (.storing rfl (reads_boolean f.isDeprecated) ?_
          (.storing rfl (reads_optionalString f.deprecationReason) ?_ .nil)))))
    all_goals
      intro seen
      simp [fieldDraft, held_cons, Part.required, Part.maybe, Part.many, Part.mark]
  refine reads_record "SchemaField" hfits rfl fun seen htold => ?_
  simp only [fieldParts, List.forall_mem_cons, Part.required, Part.maybe, Part.many, Part.mark,
    Option.map_eq_none_iff] at htold
  obtain ⟨hname, hdescription, hargs, htype, hmark, hreason, -⟩ := htold
  have hdraft : fieldDraft f seen = ⟨some f.name, f.description, f.arguments, some f.type,
      f.isDeprecated, f.deprecationReason⟩ := by
    rw [fieldDraft, held_eq fun h => (hname h).elim, held_eq hdescription, held_eq hargs,
      held_eq fun h => (htype h).elim, held_eq hmark, held_eq hreason]
  rw [hdraft]
  rfl

def enumValueDraft (v : EnumValue) (seen : List String) : EnumValueDraft where
  name := held seen "name" (some v.name) none
  description := held seen "description" v.description none
  isDeprecated := held seen "isDeprecated" v.isDeprecated false
  deprecationReason := held seen "deprecationReason" v.deprecationReason none

theorem reads_enumValue (v : EnumValue) {depth : Nat} (hdepth : 1 ≤ depth) :
    Reads limit (enumValue limit depth) (EnumValueText v) v := by
  obtain ⟨depth, rfl⟩ := Nat.exists_eq_add_of_le' hdepth
  have hfits :
      FitsAll limit (enumValueDraft v) (enumValueShape limit depth).members (enumValueParts v) := by
    refine .storing rfl (StringText.reads v.name) ?_ (.storing rfl
      (reads_optionalString v.description) ?_ (.storing rfl (reads_boolean v.isDeprecated) ?_
        (.storing rfl (reads_optionalString v.deprecationReason) ?_ .nil)))
    all_goals
      intro seen
      simp [enumValueDraft, held_cons, Part.required, Part.maybe, Part.mark]
  refine reads_record "EnumValue" hfits rfl fun seen htold => ?_
  simp only [enumValueParts, List.forall_mem_cons, Part.required, Part.maybe, Part.mark,
    Option.map_eq_none_iff] at htold
  obtain ⟨hname, hdescription, hmark, hreason, -⟩ := htold
  have hdraft : enumValueDraft v seen =
      ⟨some v.name, v.description, v.isDeprecated, v.deprecationReason⟩ := by
    rw [enumValueDraft, held_eq fun h => (hname h).elim, held_eq hdescription, held_eq hmark,
      held_eq hreason]
  rw [hdraft]
  rfl

/-! ## Types -/

def typeDefDraft (t : TypeDef) (seen : List String) : TypeDefDraft where
  kind := held seen "kind" (some t.kind) none
  name := held seen "name" t.name ""
  description := held seen "description" t.description none
  fields := held seen "fields" t.fields []
  inputFields := held seen "inputFields" t.inputFields []
  interfaces := held seen "interfaces" t.interfaces []
  enumValues := held seen "enumValues" t.enumValues []
  possibleTypes := held seen "possibleTypes" t.possibleTypes []

/-- The fields are told one after the other, and are put together in that order. -/
theorem reads_typeDef_addFields {t : TypeDef} {depth : Nat} (h : nesting t ≤ depth) :
    Reads limit (typeDef limit depth) (TypeDefText t)
      (TypeDef.addFields { t with fields := [] } t.fields) := by
  simp only [nesting] at h
  generalize hinside : t.fields.map fieldNesting ++ t.inputFields.map inputValueNesting ++
    (t.interfaces ++ t.possibleTypes).map (·.links.length) ++ t.enumValues.map (fun _ => 1) = inside
    at h
  have hlist := listNesting_pos inside
  obtain ⟨depth, rfl⟩ := Nat.exists_eq_add_of_le' (show 2 ≤ depth by omega)
  have hbelow : ∀ n ∈ inside, n ≤ depth := by
    intro n hn
    have hlt := lt_listNesting hn
    omega
  simp only [← hinside, List.mem_append, List.mem_map, or_imp, forall_and, forall_exists_index,
    and_imp, forall_apply_eq_imp_iff₂] at hbelow
  obtain ⟨⟨⟨hfields, hinput⟩, hinterfaces, hpossible⟩, hvalues⟩ := hbelow
  have hfields : ∀ f ∈ t.fields, Reads limit (field limit depth) (FieldText f) f :=
    fun f hf => reads_field (hfields f hf)
  have hinput : ∀ v ∈ t.inputFields, Reads limit (inputValue limit depth) (InputValueText v) v :=
    fun v hv => reads_inputValue (hinput v hv)
  have hinterfaces : ∀ r ∈ t.interfaces, Reads limit (typeRef limit depth) (TypeRefText r) r :=
    fun r hr => reads_typeRef (hinterfaces r hr)
  have hvalues : ∀ v ∈ t.enumValues, Reads limit (enumValue limit depth) (EnumValueText v) v :=
    fun v hv => reads_enumValue v (hvalues v hv)
  have hpossible : ∀ r ∈ t.possibleTypes, Reads limit (typeRef limit depth) (TypeRefText r) r :=
    fun r hr => reads_typeRef (hpossible r hr)
  have hfits :
      FitsAll limit (typeDefDraft t) (typeDefShape limit (depth + 1)).members (typeDefParts t) := by
    refine .storing rfl (reads_kind _ t.kind) ?_ (.storing rfl (StringText.reads t.name) ?_
      (.storing rfl (reads_optionalString t.description) ?_
      (.storing rfl (reads_listOrNull hfields fun _ _ => RecordText.opening) ?_
      (.storing rfl (reads_listOrNull hinput fun _ _ => RecordText.opening) ?_
      (.storing rfl (reads_listOrNull hinterfaces fun _ _ => linksText_opening) ?_
      (.storing rfl (reads_listOrNull hvalues fun _ _ => RecordText.opening) ?_
      (.storing rfl (reads_listOrNull hpossible fun _ _ => linksText_opening) ?_ .nil)))))))
    all_goals
      intro seen
      simp [typeDefDraft, held_cons, Part.required, Part.maybe, Part.many]
  refine reads_record "SchemaType" hfits rfl fun seen htold => ?_
  simp only [typeDefParts, List.forall_mem_cons, Part.required, Part.maybe, Part.many,
    Option.map_eq_none_iff] at htold
  obtain ⟨hkind, hname, hdescription, hfields, hinput, hinterfaces, hvalues, hpossible, -⟩ := htold
  have hdraft : typeDefDraft t seen = ⟨some t.kind, t.name, t.description, t.fields, t.inputFields,
      t.interfaces, t.enumValues, t.possibleTypes⟩ := by
    rw [typeDefDraft, held_eq fun h => (hkind h).elim, held_eq hname, held_eq hdescription,
      held_eq hfields, held_eq hinput, held_eq hinterfaces, held_eq hvalues, held_eq hpossible]
  rw [hdraft]
  rfl

theorem reads_typeDef {t : TypeDef} (ht : Tellable t) {depth : Nat} (hdepth : 105 ≤ depth) :
    Reads limit (typeDef limit depth) (TypeDefText t) t := by
  have hadd : TypeDef.addFields { t with fields := [] } t.fields = t :=
    TypeDef.addFields_of_distinct ht.distinct
  have hread : Reads limit (typeDef limit depth) (TypeDefText t)
      (TypeDef.addFields { t with fields := [] } t.fields) :=
    reads_typeDef_addFields (Nat.le_trans (nesting_le ht.short) hdepth)
  rwa [hadd] at hread

/-! ## The whole reply -/

theorem reads_single {α : Type} {shape : Shape (Option α) α} {reader : Reader α}
    {texts : List Char → Prop} {a : α} (record member : String)
    (hmembers : shape.members = [.storing member reader fun x _ => some x])
    (hblank : shape.blank = none) (hcomplete : shape.complete (some a) = .ok a)
    (h : Reads limit reader texts a) :
    Reads limit (Json.record limit record (some shape)) (RecordText [.required member texts])
      a := by
  have hfits : FitsAll limit (fun seen => held seen member (some a) none) shape.members
      [.required member texts] := by
    rw [hmembers]
    refine .storing rfl h (fun seen => ?_) .nil
    simp [held_cons, Part.required]
  refine reads_record record hfits hblank fun seen htold => ?_
  simp only [List.forall_mem_cons, Part.required] at htold
  rw [held_eq fun hmember => (htold.1 hmember).elim, hcomplete]

theorem reads_singleText (record member text : String) {depth : Nat} (hdepth : 1 ≤ depth) :
    Reads limit (singleText limit record member depth) (SingleText member text) text := by
  obtain ⟨depth, rfl⟩ := Nat.exists_eq_add_of_le' hdepth
  exact reads_single record member rfl rfl rfl (StringText.reads text)

def descriptionDraft (d : Description) (seen : List String) : Description where
  query := held seen "queryType" d.query none
  mutation := held seen "mutationType" d.mutation none
  subscription := held seen "subscriptionType" d.subscription none
  types := held seen "types" d.types []

theorem reads_description {d : Description} (hd : ∀ t ∈ d.types, Tellable t) {depth : Nat}
    (hdepth : 107 ≤ depth) :
    Reads limit (description limit depth) (RecordText (descriptionParts d)) d := by
  obtain ⟨depth, rfl⟩ := Nat.exists_eq_add_of_le' (show 2 ≤ depth by omega)
  have hroot : ∀ name, Reads limit (optional (singleText limit "RootTypeName" "name" (depth + 1)))
      (OptionText (name.map (SingleText "name"))) name :=
    reads_optional (fun text => reads_singleText _ _ text (by omega)) fun _ _ => RecordText.opening
  have htypes : ∀ t ∈ d.types, Reads limit (typeDef limit depth) (TypeDefText t) t :=
    fun t ht => reads_typeDef (hd t ht) (by omega)
  have hfits : FitsAll limit (descriptionDraft d) (descriptionShape limit (depth + 1)).members
      (descriptionParts d) := by
    refine .storing rfl (hroot d.query) ?_ (.storing rfl (hroot d.mutation) ?_
      (.storing rfl (hroot d.subscription) ?_
        (.storing rfl (reads_listOrNull htypes fun _ _ => RecordText.opening) ?_ .nil)))
    all_goals
      intro seen
      simp [descriptionDraft, held_cons, Part.maybe, Part.many]
  refine reads_record "WireSchema" hfits rfl fun seen htold => ?_
  simp only [descriptionParts, List.forall_mem_cons, Part.maybe, Part.many, Option.map_eq_none_iff]
    at htold
  obtain ⟨hquery, hmutation, hsubscription, htypes, -⟩ := htold
  have hdraft : descriptionDraft d seen = d := by
    rw [descriptionDraft, held_eq hquery, held_eq hmutation, held_eq hsubscription, held_eq htypes]
  rw [hdraft]
  rfl

def responseDraft (r : Response) (seen : List String) : Response where
  data := held seen "data" r.data none
  errors := held seen "errors" r.errors none

theorem reads_response {r : Response} (hr : ∀ d ∈ r.data, ∀ t ∈ d.types, Tellable t) :
    Reads limit (response limit maxDepth) (RecordText (responseParts r)) r := by
  have hdata : Reads limit
      (optional (record limit "IntrospectionData" (nested (dataShape limit) 126)))
      (OptionText (r.data.map DataText)) r.data := by
    cases h : r.data with
    | none => exact reads_null _
    | some d =>
      have hread : Reads limit (description limit 125) (RecordText (descriptionParts d)) d :=
        reads_description (hr d h) (by omega)
      exact (reads_single "IntrospectionData" "__schema" rfl rfl rfl hread).optional fun _ =>
        RecordText.opening
  have hmessage : ∀ text, Reads limit (singleText limit "ResponseError" "message" 125)
      (SingleText "message" text) text := fun text => reads_singleText _ _ text (by omega)
  have herrors : Reads limit
      (optional (list limit (nested (singleText limit "ResponseError" "message") 126)))
      (OptionText (r.errors.map (ListText (SingleText "message")))) r.errors :=
    reads_optional (fun _ => reads_list (fun text _ => hmessage text) fun _ _ => RecordText.opening)
      (fun _ _ => listText_opening) r.errors
  have hfits :
      FitsAll limit (responseDraft r) (responseShape limit 126).members (responseParts r) := by
    refine .storing rfl hdata ?_ (.storing rfl herrors ?_ .nil)
    all_goals
      intro seen
      simp [responseDraft, held_cons, Part.maybe]
  refine reads_record "IntrospectionResponse" hfits rfl fun seen htold => ?_
  simp only [responseParts, List.forall_mem_cons, Part.maybe, Option.map_eq_none_iff] at htold
  obtain ⟨hdata, herrors, -⟩ := htold
  have hdraft : responseDraft r seen = r := by rw [responseDraft, held_eq hdata, held_eq herrors]
  rw [hdraft]
  rfl

end SchemaWalk.Introspection
