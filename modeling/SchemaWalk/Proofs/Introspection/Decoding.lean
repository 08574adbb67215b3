import SchemaWalk.Proofs.Introspection.Records
import SchemaWalk.Proofs.Json.Layout

/-! # A schema comes back from every reply that tells it -/
namespace SchemaWalk.Introspection

open Json Text

theorem decode_of_reads {α : Type} {reader : Nat → Nat → Reader α} {texts : List Char → Prop}
    {a : α} (h : ∀ limit, Reads limit (reader limit maxDepth) texts a) {before t after : List Char}
    (hbefore : Gap before) (ht : texts t) (hafter : Gap after) :
    decode reader (encode (before ++ t ++ after)) = .ok a := by
  have hlimit : (encode t).length < (encode (before ++ t ++ after)).length + 1 := by
    simp only [encode_append, List.length_append]
    omega
  have hread := h _ hbefore ht hlimit (encode after)
  have hend : skipBlanks (encode after) = [] := by
    rw [← List.append_nil (encode after), hafter.skipBlanks]; rfl
  have hbytes : encode (before ++ t ++ after) = encode before ++ (encode t ++ encode after) := by
    simp only [encode_append, List.append_assoc]
  rw [← hbytes] at hread
  rw [decode, readAll, hread]
  simp only [bind, Except.bind, hend]
  rfl

theorem decode_reply {r : Response} (hr : ∀ d ∈ r.data, ∀ t ∈ d.types, Tellable t)
    {body : List Char} (hbody : ReplyText r body) : decode response (encode body) = .ok r := by
  obtain ⟨hbefore, ht, hafter⟩ := hbody
  exact decode_of_reads (fun _ => reads_response hr) hbefore ht hafter

theorem exists_schema_of_description {query : String} (mutation subscription : Option String)
    {defs : List TypeDef} (hdistinct : (defs.map (·.name)).Nodup)
    (hroot : query ∈ defs.map (·.name)) :
    ∃ s : Schema, (Description.mk (some query) mutation subscription defs).schema = .ok ⟨s, []⟩ ∧
      s.queryName = query ∧ s.mutationName = mutation ∧ s.subscriptionName = subscription ∧
      ∀ name, s.type? name = defs.find? (·.name = name) := by
  have hfind : ∀ name, (Schema.collect defs).find? name = defs.find? (·.name = name) := by
    intro name
    rw [Schema.find?_collect, Schema.find?_reverse_of_distinct hdistinct]
  have hdefined : ((Schema.collect defs).find? query).isSome := by
    obtain ⟨t, ht, hname⟩ := List.mem_map.1 hroot
    rw [hfind, List.find?_isSome]
    exact ⟨t, ht, decide_eq_true hname⟩
  have hschema : Schema.ofTypes? query defs =
      some ⟨query, none, none, Schema.collect defs, hdefined⟩ := dif_pos hdefined
  refine ⟨⟨query, mutation, subscription, Schema.collect defs, hdefined⟩, ?_, rfl, rfl, rfl, hfind⟩
  rw [Description.schema]
  simp only [hschema, Schema.redefined_of_distinct hdistinct]

/-- Whatever the order of members, the escapes and the blanks are, whatever members are there that
nobody asked for, and whichever empty parts are left out or null: a reply that tells a schema is
read as exactly that schema. -/
theorem load_every_spelling {query : String} {mutation subscription : Option String}
    {defs : List TypeDef} (hdistinct : (defs.map (·.name)).Nodup)
    (hroot : query ∈ defs.map (·.name)) (htellable : ∀ t ∈ defs, Tellable t)
    {errors : Option (List String)} {body : List Char}
    (hbody : ReplyText ⟨some ⟨some query, mutation, subscription, defs⟩, errors⟩ body) :
    ∃ s : Schema, load (encode body) = .ok ⟨s, []⟩ ∧ s.queryName = query ∧
      s.mutationName = mutation ∧ s.subscriptionName = subscription ∧
      ∀ name, s.type? name = defs.find? (·.name = name) := by
  have hreply : decode response (encode body) =
      .ok ⟨some ⟨some query, mutation, subscription, defs⟩, errors⟩ := by
    apply decode_reply _ hbody
    rintro d ⟨⟩
    exact htellable
  obtain ⟨s, hs, hholds⟩ := exists_schema_of_description mutation subscription hdistinct hroot
  refine ⟨s, ?_, hholds⟩
  rw [load, hreply]
  exact hs

/-- A schema of one type, told in an unusual order and with an escape, blanks, a null, parts left
out, an unknown member and an error beside the data. -/
theorem load_every_spelling_out_of_order :
    let type : TypeRef := ⟨⟨.scalar, some "Int"⟩, []⟩
    let query : TypeDef :=
      { kind := .object, name := "Query", fields := [{ name := "size", type := type }] }
    let typeText := spacedObject [("kind", "\"SCALAR\"".toList), ("name", "\"Int\"".toList)]
    let fieldText :=
      spacedObject [("type", typeText), ("args", "null".toList), ("name", "\"size\"".toList)]
    let queryText := spacedObject [("name", "\"Qu\\u0065ry\"".toList),
      ("fields", spacedList [fieldText]), ("kind", "\"OBJECT\"".toList)]
    let rootText := spacedObject [("name", "\"Query\"".toList)]
    let schemaText := spacedObject [("types", spacedList [queryText]), ("queryType", rootText)]
    let errorText := spacedObject [("path", "[7]".toList), ("message", "\"slow\"".toList)]
    let replyText := spacedObject
      [("data", spacedObject [("__schema", schemaText)]), ("errors", spacedList [errorText])]
    let body := [' '] ++ replyText ++ ['\n']
    ((([query].map (·.name)).Nodup ∧ "Query" ∈ [query].map (·.name) ∧ ∀ t ∈ [query], Tellable t) ∧
      ReplyText ⟨some ⟨some "Query", none, none, [query]⟩, some ["slow"]⟩ body) ∧
      ∃ s : Schema, load (encode body) = .ok ⟨s, []⟩ ∧ s.type? "Query" = some query := by
  intro type query typeText fieldText queryText rootText schemaText errorText replyText body
  have hname : StringText "Query" "\"Qu\\u0065ry\"".toList := by
    have hquad : HexQuad ['0', '0', '6', '5'] (((0 * 16 + 0) * 16 + 6) * 16 + 5) :=
      .digits (.inl rfl) (.inl rfl) (.inl rfl) (.inl rfl)
    have hescape : CharacterText 'e' ['\\', 'u', '0', '0', '6', '5'] := .unicode hquad
    have hbefore : CharactersText "Qu".toList "Qu".toList := charactersText_plain rfl
    have hafter : CharactersText "ry".toList "ry".toList := charactersText_plain rfl
    exact @StringText.quoted "Query" _ (hbefore.append (.cons hescape hafter))
  have hpath : ValueText "[7]".toList := by
    have hnumber : NumberText ([] ++ (['7'] ++ ([] ++ []))) :=
      .parts (.inl rfl) (.digits (by decide) ⟨by simp, by simp⟩) .none .none
    have hitems : ∀ v ∈ [['7']], ValueText v := by simpa using ValueText.number hnumber
    exact .list hitems (listText_spacedList rfl)
  have htype : TypeRefText type typeText := by
    apply recordText_spacedObject (by simp) (by decide)
    constructor <;> simp [linkParts, Part.required, Part.maybe, type]
    exact ⟨stringText_quotedText rfl, .some (stringText_quotedText rfl)⟩
  have hfield : FieldText { name := "size", type := type } fieldText := by
    apply recordText_spacedObject (by simp) (by decide)
    constructor <;> simp [fieldParts, Part.required, Part.maybe, Part.many, Part.mark]
    exact ⟨stringText_quotedText rfl, .null, htype⟩
  have hquery : TypeDefText query queryText := by
    apply recordText_spacedObject (by simp) (by decide)
    constructor <;> simp [typeDefParts, Part.required, Part.maybe, Part.many, query]
    exact ⟨stringText_quotedText rfl, hname, .list (listText_spacedList hfield)⟩
  have hroot : SingleText "name" "Query" rootText := by
    apply recordText_spacedObject (by simp) (by decide)
    constructor <;> simp [Part.required]
    exact stringText_quotedText rfl
  have hschema : RecordText (descriptionParts ⟨some "Query", none, none, [query]⟩) schemaText := by
    apply recordText_spacedObject (by simp) (by decide)
    constructor <;> simp [descriptionParts, Part.maybe, Part.many]
    exact ⟨.some hroot, .list (listText_spacedList hquery)⟩
  have hdata :
      DataText ⟨some "Query", none, none, [query]⟩ (spacedObject [("__schema", schemaText)]) := by
    apply recordText_spacedObject (by simp) (by decide)
    constructor <;> simp [Part.required]
    exact hschema
  have herror : SingleText "message" "slow" errorText := by
    apply recordText_spacedObject (by simp) (by decide)
    constructor <;> simp [Part.required]
    · exact stringText_quotedText rfl
    · exact hpath
  have hreply : RecordText (responseParts ⟨some ⟨some "Query", none, none, [query]⟩, some ["slow"]⟩)
      replyText := by
    apply recordText_spacedObject (by simp) (by decide)
    constructor <;> simp [responseParts, Part.maybe]
    exact ⟨.some hdata, .some (listText_spacedList herror)⟩
  have hbody : ReplyText ⟨some ⟨some "Query", none, none, [query]⟩, some ["slow"]⟩ body :=
    .reply gap_space hreply (by simp [Gap])
  have htellable : ∀ t ∈ [query], Tellable t := by
    rintro t ht
    obtain rfl := List.mem_singleton.1 ht
    exact ⟨by simp [references, query, type, TypeRef.links], by simp [query]⟩
  have hdistinct : ([query].map (·.name)).Nodup := by simp
  have hmem : "Query" ∈ [query].map (·.name) := by simp [query]
  obtain ⟨s, hload, -, -, -, htypes⟩ := load_every_spelling hdistinct hmem htellable hbody
  refine ⟨⟨⟨hdistinct, hmem, htellable⟩, hbody⟩, s, hload, ?_⟩
  rw [htypes]
  rfl

end SchemaWalk.Introspection
