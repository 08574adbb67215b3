import SchemaWalk.Proofs.Introspection.Loading
import SchemaWalk.Proofs.Json.Returning

/-! # Whatever a reply holds, no type that is read from it lists two fields of one name -/
namespace SchemaWalk

theorem Field.distinct_put {f : Field} {fs : List Field} (h : (fs.map (·.name)).Nodup) :
    ((f.put fs).map (·.name)).Nodup := by
  rw [names_put]
  split
  · exact h
  · next hnew =>
    rw [List.nodup_append]
    refine ⟨h, by simp, fun name hname other hother => ?_⟩
    rw [List.mem_singleton.1 hother]
    exact fun heq => hnew (heq ▸ hname)

namespace TypeDef

/-- No two fields have one name. -/
def Distinct (t : TypeDef) : Prop := (t.fields.map (·.name)).Nodup

instance : DecidablePred TypeDef.Distinct :=
  fun t => inferInstanceAs (Decidable (t.fields.map (·.name)).Nodup)

theorem Distinct.addFields {t : TypeDef} (h : t.Distinct) (fs : List Field) :
    (t.addFields fs).Distinct := by
  induction fs generalizing t with
  | nil => exact h
  | cons f fs ih => exact ih (t := t.addField f) (Field.distinct_put h)

end TypeDef

namespace Introspection

open Json

variable (limit : Nat)

theorem returns_typeDef (depth : Nat) : Returns (typeDef limit depth) TypeDef.Distinct := by
  have hshape : ∀ depth, (typeDefShape limit depth).Keeps (fun _ => True) TypeDef.Distinct := by
    intro depth
    refine ⟨fun m _ => m.keeps_any, trivial, fun d t _ hcomplete => ?_⟩
    simp only [typeDefShape] at hcomplete
    split at hcomplete
    · cases hcomplete
    · cases hcomplete
      apply TypeDef.Distinct.addFields
      exact List.nodup_nil
  exact returns_record hshape "SchemaType" depth

theorem returns_description (depth : Nat) :
    Returns (description limit depth) fun d => ∀ t ∈ d.types, t.Distinct := by
  have hshape : ∀ depth, (descriptionShape limit depth).Keeps (fun d => ∀ t ∈ d.types, t.Distinct)
      fun d => ∀ t ∈ d.types, t.Distinct := by
    intro depth
    have htypes :
        Returns (listOrNull limit (nested (typeDef limit) depth)) fun ts => ∀ t ∈ ts, t.Distinct :=
      Returns.listOrNull (returns_typeDef limit) depth
    refine ⟨?_, by simp [descriptionShape], fun d _ hd hcomplete => by cases hcomplete; exact hd⟩
    simp only [descriptionShape, List.forall_mem_cons, List.not_mem_nil, false_implies,
      implies_true, and_true]
    refine ⟨?query, ?mutation, ?subscription, ?types⟩
    case types => exact Member.keeps_storing htypes fun _ hts _ _ => hts
    all_goals exact Member.keeps_storing (returns_any _) fun _ _ _ hd => hd
  exact returns_record hshape "WireSchema" depth

theorem returns_data (depth : Nat) :
    Returns (record limit "IntrospectionData" (nested (dataShape limit) depth)) fun d =>
      ∀ t ∈ d.types, t.Distinct := by
  have hshape : ∀ depth, (dataShape limit depth).Keeps (fun x => ∀ d ∈ x, ∀ t ∈ d.types, t.Distinct)
      fun d => ∀ t ∈ d.types, t.Distinct := by
    intro depth
    refine ⟨?_, by simp [dataShape], fun x d hx hcomplete => ?_⟩
    · simp only [dataShape, List.forall_mem_singleton]
      exact Member.keeps_storing (returns_description limit depth) fun d hd _ _ => by simpa using hd
    · cases x with
      | none => cases hcomplete
      | some d => cases hcomplete; exact hx d rfl
  exact returns_record hshape "IntrospectionData" depth

theorem returns_response (depth : Nat) :
    Returns (response limit depth) fun r => ∀ d ∈ r.data, ∀ t ∈ d.types, t.Distinct := by
  have hshape : ∀ depth, (responseShape limit depth).Keeps
      (fun r => ∀ d ∈ r.data, ∀ t ∈ d.types, t.Distinct) fun r =>
      ∀ d ∈ r.data, ∀ t ∈ d.types, t.Distinct := by
    intro depth
    refine ⟨?_, by simp [responseShape], fun r _ hr hcomplete => by cases hcomplete; exact hr⟩
    simp only [responseShape, List.forall_mem_cons, List.not_mem_nil, false_implies, implies_true,
      and_true]
    refine ⟨?data, ?errors⟩
    case data => exact Member.keeps_storing (returns_data limit depth).optional fun _ hx _ _ => hx
    case errors => exact Member.keeps_storing (returns_any _) fun _ _ _ hr => hr
  exact returns_record hshape "IntrospectionResponse" depth

theorem of_decode {α : Type} {reader : Nat → Nat → Reader α} {P : α → Prop}
    (hreader : ∀ limit, Returns (reader limit maxDepth) P) {body : Bytes} {a : α}
    (h : decode reader body = .ok a) : P a := by
  rw [decode] at h
  cases hread : readAll (fun limit => reader limit maxDepth) body with
  | error fault => rw [hread] at h; cases h
  | ok b =>
    rw [hread] at h
    cases h
    exact Returns.readAll hreader hread

theorem distinct_of_decode {body : Bytes} {r : Response} (h : decode response body = .ok r) :
    ∀ d ∈ r.data, ∀ t ∈ d.types, t.Distinct :=
  of_decode (fun limit => returns_response limit maxDepth) h

theorem exists_distinct_of_load {body : Bytes} {l : Loaded} (h : load body = .ok l) :
    ∃ defs, l.schema.types = Schema.collect defs ∧ ∀ t ∈ defs, t.Distinct := by
  obtain ⟨d, errors, hbody, -, htypes⟩ := exists_description_of_load h
  exact ⟨d.types, htypes, distinct_of_decode hbody d rfl⟩

end Introspection

end SchemaWalk
