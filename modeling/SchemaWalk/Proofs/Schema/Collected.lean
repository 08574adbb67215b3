import SchemaWalk.Proofs.Dictionary
import SchemaWalk.Schema.Basic

/-! # Definitions under their names: which of several with one name stays, and where -/
namespace SchemaWalk

namespace Schema

theorem find?_collect (defs : List TypeDef) (name : String) :
    (collect defs).find? name = defs.reverse.find? (·.name = name) := by
  rw [collect, Dictionary.find?_ofList, ← List.map_reverse]
  induction defs.reverse with
  | nil => rfl
  | cons t later ih =>
    rw [List.map_cons, Dictionary.lookup_cons, ih]
    by_cases h : t.name = name
    · simp [h]
    · simp [h, Ne.symm h]

theorem isSome_find?_collect {defs : List TypeDef} {name : String} :
    ((collect defs).find? name).isSome ↔ ∃ t ∈ defs, t.name = name := by
  simp [find?_collect]

theorem of_find?_collect {defs : List TypeDef} {name : String} {t : TypeDef}
    (h : (collect defs).find? name = some t) : t ∈ defs ∧ t.name = name := by
  rw [find?_collect] at h
  exact ⟨List.mem_reverse.1 (List.mem_of_find?_eq_some h), by simpa using List.find?_some h⟩

theorem ofTypes?_eq_some_iff {queryName : String} {defs : List TypeDef} {s : Schema} :
    ofTypes? queryName defs = some s ↔
      s.queryName = queryName ∧ s.types = collect defs ∧ s.mutationName = none ∧
        s.subscriptionName = none := by
  constructor
  · intro h
    simp only [ofTypes?] at h
    split at h
    · cases h
      exact ⟨rfl, rfl, rfl, rfl⟩
    · cases h
  · obtain ⟨queryName, mutation, subscription, types, hdefined⟩ := s
    rintro ⟨rfl, rfl, rfl, rfl⟩
    exact dif_pos hdefined

theorem ofTypes?_eq_none_iff {queryName : String} {defs : List TypeDef} :
    ofTypes? queryName defs = none ↔ ∀ t ∈ defs, t.name ≠ queryName := by
  have hdefined := @isSome_find?_collect defs queryName
  simp only [ofTypes?]
  split
  · next h =>
    obtain ⟨t, ht, hname⟩ := hdefined.1 h
    exact iff_of_false (by simp) fun hnone => hnone t ht hname
  · next h => exact iff_of_true rfl fun t ht hname => h (hdefined.2 ⟨t, ht, hname⟩)

theorem find?_reverse_of_distinct {defs : List TypeDef} (h : (defs.map (·.name)).Nodup)
    (name : String) : defs.reverse.find? (·.name = name) = defs.find? (·.name = name) := by
  induction defs with
  | nil => rfl
  | cons t defs ih =>
    rw [List.map_cons, List.nodup_cons] at h
    rw [List.reverse_cons, List.find?_append, ih h.2]
    by_cases ht : t.name = name
    · have hnone : defs.find? (·.name = name) = none := by
        rw [List.find?_eq_none]
        intro u hu hname
        apply h.1
        rw [ht, ← of_decide_eq_true hname]
        exact List.mem_map_of_mem hu
      simp [ht, hnone]
    · simp [ht]

theorem redefinedAfter_of_distinct {seen : List String} {defs : List TypeDef}
    (h : (defs.map (·.name)).Nodup) (hseen : ∀ t ∈ defs, t.name ∉ seen) :
    redefinedAfter seen defs = [] := by
  induction defs generalizing seen with
  | nil => rfl
  | cons t defs ih =>
    rw [List.map_cons, List.nodup_cons] at h
    rw [List.forall_mem_cons] at hseen
    have hnew : seen.contains t.name = false := by simpa using hseen.1
    rw [redefinedAfter, hnew, if_neg Bool.false_ne_true]
    apply ih h.2
    intro u hu hmem
    rcases List.mem_cons.1 hmem with hname | hmem
    · exact h.1 (hname ▸ List.mem_map_of_mem hu)
    · exact hseen.2 u hu hmem

theorem redefined_of_distinct {defs : List TypeDef} (h : (defs.map (·.name)).Nodup) :
    redefined defs = [] :=
  redefinedAfter_of_distinct h (by simp)

end Schema

theorem Field.put_of_new {f : Field} {fs : List Field} (h : f.name ∉ fs.map (·.name)) :
    f.put fs = fs ++ [f] := by
  induction fs with
  | nil => rfl
  | cons g fs ih =>
    rw [List.map_cons, List.mem_cons, not_or] at h
    rw [put, if_neg (Ne.symm h.1), ih h.2]
    rfl

theorem TypeDef.addFields_of_distinct {t : TypeDef} {fs : List Field}
    (h : ((t.fields ++ fs).map (·.name)).Nodup) :
    t.addFields fs = { t with fields := t.fields ++ fs } := by
  induction fs generalizing t with
  | nil => simp [addFields]
  | cons f fs ih =>
    have hnew : f.name ∉ t.fields.map (·.name) := by
      rw [List.map_append, List.map_cons, List.nodup_append] at h
      exact fun hf => h.2.2 f.name hf f.name List.mem_cons_self rfl
    have hput : t.addField f = { t with fields := t.fields ++ [f] } := by
      rw [addField, Field.put_of_new hnew]
    rw [addFields, List.foldl_cons, ← addFields, hput, ih (by simpa using h)]
    simp

end SchemaWalk
