import SchemaWalk.Name
import SchemaWalk.Proofs.Path.Run

/-! # Paths in which every name can be typed -/
namespace SchemaWalk

/-- A selection whose names can be typed: those of its field and its arguments, and that of
the type in its scope. -/
structure Selection.Spelled (s : Selection) : Prop where
  name : Name.isName s.name = true
  keys : ∀ e ∈ s.arguments.entries, Name.isName e.1 = true
  scope : ∀ typeName ∈ s.scope, Name.isName typeName = true

theorem Selection.spelled_bare {name : String} (hname : Name.isName name = true) :
    Selection.Spelled { name := name } :=
  ⟨hname, by simp [Dictionary.empty], by simp⟩

theorem Selection.Spelled.withScope {s : Selection} (hs : s.Spelled) {typeName : String}
    (ht : typeName = "" ∨ Name.isName typeName = true) : (s.withScope typeName).Spelled := by
  refine ⟨hs.name, hs.keys, fun t hmem => ?_⟩
  simp only [Selection.withScope] at hmem
  split at hmem
  · cases hmem
  · next hne =>
    obtain rfl : typeName = t := by simpa using hmem
    exact ht.resolve_left fun h => hne (by simp [h])

def Move.Spelled : Move → Prop
  | .append chain => ∀ s ∈ chain, s.toSelection.Spelled
  | .ascend _ => True
  | .narrow _ typeName => typeName = "" ∨ Name.isName typeName = true

namespace Path

/-- The selections from the root down, that of the root included. -/
def lineage (p : Path) : List Selection := p.entries.map (·.2)

/-- The type that the root is narrowed to. -/
def rootScope (p : Path) : Option String := (p.node? rootHandle).bind (·.scope)

theorem lineage_eq (p : Path) :
    ∃ root : Selection, p.lineage = root :: p.selections ∧ root.name = rootName ∧
      root.arguments = .empty ∧ root.scope = p.rootScope := by
  obtain ⟨slot, hslot, hstamp, hname, harguments, -⟩ := p.linked.root
  obtain ⟨rest, hrest⟩ : ∃ rest, p.slots = slot :: rest := by
    cases hslots : p.slots with
    | nil => simp [hslots] at hslot
    | cons first rest => exact ⟨rest, by rw [hslots] at hslot; simpa using hslot⟩
  refine ⟨slot.step.toSelection, ?_, hname, harguments, ?_⟩
  · rw [selections_eq]
    simp [lineage, Arena.entries, hrest]
  · simp [rootScope, Arena.node?, Arena.place?, rootHandle, hrest, hstamp]

theorem length_lineage (p : Path) : p.lineage.length = p.length + 1 := by
  obtain ⟨root, hroot, -⟩ := p.lineage_eq
  rw [hroot, List.length_cons, length_eq]

theorem lineage_append (p : Path) (chain : List Step) :
    (p.append chain).lineage = p.lineage ++ chain.map (·.toSelection) := by
  rw [lineage, entries_append, List.map_append, Arena.map_stampedFrom, lineage]

theorem mem_lineage_ascend {p : Path} {further : Nat} {s : Selection}
    (h : s ∈ (p.ascend further).lineage) : s ∈ p.lineage := by
  rw [lineage, entries_ascend, List.map_take] at h
  exact List.mem_of_mem_take h

theorem mem_lineage_rescope {p : Path} {h : Handle} {typeName : String} {s : Selection}
    (hs : s ∈ (p.rescope h typeName).lineage) :
    s ∈ p.lineage ∨ ∃ t ∈ p.lineage, s = t.withScope typeName := by
  cases hh : p.holds h with
  | false => exact .inl (by rwa [rescope_of_not_holds hh] at hs)
  | true =>
    rw [lineage, entries_rescope hh, List.mem_map] at hs
    obtain ⟨e, he, rfl⟩ := hs
    obtain ⟨i, he⟩ := List.mem_iff_getElem?.1 he
    rw [List.getElem?_modify, Option.map_eq_map, Option.map_eq_some_iff] at he
    obtain ⟨old, hold, rfl⟩ := he
    have hmem : old.2 ∈ p.lineage := List.mem_map_of_mem (List.mem_of_getElem? hold)
    split
    · exact .inr ⟨old.2, hmem, rfl⟩
    · exact .inl hmem

/-- A path in which every name can be typed. -/
def Spelled (p : Path) : Prop := ∀ s ∈ p.lineage, s.Spelled

theorem spelled_start : start.Spelled := by
  intro s hs
  obtain rfl : s = { name := rootName } := by
    simpa [lineage, Arena.entries, start, Arena.start] using hs
  exact Selection.spelled_bare (by decide)

theorem Spelled.move {p : Path} (hp : p.Spelled) {m : Move} (hm : m.Spelled) :
    (p.move m).Spelled := by
  intro s hs
  cases m with
  | append chain =>
    rw [Path.move, lineage_append] at hs
    rcases List.mem_append.1 hs with hs | hs
    · exact hp s hs
    · obtain ⟨step, hstep, rfl⟩ := List.mem_map.1 hs
      exact hm step hstep
  | ascend further => exact hp s (mem_lineage_ascend hs)
  | narrow h typeName =>
    rcases mem_lineage_rescope hs with hs | ⟨t, ht, rfl⟩
    · exact hp s hs
    · exact (hp t ht).withScope hm

theorem Spelled.run {p : Path} (hp : p.Spelled) {moves : List Move} (hm : ∀ m ∈ moves, m.Spelled) :
    (p.run moves).Spelled := by
  induction moves generalizing p with
  | nil => exact hp
  | cons m moves ih =>
    rw [List.forall_mem_cons] at hm
    exact ih (hp.move hm.1) hm.2

end Path

end SchemaWalk
