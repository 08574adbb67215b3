import SchemaWalk.Arena.Linked

/-! # Paths: where in the schema the walk stands, and handles that name its steps -/
namespace SchemaWalk

/-- An arena whose links lead through its slots from the root down, so that no
operation misses a slot. -/
structure Path extends Arena where
  linked : toArena.Linked

namespace Path

theorem toArena_inj {p q : Path} (h : p.toArena = q.toArena) : p = q := by
  cases p
  cases q
  cases h
  rfl

def ofSome (result : Option Arena) (h : ∃ a, result = some a ∧ a.Linked) : Path where
  toArena := result.get (by obtain ⟨a, rfl, -⟩ := h; rfl)
  linked := by obtain ⟨a, rfl, h⟩ := h; exact h

theorem eq_some_ofSome {result : Option Arena} (h : ∃ a, result = some a ∧ a.Linked) :
    result = some (ofSome result h).toArena := by
  simp [ofSome]

def start : Path := ⟨.start, Arena.linked_start⟩

instance : Inhabited Path := ⟨start⟩

def steps (p : Path) : List Step := p.steps?.get (by simp [p.linked.steps?])

def selections (p : Path) : List Selection := p.steps.map (·.toSelection)

def currentStep (p : Path) : Step :=
  (p.stepAt? p.current).get (Option.isSome_iff_exists.2 p.linked.stepAt?_current)

def append (p : Path) (chain : List Step) : Path :=
  ofSome (p.append? chain) ((p.linked.append? chain).imp fun _ h => ⟨h.1, h.2.1⟩)

def ascend (p : Path) (further : Nat) : Path :=
  ofSome (p.ascend? further) ((p.linked.climb? (further + 1)).imp fun _ h => ⟨h.1, h.2.1⟩)

def rescope (p : Path) (h : Handle) (typeName : String) : Path :=
  ⟨(p.narrow h typeName).2, p.linked.narrow h typeName⟩

theorem append?_eq (p : Path) (chain : List Step) :
    p.append? chain = some (p.append chain).toArena :=
  eq_some_ofSome _

theorem ascend?_eq (p : Path) (further : Nat) :
    p.ascend? further = some (p.ascend further).toArena :=
  eq_some_ofSome _

theorem append_append (p : Path) (chain more : List Step) :
    (p.append chain).append more = p.append (chain ++ more) := by
  have hone := p.append?_eq chain
  have htwo := (p.append chain).append?_eq more
  have hall := p.append?_eq (chain ++ more)
  rw [p.linked.append?_eq] at hone hall
  rw [(p.append chain).linked.append?_eq] at htwo
  rw [List.foldlM_append, hone, Option.bind_eq_bind, Option.bind_some, htwo, Option.some.injEq]
    at hall
  exact toArena_inj hall

theorem append_nil (p : Path) : p.append [] = p := by
  have hnone := p.append?_eq []
  rw [p.linked.append?_eq, List.foldlM_nil] at hnone
  exact toArena_inj (Option.some.inj hnone).symm

theorem steps_eq (p : Path) : p.steps = p.slots.tail.map (·.step) := by
  simp [steps, p.linked.steps?]

theorem selections_eq (p : Path) : p.selections = p.entries.tail.map (·.2) := by
  simp [selections, steps_eq, Arena.entries, List.map_tail, Function.comp_def]

theorem length_eq (p : Path) : p.length = p.selections.length := by
  simp [selections_eq, Arena.length, Arena.entries]

@[simp] theorem selections_start : start.selections = [] := rfl

theorem entries_append (p : Path) (chain : List Step) :
    (p.append chain).entries = p.entries ++ Arena.stampedFrom p.nextStamp chain := by
  obtain ⟨b, hb, -, he, -⟩ := p.linked.append? chain
  rw [append?_eq, Option.some.injEq] at hb
  rw [hb, he]

theorem nextStamp_append (p : Path) (chain : List Step) :
    (p.append chain).nextStamp = p.nextStamp + UInt64.ofNat chain.length := by
  obtain ⟨b, hb, -, -, hn⟩ := p.linked.append? chain
  rw [append?_eq, Option.some.injEq] at hb
  rw [hb, hn]

theorem entries_ascend (p : Path) (further : Nat) :
    (p.ascend further).entries = p.entries.take (max 1 (p.slots.length - (further + 1))) := by
  obtain ⟨b, hb, -, he, -⟩ := p.linked.climb? (further + 1)
  rw [← Arena.ascend?, ascend?_eq, Option.some.injEq] at hb
  rw [hb, he]

theorem nextStamp_ascend (p : Path) (further : Nat) :
    (p.ascend further).nextStamp = p.nextStamp := by
  obtain ⟨b, hb, -, -, hn⟩ := p.linked.climb? (further + 1)
  rw [← Arena.ascend?, ascend?_eq, Option.some.injEq] at hb
  rw [hb, hn]

theorem entries_rescope {p : Path} {h : Handle} (hh : p.holds h = true) (typeName : String) :
    (p.rescope h typeName).entries =
      p.entries.modify h.depth fun e => (e.1, e.2.withScope typeName) := by
  obtain ⟨place, hp⟩ := Option.isSome_iff_exists.1 hh
  obtain rfl := (Arena.place?_eq_some_iff.1 hp).1
  exact Arena.entries_narrow hp typeName

theorem rescope_of_not_holds {p : Path} {h : Handle} (hh : p.holds h = false) (typeName : String) :
    p.rescope h typeName = p := by
  have : p.place? h = none := by simpa [Arena.holds] using hh
  simp [rescope, Arena.narrow_of_place?_none this]

theorem nextStamp_rescope (p : Path) (h : Handle) (typeName : String) :
    (p.rescope h typeName).nextStamp = p.nextStamp := by
  simp only [rescope, Arena.narrow]
  split <;> rfl

@[simp] theorem selections_append (p : Path) (chain : List Step) :
    (p.append chain).selections = p.selections ++ chain.map (·.toSelection) := by
  have hpos := p.linked.entries_ne_nil
  rw [selections_eq, selections_eq, entries_append, List.tail_append_of_ne_nil hpos,
    List.map_append, Arena.map_stampedFrom]

theorem selections_ascend (p : Path) (further : Nat) :
    (p.ascend further).selections = p.selections.take (p.selections.length - (further + 1)) := by
  rw [selections_eq, selections_eq, entries_ascend, ← List.drop_one, ← List.drop_one,
    List.drop_take, List.map_take]
  congr 1
  simp only [List.length_map, List.length_drop, Arena.length_entries]
  omega

/-- Equality of paths includes the stamps that they hold, and leaves out the stamp to come. -/
instance : BEq Path := ⟨fun p q => p.slots == q.slots && p.current == q.current⟩

end Path

end SchemaWalk
