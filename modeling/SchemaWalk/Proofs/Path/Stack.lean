import SchemaWalk.Proofs.Path.Handles
import SchemaWalk.Proofs.Path.Invariant
import SchemaWalk.Proofs.Path.Spelling
import SchemaWalk.Resolution

/-! # A path as a plain stack, without slots, links and stamps -/
namespace SchemaWalk

/-- The type that the root is narrowed to, and the selections below the root. -/
@[ext] structure Stack where
  root : Option String := none
  entries : List Selection := []

namespace Stack

variable (t : Stack)

def push (chain : List Selection) : Stack := { t with entries := t.entries ++ chain }

/-- Takes off the last `n` entries, or all if there are fewer. -/
def pop (n : Nat) : Stack := { t with entries := t.entries.take (t.entries.length - n) }

/-- Narrows what stands at a depth to a type, or widens it again if the type's name is empty. At
depth 0 stands the root. -/
def narrow (depth : Nat) (typeName : String) : Stack :=
  match depth with
  | 0 => { t with root := if typeName.isEmpty then none else some typeName }
  | depth + 1 => { t with entries := t.entries.modify depth (·.withScope typeName) }

def lineage : List Selection := { name := Path.rootName, scope := t.root } :: t.entries

def render : Except UnsupportedArgument String := do
  let segments ← t.entries.mapM (·.render)
  return String.ofList (segments.flatMap ('.' :: ·))

def document (fragment : String) : Except UnsupportedArgument String :=
  (Document.nest fragment.toList [] t.lineage).map String.ofList

/-- The fields of the type that the entries lead to from the type where every query begins. -/
def fieldsAt (schema : Schema) : Except ResolutionError (List Field) :=
  (t.entries.foldlM schema.advance schema.query).map (·.fields)

theorem lineage_inj {t u : Stack} (h : t.lineage = u.lineage) : t = u := by
  simp only [lineage, List.cons.injEq, Selection.mk.injEq, true_and] at h
  exact Stack.ext h.1 h.2

theorem lineage_push (chain : List Selection) : (t.push chain).lineage = t.lineage ++ chain := rfl

theorem lineage_pop (n : Nat) :
    (t.pop n).lineage = t.lineage.take (max 1 (t.lineage.length - n)) := by
  have hkept : max 1 (t.lineage.length - n) = t.entries.length - n + 1 := by
    rw [lineage, List.length_cons]
    omega
  rw [hkept]
  rfl

theorem lineage_narrow (depth : Nat) (typeName : String) :
    (t.narrow depth typeName).lineage = t.lineage.modify depth (·.withScope typeName) := by
  cases depth with
  | zero => rfl
  | succ depth => rfl

end Stack

namespace Path

variable (p : Path)

/-- What of a path can be seen in its text, in its document and in the fields below it. -/
def stack : Stack := ⟨p.rootScope, p.selections⟩

theorem lineage_stack : p.stack.lineage = p.lineage := by
  obtain ⟨root, hroot, hname, harguments, hscope⟩ := p.lineage_eq
  rw [hroot, Stack.lineage, stack]
  congr 1
  cases root
  simp only at hname harguments hscope
  subst hname harguments hscope
  rfl

theorem stack_start : start.stack = {} := rfl

theorem stack_append (chain : List Step) :
    (p.append chain).stack = p.stack.push (chain.map (·.toSelection)) := by
  apply Stack.lineage_inj
  rw [lineage_stack, lineage_append, Stack.lineage_push, lineage_stack]

theorem stack_ascend (further : Nat) : (p.ascend further).stack = p.stack.pop (further + 1) := by
  have hlength : p.lineage.length = p.slots.length := by
    rw [lineage, List.length_map, Arena.length_entries]
  apply Stack.lineage_inj
  rw [lineage_stack, Stack.lineage_pop, lineage_stack, hlength, lineage, entries_ascend,
    List.map_take, lineage]

theorem stack_rescope {p : Path} {h : Handle} (hh : p.holds h = true) (typeName : String) :
    (p.rescope h typeName).stack = p.stack.narrow h.depth typeName := by
  apply Stack.lineage_inj
  rw [lineage_stack, Stack.lineage_narrow, lineage_stack, lineage, entries_rescope hh, lineage]
  apply List.ext_getElem?
  intro i
  simp only [List.getElem?_map, List.getElem?_modify, Option.map_eq_map, Option.map_map]
  congr 1
  funext e
  simp only [Function.comp_apply]
  split <;> rfl

theorem render_eq : p.render = p.stack.render := by
  have hsegments : p.steps.mapM (fun s => s.render) = p.selections.mapM (·.render) := by
    rw [selections, List.mapM_map]
    rfl
  rw [render, hsegments]
  rfl

theorem document_eq_stack (fragment : String) :
    p.document fragment = p.stack.document fragment := by
  rw [document_eq, Stack.document, lineage_stack]
  rfl

theorem fieldsAt_eq (schema : Schema) : schema.fieldsAt p = p.stack.fieldsAt schema := by
  rw [Schema.fieldsAt, Schema.fieldsAlong, Schema.typeAlong_eq]
  rfl

theorem ascend_of_isAtRoot {p : Path} (h : p.isAtRoot = true) (further : Nat) :
    p.ascend further = p := by
  obtain ⟨s, hs, htop⟩ := p.linked.parent_current
  have hparent : s.parent = none := htop.2 (p.linked.isAtRoot_eq ▸ h)
  have hclimb : p.ascend? further = some p.toArena := by
    simp [Arena.ascend?, Arena.climb?, hs, hparent]
  rw [ascend?_eq, Option.some.injEq] at hclimb
  exact toArena_inj hclimb

end Path

/-- What a move does to the stack of a path: a handle counts by its depth if it is live, and not at
all otherwise. -/
def Move.onStack (p : Path) : Move → Stack
  | .append chain => p.stack.push (chain.map (·.toSelection))
  | .ascend further => p.stack.pop (further + 1)
  | .narrow h typeName => if p.holds h then p.stack.narrow h.depth typeName else p.stack

theorem Path.stack_move (p : Path) (m : Move) : (p.move m).stack = m.onStack p := by
  cases m with
  | append chain => exact p.stack_append chain
  | ascend further => exact p.stack_ascend further
  | narrow h typeName =>
    rw [move, Move.onStack]
    cases hh : p.holds h with
    | true => exact stack_rescope hh typeName
    | false => rw [rescope_of_not_holds hh]; rfl

/-- A change that finds the step to be narrowed by its depth, and so means the same for
paths with other stamps. -/
inductive Change where
  | append (chain : List Step)
  | ascend (further : Nat)
  | narrow (depth : Nat) (typeName : String)

namespace Stack

def change (t : Stack) : Change → Stack
  | .append chain => t.push (chain.map (·.toSelection))
  | .ascend further => t.pop (further + 1)
  | .narrow depth typeName => t.narrow depth typeName

def changes (t : Stack) (cs : List Change) : Stack := cs.foldl change t

end Stack

namespace Path

/-- Narrows by the handle that the path itself gives for the depth, and leaves the path alone below
its last step. -/
def change (p : Path) : Change → Path
  | .append chain => p.append chain
  | .ascend further => p.ascend further
  | .narrow depth typeName =>
    match Arena.handleAt p.slots depth with
    | some h => p.rescope h typeName
    | none => p

def changes (p : Path) (cs : List Change) : Path := cs.foldl change p

theorem stack_change (p : Path) (c : Change) : (p.change c).stack = p.stack.change c := by
  cases c with
  | append chain => exact p.stack_append chain
  | ascend further => exact p.stack_ascend further
  | narrow depth typeName =>
    rw [change, Stack.change]
    cases hh : Arena.handleAt p.slots depth with
    | some h =>
      have hlive : p.holds h = true := Arena.holds_iff_node?.2 (Arena.exists_node?_of_handleAt hh)
      obtain ⟨rfl, -⟩ := Arena.handleAt_eq_some_iff.1 hh
      exact stack_rescope hlive typeName
    | none =>
      have hlength : p.lineage.length ≤ depth := by
        rw [lineage, List.length_map, Arena.length_entries]
        exact Arena.handleAt_eq_none_iff.1 hh
      apply Stack.lineage_inj
      rw [Stack.lineage_narrow, lineage_stack, List.modify_eq_self hlength]

theorem stack_changes (p : Path) (cs : List Change) :
    (p.changes cs).stack = p.stack.changes cs := by
  induction cs generalizing p with
  | nil => rfl
  | cons c cs ih =>
    rw [changes, List.foldl_cons, ← changes, ih, stack_change]
    rfl

/-- A path starts as an empty stack, and is one in every state of a run: appending pushes, ascending
pops, and narrowing by a handle changes the entry at its depth, or nothing if the handle is dead.
And only the stack can be seen: after the same further changes two paths with one stack have one
text, one document and the same fields below them, whatever their stamps are. -/
theorem stack_is_all_that_shows (moves : List Move) :
    let p := start.run moves
    start.stack = {} ∧ (∀ m, (p.move m).stack = m.onStack p) ∧
      (p.isAtRoot = true → ∀ further, p.ascend further = p) ∧
      (∀ h, p.holds h = false → ∀ typeName, p.rescope h typeName = p) ∧
      ∀ others, (start.run others).stack = p.stack → ∀ cs,
        let p' := p.changes cs
        let q' := (start.run others).changes cs
        p'.stack = p.stack.changes cs ∧ q'.stack = p'.stack ∧ q'.render = p'.render ∧
          (∀ fragment, q'.document fragment = p'.document fragment) ∧
          ∀ schema : Schema, schema.fieldsAt q' = schema.fieldsAt p' := by
  refine ⟨stack_start, Path.stack_move _, ascend_of_isAtRoot, ?_, ?_⟩
  · exact fun h hdead typeName => rescope_of_not_holds hdead typeName
  intro others hstack cs p' q'
  have hsame : q'.stack = p'.stack := by rw [stack_changes, stack_changes, hstack]
  refine ⟨stack_changes _ cs, hsame, ?_, ?_, ?_⟩
  · rw [render_eq, render_eq, hsame]
  · intro fragment
    rw [document_eq_stack, document_eq_stack, hsame]
  · intro schema
    rw [fieldsAt_eq, fieldsAt_eq, hsame]

/-- A path that has been left and entered again, with other stamps and a narrowing that was
taken back, shows the same as one that has just been entered, also after both are narrowed
at their first step. -/
theorem stack_is_all_that_shows_after_detour :
    let moves : List Move := [.append [{ name := "a" }, { name := "b" }]]
    let others : List Move := [.append [{ name := "c" }], .narrow ⟨1, 1⟩ "T", .ascend 7,
      .append [{ name := "a", parent := some ⟨4, 2⟩ }, { name := "b" }]]
    let cs : List Change := [.narrow 1 "U", .narrow 9 "V"]
    (start.run others).stack = (start.run moves).stack ∧
      (start.run others).current ≠ (start.run moves).current ∧
      ((start.run others).changes cs).render = ((start.run moves).changes cs).render := by
  intro moves others cs
  have hstack : (start.run others).stack = (start.run moves).stack := rfl
  have hshows := (stack_is_all_that_shows moves).2.2.2.2 others hstack cs
  exact ⟨hstack, by decide, hshows.2.2.1⟩

end Path

end SchemaWalk
