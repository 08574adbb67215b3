import SchemaWalk.Step

/-! # Steps in numbered slots, linked by handles -/
namespace SchemaWalk

/-- A step in its place, and the stamp that it received there. -/
structure Slot where
  stamp : UInt64
  step : Step

/-- Slots from the root down, the handle of the step where the walk stands, and the
stamp that comes next. -/
structure Arena where
  slots : List Slot
  current : Handle
  nextStamp : UInt64

instance : BEq Slot := ⟨fun a b => a.stamp == b.stamp && a.step == b.step⟩

namespace Path

def rootName : String := "query"

def rootHandle : Handle := ⟨0, 0⟩

end Path

namespace Arena

/-- The root alone. It is no step of the schema; it can be narrowed to a type like any other. -/
def start : Arena := ⟨[⟨0, { name := Path.rootName }⟩], Path.rootHandle, 1⟩

/-- The place that a handle names, unless another step stands there now or none at all. -/
def place? (a : Arena) (h : Handle) : Option Nat :=
  match a.slots[h.depth]? with
  | some slot => if slot.stamp = h.stamp then some h.depth else none
  | none => none

/-- Whether a handle still names a step of the path. -/
def holds (a : Arena) (h : Handle) : Bool := (a.place? h).isSome

def node? (a : Arena) (h : Handle) : Option Step :=
  (a.place? h).bind fun place => a.slots[place]?.map (·.step)

def parent? (a : Arena) (h : Handle) : Option Handle := (a.node? h).bind (·.parent)

def child? (a : Arena) (h : Handle) : Option Handle := (a.node? h).bind (·.child)

def length (a : Arena) : Nat := a.slots.length - 1

def isEmpty (a : Arena) : Bool := a.length == 0

def isAtRoot (a : Arena) : Bool := a.current = Path.rootHandle

/-! The functions below go to the slot of a handle without a look at its stamp, and follow links
wherever they lead. They yield `none` where there is no such slot. -/

def stepAt? (a : Arena) (h : Handle) : Option Step := a.slots[h.depth]?.map (·.step)

def setChild? (a : Arena) (h : Handle) (child : Option Handle) : Option Arena :=
  if h.depth < a.slots.length then
    some { a with slots :=
      a.slots.modify h.depth fun slot => { slot with step := { slot.step with child } } }
  else none

/-- Puts one more step below the current one and goes there. The step's own links are replaced. -/
def push? (a : Arena) (s : Step) : Option Arena := do
  let h : Handle := ⟨a.slots.length, a.nextStamp⟩
  let linked ← a.setChild? a.current (some h)
  let slot : Slot := ⟨h.stamp, { s with parent := some a.current, child := none }⟩
  some ⟨linked.slots ++ [slot], h, a.nextStamp + 1⟩

/-- Goes down along the steps of a chain, which take the place of all below the current one. -/
def append? (a : Arena) (chain : List Step) : Option Arena :=
  chain.foldlM push? { a with slots := a.slots.take (a.current.depth + 1) }

/-- Goes up as many levels, but not beyond the root. What is left behind is lost. -/
def climb? : Nat → Arena → Option Arena
  | 0, a => some a
  | levels + 1, a => do
    let s ← a.stepAt? a.current
    match s.parent with
    | none => some a
    | some parent =>
      let left ← a.setChild? parent none
      climb? levels { left with slots := left.slots.take a.current.depth, current := parent }

def ascend? (a : Arena) (further : Nat) : Option Arena := climb? (further + 1) a

/-- The steps from a link down, if there are at most `bound`. -/
def follow? (a : Arena) : Nat → Option Handle → Option (List Step)
  | _, none => some []
  | 0, some _ => none
  | bound + 1, some h => do
    let s ← a.stepAt? h
    let below ← a.follow? bound s.child
    some (s :: below)

def steps? (a : Arena) : Option (List Step) := do
  let root ← a.stepAt? Path.rootHandle
  a.follow? a.slots.length root.child

/-- Narrows what a handle names to a type, or widens it again if the type's name is empty. A handle
whose step has been left behind changes nothing; the answer tells whether it has not. -/
def narrow (a : Arena) (h : Handle) (typeName : String) : Bool × Arena :=
  match a.place? h with
  | some place =>
    (true, { a with slots :=
      a.slots.modify place fun slot => { slot with step := slot.step.withScope typeName } })
  | none => (false, a)

end Arena

end SchemaWalk
