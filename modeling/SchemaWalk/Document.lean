import SchemaWalk.Path

/-! # A path as text: as it is typed, and as the query document that it stands for -/
namespace SchemaWalk

inductive RenderError where
  | detached
  | unsupported (argument : UnsupportedArgument)
deriving DecidableEq

def RenderError.message : RenderError → String
  | .detached => "Node is no longer part of the query path"
  | .unsupported argument => argument.message

namespace Document

/-- By how much a line is further in than the one that encloses it. -/
def shift : List Char := [' ', ' ']

def scopeText (typeName : String) : List Char := "... on ".toList ++ typeName.toList

/-- What stands before the text that a selection encloses: its opening line, and another
one if it has a scope. -/
def before (indent : List Char) (s : Selection) (opening : List Char) : List Char :=
  let scopeLine := match s.scope with
    | none => []
    | some typeName => '\n' :: indent ++ shift ++ scopeText typeName ++ [' ', '\x7b']
  indent ++ opening ++ [' ', '\x7b'] ++ scopeLine ++ ['\n']

def after (indent : List Char) (s : Selection) : List Char :=
  let scopeEnd := match s.scope with
    | none => []
    | some _ => '\n' :: indent ++ shift ++ ['\x7d']
  scopeEnd ++ '\n' :: indent ++ ['\x7d']

/-- Where the lines that a selection encloses begin. -/
def inner (indent : List Char) (s : Selection) : List Char :=
  match s.scope with
  | none => indent ++ shift
  | some _ => indent ++ shift ++ shift

/-- Each selection encloses the one below it, and the lowest one encloses the fragment as it is. -/
def nest (fragment : List Char) :
    List Char → List Selection → Except UnsupportedArgument (List Char)
  | _, [] => .ok fragment
  | indent, s :: below => do
    let opening ← s.render
    let inside ← nest fragment (inner indent s) below
    .ok (before indent s opening ++ inside ++ after indent s)

theorem nest_cons_eq_ok {fragment indent text : List Char} {s : Selection} {below : List Selection}
    (h : nest fragment indent (s :: below) = .ok text) :
    ∃ opening inside, s.render = .ok opening ∧ nest fragment (inner indent s) below = .ok inside ∧
      text = before indent s opening ++ inside ++ after indent s := by
  rw [nest] at h
  cases hopening : s.render with
  | error e => rw [hopening] at h; cases h
  | ok opening =>
    cases hinside : nest fragment (inner indent s) below with
    | error e => rw [hopening, bind, Monad.toBind, hinside] at h; cases h
    | ok inside =>
      rw [hopening, hinside] at h
      cases h
      exact ⟨opening, inside, rfl, rfl, rfl⟩

end Document

namespace Arena

open Document

/-- The document from a step down, along the links to the steps below, if these are
fewer than `bound`. -/
def write? (a : Arena) (fragment : List Char) :
    Nat → List Char → Handle → Option (Except UnsupportedArgument (List Char))
  | 0, _, _ => none
  | bound + 1, indent, h => do
    let s ← a.stepAt? h
    match s.render with
    | .error e => some (.error e)
    | .ok opening =>
      let inside ← match s.child with
        | none => some (.ok fragment)
        | some child => a.write? fragment bound (inner indent s.toSelection) child
      some (inside.map fun inside =>
        before indent s.toSelection opening ++ inside ++ after indent s.toSelection)

theorem Linked.write? {a : Arena} (hl : Linked a) (fragment : List Char) (bound : Nat) {h : Handle}
    (hd : h.depth < a.slots.length) (hb : a.slots.length ≤ h.depth + bound) (indent : List Char) :
    a.write? fragment bound indent h =
      some (nest fragment indent ((a.entries.drop h.depth).map (·.2))) := by
  induction bound generalizing h indent with
  | zero => omega
  | succ bound ih =>
    have hs : a.slots[h.depth]? = some a.slots[h.depth] := List.getElem?_eq_getElem hd
    have hdrop : (a.entries.drop h.depth).map (·.2) =
        a.slots[h.depth].step.toSelection :: (a.entries.drop (h.depth + 1)).map (·.2) := by
      rw [List.drop_eq_getElem_cons (by simpa [length_entries] using hd)]
      simp [entries]
    rw [hdrop]
    simp only [Arena.write?, stepAt?, hs, Option.map_some, Option.bind_eq_bind, Option.bind_some,
      nest]
    cases hr : a.slots[h.depth].step.render with
    | error e => rfl
    | ok opening =>
      have hchild := hl.child hs
      by_cases hlast : h.depth + 1 < a.slots.length
      · obtain ⟨below, hbelow⟩ : ∃ below, handleAt a.slots (h.depth + 1) = some below :=
          Option.ne_none_iff_exists'.1 (by rw [Ne, handleAt_eq_none_iff]; omega)
        have hdepth := (handleAt_eq_some_iff.1 hbelow).1
        have hrest :=
          ih (h := below) (by omega) (by omega) (inner indent a.slots[h.depth].step.toSelection)
        rw [hchild, hbelow]
        simp only [hrest, hdepth, Option.bind_some]
        cases nest fragment (inner indent a.slots[h.depth].step.toSelection)
          ((a.entries.drop (h.depth + 1)).map (·.2)) <;> rfl
      · rw [hchild, handleAt_eq_none_iff.2 (by omega),
          List.drop_eq_nil_of_le (by rw [length_entries]; omega)]
        rfl

end Arena

namespace Path

open Document

/-- The steps with a dot before each, as they are typed. -/
def render (p : Path) : Except UnsupportedArgument String := do
  let segments ← p.steps.mapM fun s => s.render
  return String.ofList (segments.flatMap ('.' :: ·))

def writeFrom (p : Path) (h : Handle) (hd : h.depth < p.slots.length) (fragment : String) :
    Except UnsupportedArgument String :=
  ((p.write? fragment.toList p.slots.length [] h).get (by
    rw [p.linked.write? _ _ hd (by omega)]; rfl)).map String.ofList

/-- The whole document, with `fragment` inside of its innermost selection. -/
def document (p : Path) (fragment : String) : Except UnsupportedArgument String :=
  p.writeFrom rootHandle p.linked.slots_pos fragment

def documentFrom (p : Path) (h : Handle) (fragment : String) : Except RenderError String :=
  if hh : p.holds h then (p.writeFrom h (Arena.depth_lt_of_holds hh) fragment).mapError .unsupported
  else .error .detached

theorem writeFrom_eq {p : Path} {h : Handle} (hd : h.depth < p.slots.length) (fragment : String) :
    p.writeFrom h hd fragment =
      (nest fragment.toList [] ((p.entries.drop h.depth).map (·.2))).map String.ofList := by
  simp [writeFrom, p.linked.write? fragment.toList p.slots.length hd (by omega)]

theorem document_eq (p : Path) (fragment : String) :
    p.document fragment = (nest fragment.toList [] (p.entries.map (·.2))).map String.ofList :=
  writeFrom_eq p.linked.slots_pos fragment

end Path

end SchemaWalk
