import SchemaWalk.Document
import SchemaWalk.Proofs.Traversal.Spelling

/-! # The lines of a document: one for each selection and each scope -/
namespace SchemaWalk

namespace Document

/-- What the lines of a selection open: its field, and the type in its scope. -/
def openers (s : Selection) : List (List Char) := s.text :: (s.scope.map scopeText).toList

def margin (depth : Nat) : List Char := List.replicate (2 * depth) ' '

def openingLine (depth : Nat) (opener : List Char) : List Char :=
  margin depth ++ opener ++ [' ', '\x7b']

/-- The line at a depth, and below it the further ones. -/
def openingLines : Nat → List (List Char) → List (List Char)
  | _, [] => []
  | depth, opener :: below => openingLine depth opener :: openingLines (depth + 1) below

/-- Each line with the break that ends it. -/
def joined (lines : List (List Char)) : List Char := lines.flatMap (· ++ ['\n'])

/-- The braces that end what `count` lines from a depth on have opened, the innermost one first. -/
def closing : Nat → Nat → List Char
  | _, 0 => []
  | depth, count + 1 => closing (depth + 1) count ++ '\n' :: margin depth ++ ['\x7d']

/-- A fragment between lines and their closing braces. -/
def framed (fragment : List Char) (openers : List (List Char)) : List Char :=
  joined (openingLines 0 openers) ++ fragment ++ closing 0 openers.length

theorem margin_succ (depth : Nat) : margin (depth + 1) = margin depth ++ shift := by
  rw [margin, margin, Nat.mul_add, ← List.replicate_append_replicate]
  rfl

theorem before_eq (depth : Nat) (s : Selection) :
    before (margin depth) s s.text = joined (openingLines depth (openers s)) := by
  cases hs : s.scope with
  | none => simp [before, openers, openingLines, openingLine, joined, hs]
  | some typeName => simp [before, openers, openingLines, openingLine, joined, hs, margin_succ]

theorem after_eq (depth : Nat) (s : Selection) :
    after (margin depth) s = closing depth (openers s).length := by
  cases hs : s.scope with
  | none => simp [after, openers, closing, hs]
  | some typeName => simp [after, openers, closing, hs, margin_succ]

theorem inner_eq (depth : Nat) (s : Selection) :
    inner (margin depth) s = margin (depth + (openers s).length) := by
  cases hs : s.scope with
  | none => simp [inner, openers, hs, margin_succ]
  | some typeName => simp [inner, openers, hs, margin_succ depth, margin_succ (depth + 1)]

theorem joined_append (l r : List (List Char)) : joined (l ++ r) = joined l ++ joined r :=
  List.flatMap_append

theorem openingLines_append (depth : Nat) (l r : List (List Char)) :
    openingLines depth (l ++ r) = openingLines depth l ++ openingLines (depth + l.length) r := by
  induction l generalizing depth with
  | nil => rfl
  | cons opener l ih => simp [openingLines, ih, Nat.add_assoc, Nat.add_comm 1]

theorem closing_add (depth m n : Nat) :
    closing depth (m + n) = closing (depth + m) n ++ closing depth m := by
  induction m generalizing depth with
  | zero => simp [closing]
  | succ m ih =>
    rw [Nat.add_right_comm, closing, ih, closing, Nat.add_right_comm depth 1 m]
    simp [Nat.add_assoc]

/-- A document is its opening lines, the fragment, and the closing braces of these lines. -/
theorem nest_eq {selections : List Selection} (hs : ∀ s ∈ selections, s.render = .ok s.text)
    (fragment : List Char) (depth : Nat) :
    nest fragment (margin depth) selections =
      .ok (joined (openingLines depth (selections.flatMap openers)) ++ fragment ++
        closing depth (selections.flatMap openers).length) := by
  induction selections generalizing depth with
  | nil => simp [nest, openingLines, joined, closing]
  | cons s below ih =>
    rw [List.forall_mem_cons] at hs
    have hinside := ih hs.2 (depth + (openers s).length)
    rw [← inner_eq] at hinside
    rw [nest, hs.1]
    simp only [bind, Except.bind, hinside]
    rw [before_eq, after_eq, List.flatMap_cons, openingLines_append, joined_append,
      List.length_append, closing_add]
    simp

theorem exists_render_of_nest {fragment indent text : List Char} {selections : List Selection}
    (h : nest fragment indent selections = .ok text) :
    ∀ s ∈ selections, ∃ opening, s.render = .ok opening := by
  induction selections generalizing indent text with
  | nil => simp
  | cons s below ih =>
    obtain ⟨opening, inside, hopening, hinside, -⟩ := nest_cons_eq_ok h
    rw [List.forall_mem_cons]
    exact ⟨⟨opening, hopening⟩, ih hinside⟩

end Document

namespace Path

open Document

def openers (p : Path) : List (List Char) := p.lineage.flatMap Document.openers

theorem Spelled.printable_of_document {p : Path} (hp : p.Spelled) {fragment text : String}
    (h : p.document fragment = .ok text) : ∀ s ∈ p.lineage, s.Printable := by
  rw [document_eq] at h
  cases hnest : nest fragment.toList [] (p.entries.map (·.2)) with
  | error e => simp [hnest, Except.map] at h
  | ok chars =>
    intro s hs
    obtain ⟨opening, hopening⟩ := exists_render_of_nest hnest s hs
    exact (hp s hs).printable hopening

theorem document_of_printable {p : Path} (hp : ∀ s ∈ p.lineage, s.Printable) (fragment : String) :
    p.document fragment = .ok (String.ofList (framed fragment.toList p.openers)) := by
  have hnest := nest_eq (fun s hs => (hp s hs).render) fragment.toList 0
  rw [document_eq, ← lineage, show ([] : List Char) = margin 0 from rfl, hnest]
  rfl

end Path

end SchemaWalk
