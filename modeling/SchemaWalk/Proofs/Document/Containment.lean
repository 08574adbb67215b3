import SchemaWalk.Proofs.Document.Literals
import SchemaWalk.Proofs.Document.Position

/-! # No name and no value leaves its place in a document -/
namespace SchemaWalk

namespace Document

/-- A line at a depth: so far in and no further, and open at its end by its only brace outside of
string literals, all of which it closes. -/
structure OpensAt (depth : Nat) (line : List Char) : Prop where
  unbroken : '\n' ∉ line
  indented : ∃ rest, line = margin depth ++ rest ∧ ∀ c ∈ rest.head?, c ≠ ' '
  braced : ∃ before, line = before ++ ['\x7b'] ∧ Sealed before

/-- How far in a line begins, and its braces outside of string literals. -/
def layout (line : List Char) : Nat × List Char := ((line.takeWhile (· = ' ')).length, braces line)

/-- What opens a line is no brace by itself. -/
structure Opener (text : List Char) : Prop where
  unbroken : '\n' ∉ text
  visible : ∃ c rest, text = c :: rest ∧ c ≠ ' '
  enclosed : Sealed text

theorem OpensAt.layout {depth : Nat} {line : List Char} (h : OpensAt depth line) :
    layout line = (2 * depth, ['\x7b']) := by
  obtain ⟨rest, hrest, hhead⟩ := h.indented
  obtain ⟨before, hbefore, hsealed⟩ := h.braced
  have hmargin : line.takeWhile (· = ' ') = margin depth := by
    rw [hrest,
      Text.takeWhile_append_of_stop (by simp [margin]) fun c hc => by simpa using hhead c hc]
  have hbraces : braces line = ['\x7b'] := by
    rw [hbefore, braces_append hsealed.closed, hsealed.braces]
    rfl
  rw [Document.layout, hmargin, hbraces, margin, List.length_replicate]

theorem Opener.opensAt {text : List Char} (h : Opener text) (depth : Nat) :
    OpensAt depth (openingLine depth text) := by
  obtain ⟨c, rest, htext, hc⟩ := h.visible
  have hblank : ∀ c ∈ margin depth, isPlain c = true := fun c hc => by
    rw [List.eq_of_mem_replicate hc]
    decide
  have hmargin : Sealed (margin depth) := sealed_of_plain (List.all_eq_true.2 hblank)
  refine ⟨newline_not_mem_openingLine h.unbroken depth,
    ⟨text ++ [' ', '\x7b'], by simp [openingLine], ?_⟩,
    ⟨margin depth ++ text ++ [' '], by simp [openingLine], ?_⟩⟩
  · simpa [htext] using hc
  · exact (hmargin.append h.enclosed).append (sealed_of_plain (by decide))

theorem getElem?_openingLines (depth i : Nat) (openers : List (List Char)) :
    (openingLines depth openers)[i]? = openers[i]?.map (openingLine (depth + i)) := by
  induction openers generalizing depth i with
  | nil => rfl
  | cons opener openers ih =>
    cases i with
    | zero => rfl
    | succ i => simp [openingLines, ih, Nat.add_comm 1, Nat.add_assoc]

theorem length_openingLines (depth : Nat) (openers : List (List Char)) :
    (openingLines depth openers).length = openers.length := by
  induction openers generalizing depth with
  | nil => rfl
  | cons opener openers ih => simp [openingLines, ih]

theorem length_flatMap_openers (selections : List Selection) :
    (selections.flatMap openers).length =
      selections.length + selections.countP (·.scope.isSome) := by
  induction selections with
  | nil => rfl
  | cons s selections ih =>
    rw [List.flatMap_cons, List.length_append, ih, List.length_cons, List.countP_cons]
    cases hs : s.scope with
    | none => simp [openers, hs]; omega
    | some typeName => simp [openers, hs]; omega

theorem opener_of_mem {s : Selection} (hs : s.Printable) (hspelled : s.Spelled) {text : List Char}
    (ht : text ∈ openers s) : Opener text := by
  refine ⟨newline_not_mem_openers hs hspelled text ht, ?_, ?_⟩
  all_goals
    simp only [openers, List.mem_cons, Option.mem_toList, Option.map_eq_some_iff] at ht
    rcases ht with rfl | ⟨typeName, htype, rfl⟩
  · obtain ⟨c, rest, htext, hc⟩ := hs.text_eq_cons
    exact ⟨c, rest, htext, by rintro rfl; cases hc⟩
  · exact ⟨'.', _, scopeText_eq typeName, by decide⟩
  · exact sealed_text hs
  · rw [scopeText_eq]
    exact (sealed_of_plain (by decide)).append (sealed_name (hspelled.scope typeName htype))

end Document

namespace Path

open Document

/-- The lines stand before the fragment in every document of a path, and after it
their closing braces. -/
def Encloses (p : Path) (lines : List (List Char)) : Prop :=
  ∀ fragment : String, p.document fragment =
    .ok (String.ofList (joined lines ++ fragment.toList ++ closing 0 lines.length))

/-- Which steps are narrowed to a type, from the root down. -/
def shape (p : Path) : List Bool := p.lineage.map (·.scope.isSome)

theorem encloses_openingLines {p : Path} (hp : ∀ s ∈ p.lineage, s.Printable) :
    p.Encloses (openingLines 0 p.openers) := by
  intro fragment
  rw [length_openingLines, document_of_printable hp]
  rfl

theorem Spelled.opensAt {p : Path} (hp : p.Spelled) (hs : ∀ s ∈ p.lineage, s.Printable)
    {depth : Nat} {line : List Char} (h : (openingLines 0 p.openers)[depth]? = some line) :
    OpensAt depth line := by
  rw [getElem?_openingLines, Nat.zero_add, Option.map_eq_some_iff] at h
  obtain ⟨opener, hopener, rfl⟩ := h
  obtain ⟨s, hmem, ho⟩ := List.mem_flatMap.1 (List.mem_of_getElem? hopener)
  exact (opener_of_mem (hs s hmem) (hp s hmem) ho).opensAt depth

theorem length_openers (p : Path) : p.openers.length = 1 + p.length + p.shape.count true := by
  rw [openers, length_flatMap_openers, length_lineage, shape, List.count_eq_countP, List.countP_map,
    Nat.add_comm 1]
  congr 2
  funext s
  simp

theorem map_layout_eq {lines lines' : List (List Char)} (hlength : lines.length = lines'.length)
    (h : ∀ depth line, lines[depth]? = some line → OpensAt depth line)
    (h' : ∀ depth line, lines'[depth]? = some line → OpensAt depth line) :
    lines.map layout = lines'.map layout := by
  apply List.ext_getElem
  · simpa using hlength
  · intro depth hd hd'
    rw [List.length_map] at hd hd'
    rw [List.getElem_map, List.getElem_map, (h depth _ (List.getElem?_eq_getElem hd)).layout,
      (h' depth _ (List.getElem?_eq_getElem hd')).layout]

end Path

namespace Session

open Document

/-- Whatever was typed, each name in a path is a name. In a document as many lines as there are
steps and scopes stand before the fragment, each opens one brace at its end and closes its string
literals. So documents of paths with scopes at the same steps have the same lines, indentation and
braces, whatever their names and values are. -/
theorem names_and_values_stay_in_place {s : Session} (hs : s.Reached) :
    s.path.Spelled ∧ ∀ fragment document, s.path.document fragment = .ok document →
      ∃ lines, s.path.Encloses lines ∧ lines.length = 1 + s.path.length + s.path.shape.count true ∧
        (∀ depth line, lines[depth]? = some line → OpensAt depth line) ∧
        ∀ t : Session, t.Reached → t.path.shape = s.path.shape →
          ∀ fragment' document', t.path.document fragment' = .ok document' →
            ∃ lines', t.path.Encloses lines' ∧ lines'.map layout = lines.map layout := by
  refine ⟨hs.spelled, fun fragment document h => ?_⟩
  have hprintable := hs.spelled.printable_of_document h
  have hopens : ∀ depth line, (openingLines 0 s.path.openers)[depth]? = some line →
      OpensAt depth line := fun _ _ => hs.spelled.opensAt hprintable
  refine ⟨openingLines 0 s.path.openers, Path.encloses_openingLines hprintable, ?_, hopens, ?_⟩
  · rw [length_openingLines, Path.length_openers]
  · intro t ht hshape fragment' document' h'
    have hprintable' := ht.spelled.printable_of_document h'
    refine ⟨openingLines 0 t.path.openers, Path.encloses_openingLines hprintable', ?_⟩
    have hlength : t.path.length = s.path.length := by
      have := congrArg List.length hshape
      simpa [Path.shape, Path.length_lineage] using this
    refine Path.map_layout_eq ?_ (fun depth line => ht.spelled.opensAt hprintable') hopens
    rw [length_openingLines, length_openingLines, Path.length_openers, Path.length_openers, hlength,
      hshape]

/-- Quotes, braces, line breaks and further openings in a value are all kept in its line. -/
theorem braces_and_breaks_stay_in_place :
    let s := bare.after ["on T", ".a(x: \"\\\"\\n\\u007d \x7b\")", "on U"]
    let t := bare.after ["on Type", ".b(first: 1).c", "..", "on Other"]
    s.Reached ∧ t.Reached ∧ t.path.shape = s.path.shape ∧
      s.path.document "" =
        .ok ("query \x7b\n  ... on T \x7b\n    a(x: \"\\\"\\n\x7d \x7b\") \x7b\n      ... on U \x7b\n\n" ++
          "      \x7d\n    \x7d\n  \x7d\n\x7d") ∧
      ∃ lines lines', s.path.Encloses lines ∧ lines.length = 4 ∧
        (∀ depth line, lines[depth]? = some line → OpensAt depth line) ∧
        t.path.Encloses lines' ∧ lines'.map layout = lines.map layout := by
  intro s t
  have hs : s.Reached := (Reached.start start_bareService).after _
  have ht : t.Reached := (Reached.start start_bareService).after _
  have hshape : t.path.shape = s.path.shape := by decide +kernel
  have h : s.path.document "" =
      .ok ("query \x7b\n  ... on T \x7b\n    a(x: \"\\\"\\n\x7d \x7b\") \x7b\n      ... on U \x7b\n\n" ++
        "      \x7d\n    \x7d\n  \x7d\n\x7d") := eq_ok_of_toOption (by decide +kernel)
  have h' : t.path.document "" =
      .ok ("query \x7b\n  ... on Type \x7b\n    b(first: 1) \x7b\n      ... on Other \x7b\n\n" ++
        "      \x7d\n    \x7d\n  \x7d\n\x7d") := eq_ok_of_toOption (by decide +kernel)
  obtain ⟨lines, hlines, hlength, hopens, hother⟩ := (names_and_values_stay_in_place hs).2 _ _ h
  obtain ⟨lines', hlines', hlayout⟩ := hother t ht hshape _ _ h'
  have hcount : 1 + s.path.length + s.path.shape.count true = 4 := by decide +kernel
  exact ⟨hs, ht, hshape, h, lines, lines', hlines, hlength.trans hcount, hopens, hlines', hlayout⟩

end Session

end SchemaWalk
