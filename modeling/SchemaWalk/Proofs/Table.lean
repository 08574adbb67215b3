import Mathlib.Algebra.Ring.Nat
import Mathlib.Data.List.Forall2
import Mathlib.Order.Bounds.Defs
import SchemaWalk.Table
import SchemaWalk.Text.Split

/-! # Columns: in each line of a table every cell stands whole where its column begins -/
namespace SchemaWalk.Table

open Text

/-- Where a column begins: behind those before it, each of which is followed by a space. -/
def offset (widths : List Nat) (column : Nat) : Nat := ((widths.take column).map (· + 1)).sum

/-- A cell stands whole in a line where its column begins. The last one ends the line; behind every
other one there are spaces up to where the next column begins, and at least one. -/
inductive StandsIn (widths : List Nat) (line : List Char) (column : Nat) (cell : String) : Prop
  | last (before : List Char) (hcolumn : column + 1 = widths.length)
      (hbefore : before.length = offset widths column) (hline : line = before ++ cell.toList)
  | padded (before later : List Char) (spaces : Nat) (hcolumn : column + 1 < widths.length)
      (hbefore : before.length = offset widths column) (hspaces : 1 ≤ spaces)
      (hnext : before.length + cell.length + spaces = offset widths (column + 1))
      (hline : line = before ++ cell.toList ++ List.replicate spaces ' ' ++ later)

variable {n : Nat} {header row : Vector String n} {rows : List (Vector String n)} {column : Nat}

/-! ## Widths -/

theorem getElem_widen (widths : Vector Nat n) (row : Vector String n) (h : column < n) :
    (widen widths row)[column] = max widths[column] row[column].length := by
  simp [widen]

theorem getElem_foldl_widen (widths : Vector Nat n) (rows : List (Vector String n))
    (h : column < n) :
    (rows.foldl widen widths)[column] =
      (rows.map fun row => row[column].length).foldl max widths[column] := by
  induction rows generalizing widths with
  | nil => rfl
  | cons row rows ih => rw [List.foldl_cons, ih, getElem_widen, List.map_cons, List.foldl_cons]

theorem isGreatest_widths (hrows : rows ≠ []) (h : column < n) :
    IsGreatest {length | ∃ row ∈ rows, row[column].length = length} (widths rows)[column] := by
  have hwidth : (rows.map fun row => row[column].length).max? = some (widths rows)[column] := by
    rw [widths, getElem_foldl_widen, List.foldl_max]
    cases hmax : (rows.map fun row => row[column].length).max? with
    | none => simp [hrows] at hmax
    | some width => simp
  obtain ⟨hmem, hle⟩ := List.max?_eq_some_iff.1 hwidth
  refine ⟨List.mem_map.1 hmem, ?_⟩
  rintro _ ⟨row, hrow, rfl⟩
  exact hle _ (List.mem_map_of_mem hrow)

theorem length_le_of_mem_zip (hrow : row ∈ rows) :
    ∀ cell ∈ row.toList.zip (widths rows).toList, cell.1.length ≤ cell.2 := by
  intro cell hcell
  obtain ⟨column, hcolumn, rfl⟩ := List.getElem_of_mem hcell
  have hn : column < n := by simpa using hcolumn
  simpa using (isGreatest_widths (List.ne_nil_of_mem hrow) hn).2 ⟨row, hrow, rfl⟩

/-! ## Lines -/

theorem offset_succ (width : Nat) (widths : List Nat) (column : Nat) :
    offset (width :: widths) (column + 1) = width + 1 + offset widths column := by
  simp [offset]

theorem StandsIn.cons {widths : List Nat} {line first : List Char} {cell : String} {width : Nat}
    (h : StandsIn widths line column cell) (hfirst : first.length = width + 1) :
    StandsIn (width :: widths) (first ++ line) (column + 1) cell := by
  cases h with
  | last before hcolumn hbefore hline =>
    refine .last (first ++ before) (by simp [hcolumn]) ?_ (by simp [hline])
    rw [List.length_append, hfirst, hbefore, offset_succ]
  | padded before later spaces hcolumn hbefore hspaces hnext hline =>
    refine .padded (first ++ before) later spaces (by simpa using hcolumn) ?_ hspaces ?_
      (by simp [hline])
    · rw [List.length_append, hfirst, hbefore, offset_succ]
    · rw [List.length_append, offset_succ]
      omega

theorem standsIn_line {cells : List (String × Nat)}
    (hcells : ∀ cell ∈ cells, cell.1.length ≤ cell.2) (h : column < cells.length) :
    StandsIn (cells.map (·.2)) (line cells) column cells[column].1 := by
  fun_induction line cells generalizing column with
  | case1 => simp at h
  | case2 cell width =>
    obtain rfl : column = 0 := by simpa using h
    exact .last [] rfl rfl rfl
  | case3 cell width rest hrest ih =>
    rw [List.forall_mem_cons] at hcells
    have hwidth : cell.length ≤ width := hcells.1
    cases column with
    | zero =>
      -- The cell fits its column, so the subtraction is exact and the spaces reach up to the next
      -- one.
      refine .padded [] (line rest) (width - cell.length + 1) ?_ rfl (by omega) ?_ rfl
      · have hlater : 0 < rest.length := List.length_pos_iff.2 hrest
        simpa using hlater
      · simp [offset]
        omega
    | succ column =>
      have hfirst : (cell.toList ++ List.replicate (width - cell.length + 1) ' ').length =
          width + 1 := by
        rw [List.length_append, String.length_toList, List.length_replicate]
        omega
      exact (ih hcells.2 (by simpa using h)).cons hfirst

theorem newline_not_mem_line {cells : List (String × Nat)}
    (h : ∀ cell ∈ cells, '\n' ∉ cell.1.toList) : '\n' ∉ line cells := by
  fun_induction line cells with
  | case1 => simp
  | case2 cell width => simpa using h
  | case3 cell width rest hrest ih =>
    rw [List.forall_mem_cons] at h
    simp [h.1, ih h.2]

/-! ## Whole tables -/

theorem pieces_render (hcells : ∀ row ∈ header :: rows, ∀ cell ∈ row, '\n' ∉ cell.toList) :
    pieces '\n' (render header rows).toList =
      (header :: rows).map fun row => line (row.toList.zip (widths (header :: rows)).toList) := by
  rw [render, String.toList_ofList, pieces_intercalate (by simp)]
  intro text htext
  obtain ⟨row, hrow, rfl⟩ := List.mem_map.1 htext
  refine newline_not_mem_line fun cell hcell => hcells row hrow cell.1 ?_
  exact Vector.mem_toList_iff.1 (List.of_mem_zip hcell).1

theorem standsIn_line_of_row (hrow : row ∈ rows) (h : column < n) :
    StandsIn (widths rows).toList (line (row.toList.zip (widths rows).toList)) column
      row[column] := by
  have hcolumn : column < (row.toList.zip (widths rows).toList).length := by simpa using h
  have hwidths : (row.toList.zip (widths rows).toList).map (·.2) = (widths rows).toList :=
    List.map_snd_zip (by simp)
  simpa [hwidths] using standsIn_line (length_le_of_mem_zip hrow) hcolumn

/-- If there is no line break in the cells, a table has one line for the header and one for each
row, in this order. A column is as wide as its longest cell, so that every cell fits, and in each
line the cells stand where their columns begin. -/
theorem cells_line_up (header : Vector String n) (rows : List (Vector String n))
    (hcells : ∀ row ∈ header :: rows, ∀ cell ∈ row, '\n' ∉ cell.toList) :
    let all := header :: rows
    let lines := pieces '\n' (render header rows).toList
    (∀ column (h : column < n),
      IsGreatest {length | ∃ row ∈ all, row[column].length = length} (widths all)[column]) ∧
      (∀ row ∈ all, ∀ cell ∈ row.toList.zip (widths all).toList, cell.1.length ≤ cell.2) ∧
      lines.length = 1 + rows.length ∧
      List.Forall₂ (fun row line =>
        ∀ column (h : column < n), StandsIn (widths all).toList line column row[column]) all
        lines := by
  intro all lines
  have hlines : lines = all.map fun row => line (row.toList.zip (widths all).toList) :=
    pieces_render hcells
  refine ⟨fun column => isGreatest_widths (by simp [all]), fun row => length_le_of_mem_zip, ?_, ?_⟩
  · simp [hlines, all, Nat.add_comm]
  · rw [hlines, List.forall₂_map_right_iff, List.forall₂_same]
    exact fun row hrow column => standsIn_line_of_row hrow

/-- Cells are counted by their characters, and an empty one at the end of a line leaves
the spaces before it. -/
theorem cells_line_up_beyond_ascii :
    let header := #v["NAME", "TYPE", "DESCRIPTION"]
    let rows := [#v["größe", "[]Unit", "…"], #v["id", "ID", ""]]
    (∀ row ∈ header :: rows, ∀ cell ∈ row, '\n' ∉ cell.toList) ∧
      pieces '\n' (render header rows).toList =
        ["NAME  TYPE   DESCRIPTION".toList, "größe []Unit …".toList, "id    ID     ".toList] ∧
      StandsIn [5, 6, 11] "größe []Unit …".toList 2 "…" ∧
      StandsIn [5, 6, 11] "id    ID     ".toList 2 "" := by
  intro header rows
  have hcells : ∀ row ∈ header :: rows, ∀ cell ∈ row, '\n' ∉ cell.toList := by
    simp only [header, rows, List.forall_mem_cons, List.not_mem_nil, false_implies, implies_true,
      and_true]
    decide
  have hlines : pieces '\n' (render header rows).toList =
      ["NAME  TYPE   DESCRIPTION".toList, "größe []Unit …".toList, "id    ID     ".toList] := by
    decide +kernel
  have hwidths : (widths (header :: rows)).toList = [5, 6, 11] := by decide +kernel
  obtain ⟨-, -, -, hstands⟩ := cells_line_up header rows hcells
  rw [hlines, hwidths] at hstands
  simp only [rows, List.forall₂_cons] at hstands
  obtain ⟨-, hfirst, hsecond, -⟩ := hstands
  exact ⟨hcells, hlines, hfirst 2 (by decide), hsecond 2 (by decide)⟩

end SchemaWalk.Table
