import SchemaWalk.Proofs.Document.Lines
import SchemaWalk.Proofs.Shell.Reach
import SchemaWalk.Proofs.Traversal.Distinct

/-! # A document tells the position that it was written at -/
namespace SchemaWalk

namespace Document

variable {l l' : List (List Char)}

theorem newline_not_mem_openingLine {opener : List Char} (h : '\n' ∉ opener) (depth : Nat) :
    '\n' ∉ openingLine depth opener := by
  simp [openingLine, margin, h]

theorem joined_openingLines_cons (depth : Nat) (opener : List Char) (l : List (List Char)) :
    joined (openingLines depth (opener :: l)) =
      openingLine depth opener ++ '\n' :: joined (openingLines (depth + 1) l) := by
  simp [openingLines, joined]

theorem count_joined_openingLines (hl : ∀ o ∈ l, '\n' ∉ o) (depth : Nat) :
    (joined (openingLines depth l)).count '\n' = l.length := by
  induction l generalizing depth with
  | nil => rfl
  | cons opener l ih =>
    rw [List.forall_mem_cons] at hl
    have hnone := List.count_eq_zero.2 (newline_not_mem_openingLine hl.1 depth)
    rw [joined_openingLines_cons, List.count_append, List.count_cons_self, hnone, ih hl.2,
      List.length_cons, Nat.zero_add]

theorem joined_openingLines_inj (hl : ∀ o ∈ l, '\n' ∉ o) (hl' : ∀ o ∈ l', '\n' ∉ o) {depth : Nat}
    (h : joined (openingLines depth l) = joined (openingLines depth l')) : l = l' := by
  induction l generalizing l' depth with
  | nil =>
    cases l' with
    | nil => rfl
    | cons opener l' => simp [openingLines, joined] at h
  | cons opener l ih =>
    cases l' with
    | nil => simp [openingLines, joined] at h
    | cons opener' l' =>
      rw [List.forall_mem_cons] at hl hl'
      rw [joined_openingLines_cons, joined_openingLines_cons] at h
      have hcut := Text.cut_eq_some_iff.2 ⟨h, newline_not_mem_openingLine hl'.1 depth⟩
      rw [Text.cut_eq_some_iff.2 ⟨rfl, newline_not_mem_openingLine hl.1 depth⟩, Option.some.injEq,
        Prod.mk.injEq] at hcut
      obtain rfl : opener = opener' := by
        simpa [openingLine] using hcut.1
      rw [ih hl.2 hl'.2 hcut.2]

theorem length_closing_le {m n : Nat} (h : m ≤ n) (depth : Nat) :
    (closing depth m).length ≤ (closing depth n).length := by
  obtain ⟨k, rfl⟩ := Nat.exists_eq_add_of_le h
  rw [closing_add, List.length_append]
  omega

/-- A fragment between opening and closing lines cannot be shifted: if more lines stand before it,
no fewer braces stand after it. -/
theorem framed_inj_of_le (hl : ∀ o ∈ l, '\n' ∉ o) (hl' : ∀ o ∈ l', '\n' ∉ o) {fragment : List Char}
    (h : framed fragment l = framed fragment l')
    (hle : (joined (openingLines 0 l)).length ≤ (joined (openingLines 0 l')).length) : l = l' := by
  unfold framed at h
  have hprefix : joined (openingLines 0 l) <+: joined (openingLines 0 l') := by
    refine List.prefix_of_prefix_length_le ⟨fragment ++ closing 0 l.length, ?_⟩
      ⟨fragment ++ closing 0 l'.length, List.append_assoc .. |>.symm⟩ hle
    rw [← List.append_assoc, h]
  obtain ⟨more, hmore⟩ := hprefix
  have hcount : l.length ≤ l'.length := by
    rw [← count_joined_openingLines hl 0, ← count_joined_openingLines hl' 0, ← hmore,
      List.count_append]
    omega
  have hclosing := length_closing_le hcount 0
  have hlength := congrArg List.length h
  simp only [List.length_append, ← hmore] at hlength
  obtain rfl : more = [] := List.eq_nil_of_length_eq_zero (by omega)
  rw [List.append_nil] at hmore
  exact joined_openingLines_inj hl hl' hmore

theorem framed_inj (hl : ∀ o ∈ l, '\n' ∉ o) (hl' : ∀ o ∈ l', '\n' ∉ o) {fragment : List Char}
    (h : framed fragment l = framed fragment l') : l = l' := by
  rcases Nat.le_total (joined (openingLines 0 l)).length (joined (openingLines 0 l')).length
    with hle | hle
  · exact framed_inj_of_le hl hl' h hle
  · exact (framed_inj_of_le hl' hl h.symm hle).symm

variable {s t : Selection} {below below' : List Selection}

theorem scopeText_eq (typeName : String) :
    scopeText typeName = ['.', '.', '.', ' ', 'o', 'n', ' '] ++ typeName.toList := by
  have hdots : "... on ".toList = ['.', '.', '.', ' ', 'o', 'n', ' '] := by simp
  exact congrArg (· ++ typeName.toList) hdots

theorem newline_not_mem_scopeText {typeName : String} (h : Name.isName typeName = true) :
    '\n' ∉ scopeText typeName := by
  have hname : '\n' ∉ typeName.toList := Name.not_mem_of_isNameText h (by decide)
  simp [scopeText_eq, hname]

theorem newline_not_mem_openers (hs : s.Printable) (hspelled : s.Spelled) :
    ∀ o ∈ openers s, '\n' ∉ o := by
  simp only [openers, List.forall_mem_cons, Option.mem_toList, Option.map_eq_some_iff]
  refine ⟨hs.newline_not_mem_text, ?_⟩
  rintro _ ⟨typeName, ht, rfl⟩
  exact newline_not_mem_scopeText (hspelled.scope typeName ht)

theorem flatMap_openers_ne_scope (hs : ∀ s ∈ below, s.Printable) (typeName : String)
    (rest : List (List Char)) : below.flatMap openers ≠ scopeText typeName :: rest := by
  rw [scopeText_eq]
  cases below with
  | nil => simp
  | cons s below =>
    obtain ⟨c, text, htext, hc⟩ := (hs s List.mem_cons_self).text_eq_cons
    rw [List.flatMap_cons, openers, htext]
    intro h
    obtain rfl : c = '.' := by simp at h; exact h.1.1
    cases hc

theorem flatMap_openers_inj (hs : ∀ s ∈ below, s.Printable) (hs' : ∀ s ∈ below', s.Printable)
    (h : below.flatMap openers = below'.flatMap openers) : below = below' := by
  induction below generalizing below' with
  | nil =>
    cases below' with
    | nil => rfl
    | cons t below' => simp [openers] at h
  | cons s below ih =>
    cases below' with
    | nil => simp [openers] at h
    | cons t below' =>
      rw [List.forall_mem_cons] at hs hs'
      obtain ⟨name, arguments, scope⟩ := s
      obtain ⟨name', arguments', scope'⟩ := t
      rw [List.flatMap_cons, List.flatMap_cons, openers, openers, List.cons_append,
        List.cons_append, List.cons.injEq] at h
      obtain ⟨rfl, rfl⟩ : name = name' ∧ arguments = arguments' := Selection.text_inj hs.1 hs'.1 h.1
      cases scope with
      | none =>
        cases scope' with
        | none => rw [ih hs.2 hs'.2 (by simpa using h.2)]
        | some typeName =>
          exact absurd (by simpa using h.2) (flatMap_openers_ne_scope hs.2 typeName _)
      | some typeName =>
        cases scope' with
        | none => exact absurd (by simpa using h.2.symm) (flatMap_openers_ne_scope hs'.2 typeName _)
        | some typeName' =>
          have hscope : typeName = typeName' ∧ below.flatMap openers = below'.flatMap openers := by
            simpa [scopeText_eq, String.toList_inj] using h.2
          obtain ⟨rfl, hbelow⟩ := hscope
          rw [ih hs.2 hs'.2 hbelow]

end Document

namespace Path

open Document

theorem Spelled.newline_not_mem_openers {p : Path} (hp : p.Spelled)
    (hs : ∀ s ∈ p.lineage, s.Printable) : ∀ o ∈ p.openers, '\n' ∉ o := by
  intro o ho
  obtain ⟨s, hmem, ho⟩ := List.mem_flatMap.1 ho
  exact Document.newline_not_mem_openers (hs s hmem) (hp s hmem) o ho

end Path

namespace Session

/-- Two sessions that write the same document around a fragment, whatever the fragment is, stand at
the same place: the root is narrowed to the same type, and below it stand the same fields with the
same arguments and types. -/
theorem position_eq_of_document_eq {s t : Session} (hs : s.Reached) (ht : t.Reached)
    {fragment document : String} (h : s.path.document fragment = .ok document)
    (h' : t.path.document fragment = .ok document) :
    s.path.rootScope = t.path.rootScope ∧ s.path.selections = t.path.selections := by
  have hprintable := hs.spelled.printable_of_document h
  have hprintable' := ht.spelled.printable_of_document h'
  rw [Path.document_of_printable hprintable, Except.ok.injEq] at h
  rw [Path.document_of_printable hprintable', Except.ok.injEq, ← h, String.ofList_inj] at h'
  have hopeners := Document.framed_inj (hs.spelled.newline_not_mem_openers hprintable)
    (ht.spelled.newline_not_mem_openers hprintable') h'.symm
  have hlineage : s.path.lineage = t.path.lineage :=
    Document.flatMap_openers_inj hprintable hprintable' hopeners
  obtain ⟨root, hroot, -, -, hscope⟩ := s.path.lineage_eq
  obtain ⟨root', hroot', -, -, hscope'⟩ := t.path.lineage_eq
  rw [hroot, hroot', List.cons.injEq] at hlineage
  exact ⟨by rw [← hscope, ← hscope', hlineage.1], hlineage.2⟩

/-- Two ways to one place, and a fragment that has the form of further lines. -/
theorem position_eq_around_braces :
    let s := bare.after ["on T", ".a(x: \"\\u007b\")", "on U"]
    let t := bare.after [".b.c", "../..", "on T", ".a(x:\"\x7b\")", "on U"]
    let fragment := "\x7d\n  \x7d\n  a(x: \"\x7b\") \x7b\n    ... on U \x7b"
    let document :=
      "query \x7b\n  ... on T \x7b\n    a(x: \"\x7b\") \x7b\n      ... on U \x7b\n" ++ fragment ++
        "\n      \x7d\n    \x7d\n  \x7d\n\x7d"
    s.Reached ∧ t.Reached ∧ s.path.document fragment = .ok document ∧
      t.path.document fragment = .ok document ∧ s.path.rootScope = t.path.rootScope ∧
      s.path.selections = t.path.selections := by
  intro s t fragment document
  have hs : s.Reached := (Reached.start start_bareService).after _
  have ht : t.Reached := (Reached.start start_bareService).after _
  have h : s.path.document fragment = .ok document := eq_ok_of_toOption (by decide +kernel)
  have h' : t.path.document fragment = .ok document := eq_ok_of_toOption (by decide +kernel)
  exact ⟨hs, ht, h, h', position_eq_of_document_eq hs ht h h'⟩

end Session

end SchemaWalk
