import SchemaWalk.Proofs.Path.Handles
import SchemaWalk.Proofs.Path.Invariant
import SchemaWalk.Shell.Session

/-! # Narrowing the current step, and what the next listing and the next document show -/
namespace SchemaWalk

open Text

namespace Path

variable (p : Path)

theorem holds_current : p.holds p.current = true :=
  Arena.holds_iff_node?.2 (Arena.exists_node?_of_handleAt p.linked.current)

theorem exists_entries_rescope_current (typeName : String) :
    ∃ above e, p.entries = above ++ [e] ∧
      (p.rescope p.current typeName).entries = above ++ [(e.1, e.2.withScope typeName)] := by
  have hlength : p.current.depth + 1 = p.entries.length := by
    rw [p.linked.current_depth, Arena.length_entries]
  obtain ⟨above, e, below, he, habove, hmodify⟩ :=
    List.exists_of_modify (fun e : UInt64 × Selection => (e.1, e.2.withScope typeName))
      (show p.current.depth < p.entries.length by omega)
  obtain rfl : below = [] := by
    rw [he, List.length_append, List.length_cons] at hlength
    exact List.eq_nil_of_length_eq_zero (by omega)
  exact ⟨above, e, he, by rw [entries_rescope p.holds_current, hmodify]⟩

theorem isAtRoot_eq : p.isAtRoot = p.selections.isEmpty := by
  rw [p.linked.isAtRoot_eq, Arena.isEmpty, length_eq]
  cases p.selections <;> rfl

end Path

namespace Schema

theorem advance_withScope {schema : Schema} {typeName : String} {t : TypeDef} (hne : typeName ≠ "")
    (ht : schema.type? typeName = some t) (u : TypeDef) (s : Selection) :
    schema.advance u (s.withScope typeName) = .ok t := by
  have hempty : typeName.isEmpty = false := by simpa using hne
  simp [advance, nextName, Selection.withScope, hempty, bind, Except.bind, ht]

theorem typeAlong_rescope_current {schema : Schema} {p : Path} {typeName : String} {t : TypeDef}
    (hne : typeName ≠ "") (ht : schema.type? typeName = some t)
    (habove : ∃ u, schema.typeAlong p.steps.dropLast = .ok u) :
    schema.typeAlong (p.rescope p.current typeName).steps =
      .ok (if p.isAtRoot then schema.query else t) := by
  obtain ⟨u, hu⟩ := habove
  obtain ⟨above, e, he, he'⟩ := p.exists_entries_rescope_current typeName
  have hbefore := p.selections_eq
  have hafter := (p.rescope p.current typeName).selections_eq
  rw [he] at hbefore
  rw [he'] at hafter
  rw [typeAlong_eq, ← Path.selections, hafter]
  cases above with
  | nil =>
    have hroot : p.isAtRoot = true := by rw [p.isAtRoot_eq, hbefore]; rfl
    rw [hroot]
    rfl
  | cons root above =>
    have hroot : p.isAtRoot = false := by rw [p.isAtRoot_eq, hbefore]; simp
    rw [typeAlong_eq, List.map_dropLast, ← Path.selections, hbefore] at hu
    simp only [List.cons_append, List.tail_cons, List.map_append, List.map_singleton,
      List.dropLast_concat] at hu ⊢
    rw [hroot, List.foldlM_append, hu]
    simp only [bind, Except.bind, List.foldlM_cons, List.foldlM_nil, advance_withScope hne ht u e.2]
    rfl

end Schema

namespace Document

/-- Line breaks, indentation and closing braces, which is all that stands after the
innermost selection. -/
def Closing (text : List Char) : Prop := ∀ c ∈ text, c = '\n' ∨ c = ' ' ∨ c = '\x7d'

theorem Closing.append {s t : List Char} (hs : Closing s) (ht : Closing t) : Closing (s ++ t) :=
  fun c hc =>
  (List.mem_append.1 hc).elim (hs c) (ht c)

theorem closing_after {indent : List Char} (hi : ∀ c ∈ indent, c = ' ') (s : Selection) :
    Closing (after indent s) := by
  have hindent : Closing indent := fun c hc => .inr (.inl (hi c hc))
  have hbreak : Closing ['\n'] := by simp [Closing]
  have hshift : Closing shift := by simp [Closing, shift]
  have hbrace : Closing ['\x7d'] := by simp [Closing]
  have hline : Closing ('\n' :: indent ++ ['\x7d']) := (hbreak.append hindent).append hbrace
  cases hs : s.scope with
  | none => simpa [after, hs] using hline
  | some typeName =>
    have hscope : Closing ('\n' :: indent ++ shift ++ ['\x7d']) :=
      ((hbreak.append hindent).append hshift).append hbrace
    simpa [after, hs] using hscope.append hline

theorem inner_blank {indent : List Char} (hi : ∀ c ∈ indent, c = ' ') (s : Selection) :
    ∀ c ∈ inner indent s, c = ' ' := by
  have hshift : ∀ c ∈ shift, c = ' ' := by simp [shift]
  intro c hc
  cases hs : s.scope with
  | none =>
    rw [inner, hs] at hc
    exact (List.mem_append.1 hc).elim (hi c) (hshift c)
  | some typeName =>
    rw [inner, hs] at hc
    exact (List.mem_append.1 hc).elim (fun hc => (List.mem_append.1 hc).elim (hi c) (hshift c))
      (hshift c)

theorem nest_narrowed {fragment : List Char} {above : List Selection} {s : Selection}
    {typeName : String} (hne : typeName ≠ "") {indent text : List Char} (hi : ∀ c ∈ indent, c = ' ')
    (h : nest fragment indent (above ++ [s.withScope typeName]) = .ok text) :
    ∃ opened closed, text =
      opened ++ (scopeText typeName ++ [' ', '\x7b', '\n'] ++ fragment) ++ closed ∧
      Closing closed := by
  induction above generalizing indent text with
  | nil =>
    obtain ⟨opening, inside, -, hinside, rfl⟩ := nest_cons_eq_ok h
    have hscope : (s.withScope typeName).scope = some typeName := by simp [Selection.withScope, hne]
    rw [nest, Except.ok.injEq] at hinside
    subst hinside
    refine ⟨indent ++ opening ++ [' ', '\x7b'] ++ ('\n' :: indent ++ shift),
      after indent (s.withScope typeName), ?_, closing_after hi _⟩
    simp [before, hscope]
  | cons root above ih =>
    obtain ⟨opening, inside, -, hinside, rfl⟩ := nest_cons_eq_ok h
    obtain ⟨opened, closed, rfl, hclosed⟩ := ih (inner_blank hi root) hinside
    refine ⟨before indent root opening ++ opened, closed ++ after indent root, ?_,
      hclosed.append (closing_after hi root)⟩
    simp

end Document

namespace Session

theorem withoutBreak_on {typeName : String} (hname : Name.isName typeName = true) :
    withoutBreak ("on " ++ typeName) = "on " ++ typeName := by
  have hline : '\n' ∉ typeName.toList := Name.not_mem_of_isNameText hname (by decide)
  have hlast : ("on " ++ typeName).toList.getLast? ≠ some '\n' := by
    intro hlast
    have hmem := List.mem_of_getLast? hlast
    simp [hline] at hmem
  rw [withoutBreak, if_neg hlast]

theorem find_on {typeName : String} (hname : Name.isName typeName = true) :
    Command.find ("on " ++ typeName) = .ok (.narrow (some typeName)) := by
  have htext : ("on " ++ typeName).toList = 'o' :: 'n' :: ' ' :: typeName.toList := by simp
  have hne : ∀ word : String, word.toList.take 3 ≠ ['o', 'n', ' '] → "on " ++ typeName ≠ word := by
    rintro _ h rfl
    exact h (by simp [htext])
  have hhelp : Command.help? ("on " ++ typeName).toList = none := by
    simp [htext, Command.help?, Command.after?]
  have hname' : Name.isNameText typeName.toList = true := hname
  have hnarrow : (Command.after? "on" ("on " ++ typeName).toList).bind Command.typeName? =
      some (some typeName) := by
    simp [htext, Command.after?, Command.typeName?, hname', show "on".length = 2 from rfl]
  simp only [Command.find, if_neg (hne "exit" (by decide)), hhelp, if_neg (hne "ls" (by decide)),
    hnarrow]

theorem execute_on (s : Session) {typeName : String} (hname : Name.isName typeName = true) :
    s.execute ("on " ++ typeName) =
      (.silent, { s with path := s.path.rescope s.path.current typeName }) := by
  rw [execute, withoutBreak_on hname, find_on hname]
  rfl

theorem execute_ls (s : Session) : s.execute "ls" = s.run .listFields := rfl

theorem execute_pq (s : Session) : s.execute "pq" = s.run .printDocument := rfl

/-- After `on` with a type of the schema the document selects on that type innermost. The listing
shows the fields of that type too, except at the root: there it goes on with those of the type where
queries begin. -/
theorem listing_after_on (s : Session) {typeName : String} {t : TypeDef}
    (hname : Name.isName typeName = true) (ht : s.schema.type? typeName = some t)
    (habove : ∃ u, s.schema.typeAlong s.path.steps.dropLast = .ok u) :
    ∃ s', s.execute ("on " ++ typeName) = (.silent, s') ∧
      (s'.execute "ls").1 =
        .output (fieldTable (if s.path.isAtRoot then s.schema.query else t).fields) ∧
      ((s'.execute "ls").1 = .output (fieldTable t.fields) ↔
        s.path.isAtRoot = false ∨ fieldTable s.schema.query.fields = fieldTable t.fields) ∧
      ∀ text, (s'.execute "pq").1 = .output text → ∃ opened closed,
        text.toList =
          opened ++ ("... on ".toList ++ typeName.toList ++ [' ', '\x7b', '\n']) ++ closed ∧
          Document.Closing closed := by
  have hne : typeName ≠ "" := by
    rintro rfl
    cases hname
  have hlisting : ∀ s' : Session, s' = { s with path := s.path.rescope s.path.current typeName } →
      (s'.execute "ls").1 =
        .output (fieldTable (if s.path.isAtRoot then s.schema.query else t).fields) := by
    rintro s' rfl
    have htype := Schema.typeAlong_rescope_current hne ht habove
    simp only [execute_ls, run, Schema.fieldsAt, Schema.fieldsAlong, htype, Except.map]
  refine ⟨_, s.execute_on hname, hlisting _ rfl, ?_, ?_⟩
  · rw [hlisting _ rfl, Outcome.output_inj]
    cases s.path.isAtRoot <;> simp
  · intro text htext
    obtain ⟨above, e, -, hentries⟩ := s.path.exists_entries_rescope_current typeName
    simp only [execute_pq, run, Path.document_eq, hentries, List.map_append, List.map_singleton,
      String.toList_empty] at htext
    cases hdocument : Document.nest [] [] (above.map (·.2) ++ [e.2.withScope typeName]) with
    | error reason => simp [hdocument, Except.map] at htext
    | ok document =>
      obtain ⟨opened, closed, hshape, hclosed⟩ := Document.nest_narrowed hne (by simp) hdocument
      simp only [hdocument, Except.map, Outcome.output_inj] at htext
      refine ⟨opened, closed, ?_, hclosed⟩
      rw [← htext, String.toList_ofList, hshape, List.append_nil]
      rfl

def twoTypes : Schema where
  queryName := "Query"
  mutationName := none
  subscriptionName := none
  types :=
    Schema.collect [{ kind := .object, name := "Query",
                      fields := [{ name := "a", type := .named .object "A" }] },
      { kind := .object, name := "A", fields := [{ name := "x", type := .named .scalar "Int" }] }]
  query_defined := by decide

def unanswered (schema : Schema) (p : Path) : Session :=
  ⟨schema, p, .ofReplies [] (.error (.other "no reply"))⟩

theorem listing_after_on_below_root :
    let s := unanswered twoTypes (Path.start.append [{ name := "a" }])
    ∃ t s', Name.isName "A" = true ∧ s.schema.type? "A" = some t ∧
      (∃ u, s.schema.typeAlong s.path.steps.dropLast = .ok u) ∧
      s.execute ("on " ++ "A") = (.silent, s') ∧
      (s'.execute "ls").1 = .output (fieldTable t.fields) := by
  intro s
  have hname : Name.isName "A" = true := by decide
  have ht : ∃ t, s.schema.type? "A" = some t := ⟨_, rfl⟩
  have habove : ∃ u, s.schema.typeAlong s.path.steps.dropLast = .ok u := ⟨_, rfl⟩
  have hroot : s.path.isAtRoot = false := by decide
  obtain ⟨t, ht⟩ := ht
  obtain ⟨s', hon, -, hls, -⟩ := listing_after_on s hname ht habove
  exact ⟨t, s', hname, ht, habove, hon, hls.2 (.inl hroot)⟩

/-- At the root the document selects on the type, and the listing does not show its fields. -/
theorem listing_after_on_at_root :
    let s := unanswered twoTypes .start
    let s' := (s.execute "on A").2
    Name.isName "A" = true ∧ (∃ u, s.schema.typeAlong s.path.steps.dropLast = .ok u) ∧
      (∃ t, s.schema.type? "A" = some t ∧ (s'.execute "ls").1 ≠ .output (fieldTable t.fields)) ∧
      (s'.execute "ls").1 = .output "NAME TYPE DESCRIPTION\na    A    " ∧
      (s'.execute "pq").1 = .output "query \x7b\n  ... on A \x7b\n\n  \x7d\n\x7d" := by
  refine ⟨by decide, ⟨_, rfl⟩, ⟨_, rfl, ?_⟩, ?_, ?_⟩
  · decide +kernel
  · decide +kernel
  · decide +kernel

end Session

end SchemaWalk
