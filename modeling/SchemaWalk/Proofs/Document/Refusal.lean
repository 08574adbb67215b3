import SchemaWalk.Proofs.Dictionary
import SchemaWalk.Proofs.Document.Lines
import SchemaWalk.Proofs.Path.Handles
import SchemaWalk.Proofs.Path.Stack
import SchemaWalk.Proofs.Text.ByteOrder

/-! # Paths without a text or a document: which argument is reported -/
namespace SchemaWalk

theorem Literal.render?_eq_none_iff {v : Literal} : v.render? = none ↔ ¬v.Plain := by
  cases v <;> simp [Literal.render?, Literal.Plain]

namespace Selection

/-- What is reported of a selection: among the arguments whose values have no form it is the one
with the least name by bytes. -/
inductive Refused (s : Selection) : UnsupportedArgument → Prop
  | intro {name : String} {v : Literal} : s.arguments.find? name = some v → ¬v.Plain →
      (∀ other w, s.arguments.find? other = some w → ¬w.Plain → other ≠ name →
        Text.encode name.toList < Text.encode other.toList) →
      Refused s ⟨s.name, name, v.kind⟩

variable {s : Selection} {e : UnsupportedArgument}

theorem Refused.eq {e' : UnsupportedArgument} (h : s.Refused e) (h' : s.Refused e') : e = e' := by
  obtain @⟨name, v, hv, hplain, hleast⟩ := h
  obtain @⟨other, w, hw, hplain', hleast'⟩ := h'
  obtain rfl : other = name := Classical.byContradiction fun hne =>
    List.lt_asymm (hleast other w hw hplain' hne) (hleast' name v hv hplain (Ne.symm hne))
  rw [hv, Option.some.injEq] at hw
  rw [hw]

theorem argumentText_eq_error_iff {step : String} {a : String × Literal} :
    argumentText step a = .error e ↔ ¬a.2.Plain ∧ e = ⟨step, a.1, a.2.kind⟩ := by
  rw [← Literal.render?_eq_none_iff]
  obtain ⟨name, v⟩ := a
  cases hv : v.render? <;> simp [argumentText, hv, eq_comm]

theorem exists_argumentText_iff {step : String} {a : String × Literal} :
    (∃ text, argumentText step a = .ok text) ↔ a.2.Plain := by
  simp [exists_ok_iff, argumentText_eq_error_iff]

theorem render_eq_error_iff_mapM :
    s.render = .error e ↔ s.arguments.entries.mapM (argumentText s.name) = .error e := by
  unfold render
  split
  · next hempty =>
    rw [List.isEmpty_iff.1 hempty]
    simp [pure, Except.pure]
  · cases s.arguments.entries.mapM (argumentText s.name) <;> simp [bind, Except.bind]

theorem exists_render_iff :
    (∃ text, s.render = .ok text) ↔ ∀ a ∈ s.arguments.entries, a.2.Plain := by
  constructor
  · intro h a ha
    have hwritten : ∃ text, argumentText s.name a = .ok text := by
      refine exists_ok_iff.2 fun e he => ?_
      obtain ⟨e', he'⟩ := mapM_eq_error ha ⟨e, he⟩
      exact exists_ok_iff.1 h e' (render_eq_error_iff_mapM.2 he')
    exact exists_argumentText_iff.1 hwritten
  · exact fun hplain => ⟨s.text, render_of_plain hplain⟩

/-- The entries are in ascending order, so the first one that fails has the least name
of those that would. -/
theorem refused_of_render (h : s.render = .error e) : s.Refused e := by
  obtain ⟨before, ⟨name, v⟩, later, hentries, hbefore, hfails⟩ :=
    mapM_eq_error_iff.1 (render_eq_error_iff_mapM.1 h)
  obtain ⟨hplain, rfl⟩ := argumentText_eq_error_iff.1 hfails
  have hascending := s.arguments.ascending
  rw [Ascending, hentries] at hascending
  refine .intro (Dictionary.find?_of_mem (by simp [hentries])) hplain
    fun other w hw hplain' hne => ?_
  apply Text.encode_lt_encode
  have hmem := Dictionary.mem_of_find? hw
  rw [hentries, List.mem_append, List.mem_cons] at hmem
  rcases hmem with hmem | hmem | hmem
  · exact absurd (exists_argumentText_iff.1 (hbefore _ hmem)) hplain'
  · exact absurd (congrArg Prod.fst hmem) hne
  · exact List.rel_of_pairwise_cons (List.pairwise_append.1 hascending).2.1 hmem

theorem render_eq_error_iff : s.render = .error e ↔ s.Refused e := by
  refine ⟨refused_of_render, fun h => ?_⟩
  cases hrender : s.render with
  | error e' => rw [h.eq (refused_of_render hrender)]
  | ok text =>
    obtain @⟨name, v, hv, hplain, -⟩ := h
    exact absurd (exists_render_iff.1 ⟨text, hrender⟩ _ (Dictionary.mem_of_find? hv)) hplain

end Selection

/-- What is reported of a chain: the first selection decides that has an argument
whose value has no form. -/
inductive RefusedFirst : List Selection → UnsupportedArgument → Prop
  | intro {before later : List Selection} {s : Selection} {e : UnsupportedArgument} :
      (∀ t ∈ before, ∀ a ∈ t.arguments.entries, a.2.Plain) → s.Refused e →
        RefusedFirst (before ++ s :: later) e

theorem mapM_render_eq_error_iff {selections : List Selection} {e : UnsupportedArgument} :
    selections.mapM (·.render) = .error e ↔ RefusedFirst selections e := by
  rw [mapM_eq_error_iff]
  simp only [Selection.exists_render_iff, Selection.render_eq_error_iff]
  constructor
  · rintro ⟨before, s, later, rfl, hbefore, hs⟩
    exact .intro hbefore hs
  · rintro ⟨hbefore, hs⟩
    exact ⟨_, _, _, rfl, hbefore, hs⟩

namespace Document

/-- Wherever the writing of a document stops, it is for the first selection that cannot be written.
By induction on the selections, of which each has opened its line by then. -/
theorem nest_eq_error_iff {fragment indent : List Char} {selections : List Selection}
    {e : UnsupportedArgument} :
    nest fragment indent selections = .error e ↔ selections.mapM (·.render) = .error e := by
  induction selections generalizing indent with
  | nil => simp [nest, pure, Except.pure]
  | cons s below ih =>
    rw [nest, List.mapM_cons]
    cases s.render with
    | error e' => simp [bind, Except.bind]
    | ok opening =>
      have hbelow : nest fragment (inner indent s) below = .error e ↔
          below.mapM (·.render) = .error e := ih
      simp only [bind, Except.bind] at hbelow ⊢
      cases hnest : nest fragment (inner indent s) below <;> cases hrest : below.mapM (·.render) <;>
        simp_all [pure, Except.pure]

end Document

namespace Path

open Document

variable (p : Path) {e : UnsupportedArgument}

theorem render_eq_error_iff : p.render = .error e ↔ p.selections.mapM (·.render) = .error e := by
  rw [render_eq, Stack.render, stack]
  cases p.selections.mapM (·.render) <;> simp [bind, Except.bind, pure, Except.pure]

theorem exists_root :
    ∃ root : Selection, p.lineage = root :: p.selections ∧ root.text = rootName.toList ∧
      root.render = .ok root.text ∧ root.scope = p.rootScope := by
  obtain ⟨root, hroot, hname, harguments, hscope⟩ := p.lineage_eq
  have htext : root.text = rootName.toList := by
    rw [Selection.text_of_isEmpty (by rw [harguments]; rfl), hname]
  refine ⟨root, hroot, htext, Selection.render_of_plain ?_, hscope⟩
  rw [harguments]
  simp [Dictionary.empty]

theorem document_eq_error_iff (fragment : String) :
    p.document fragment = .error e ↔ p.render = .error e := by
  obtain ⟨root, hroot, -, hrender, -⟩ := p.exists_root
  rw [document_eq, map_eq_error_iff, nest_eq_error_iff, ← lineage, hroot, List.mapM_cons, hrender,
    render_eq_error_iff]
  cases p.selections.mapM (·.render) <;> simp [bind, Except.bind, pure, Except.pure]

theorem written_of_render {text : String} (h : p.render = .ok text) :
    (∀ s ∈ p.lineage, s.render = .ok s.text) ∧
      text = String.ofList (p.selections.flatMap fun s => '.' :: s.text) := by
  rw [render_eq, Stack.render, stack] at h
  cases hsegments : p.selections.mapM (·.render) with
  | error e => rw [hsegments] at h; cases h
  | ok segments =>
    have hrender : ∀ s ∈ p.selections, s.render = .ok s.text := fun s hs =>
      Selection.render_of_plain (Selection.exists_render_iff.1 (exists_ok_of_mapM hsegments hs))
    obtain ⟨root, hroot, -, hwritten, -⟩ := p.exists_root
    rw [mapM_eq_ok hrender] at h
    refine ⟨by rw [hroot, List.forall_mem_cons]; exact ⟨hwritten, hrender⟩, ?_⟩
    rw [← Except.ok.inj h, List.flatMap_map]

/-- A path has a text exactly if it has a document, whatever the fragment is. If not then both
report the same argument: of the first step that has one whose value has no form, the one with the
least name by bytes. If so then each step has one text. The path puts a dot before these texts, and
the document opens with each of them the lines of its step. -/
theorem text_and_document_refused_alike (p : Path) :
    (∀ e, p.render = .error e ↔ RefusedFirst p.selections e) ∧
      (∀ fragment e, p.document fragment = .error e ↔ p.render = .error e) ∧
      (∀ fragment, p.documentFrom rootHandle fragment =
        (p.document fragment).mapError .unsupported) ∧
      ∀ text, p.render = .ok text →
        (∀ s ∈ p.selections, s.render = .ok s.text) ∧
          text = String.ofList (p.selections.flatMap fun s => '.' :: s.text) ∧
          ∀ fragment, p.document fragment =
            .ok (String.ofList (framed fragment.toList (rootName.toList ::
              (p.rootScope.map scopeText).toList ++
              p.selections.flatMap fun s => s.text :: (s.scope.map scopeText).toList))) := by
  refine ⟨fun e => p.render_eq_error_iff.trans mapM_render_eq_error_iff,
    fun fragment e => p.document_eq_error_iff fragment, fun fragment => ?_, fun text h => ?_⟩
  · rw [documentFrom, dif_pos (Arena.holds_iff_node?.2 Gives.root.node?)]
    rfl
  · obtain ⟨hrender, htext⟩ := p.written_of_render h
    obtain ⟨root, hroot, hname, -, hscope⟩ := p.exists_root
    refine ⟨fun s hs => hrender s (by rw [hroot]; exact List.mem_cons_of_mem _ hs), htext,
      fun fragment => ?_⟩
    have hnest := nest_eq hrender fragment.toList 0
    rw [← framed, hroot, List.flatMap_cons, Document.openers, hname, hscope] at hnest
    rw [document_eq, ← lineage, hroot, show ([] : List Char) = margin 0 from rfl, hnest]
    rfl

/-- The second step has three arguments that have no form, and the third one another. The least name
is not the one of the fewest bytes. Without these arguments there is a text, and the scopes show in
the document alone. -/
theorem text_and_document_refused_alike_by_bytes :
    let first : Step :=
      { name := "a b", arguments := .ofList [("x", .string "\"\n"), ("é", .boolean true)],
        scope := some "T" }
    let refused := start.append [first,
      { name := "c",
        arguments := .ofList [("😀", .float 1.5), ("z", .integer (-3)), ("｡", .json (.boolean true)),
          ("｡a", .json .null)] },
      { name := "d", arguments := .ofList [("a", .float 0)] }]
    let written := (start.append [first, { name := "c" }]).rescope rootHandle "Q"
    refused.render = .error ⟨"c", "｡", "json"⟩ ∧ refused.document "x" = .error ⟨"c", "｡", "json"⟩ ∧
      written.render = .ok ".a b(x: \"\\\"\\n\", é: true).c" ∧
      written.document "" =
        .ok ("query \x7b\n  ... on Q \x7b\n    a b(x: \"\\\"\\n\", é: true) \x7b\n      ... on T \x7b\n" ++
          "        c \x7b\n\n        \x7d\n      \x7d\n    \x7d\n  \x7d\n\x7d") := by
  intro first refused written
  have hrefused : refused.render = .error ⟨"c", "｡", "json"⟩ := by decide +kernel
  have hwritten : written.render = .ok ".a b(x: \"\\\"\\n\", é: true).c" := by decide +kernel
  obtain ⟨-, -, hdocument⟩ := (text_and_document_refused_alike written).2.2.2 _ hwritten
  refine ⟨hrefused, ((text_and_document_refused_alike refused).2.1 "x" _).2 hrefused, hwritten, ?_⟩
  rw [hdocument]
  exact congrArg Except.ok (by decide +kernel)

end Path

end SchemaWalk
