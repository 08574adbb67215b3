import SchemaWalk.Proofs.Shell.Dotted
import SchemaWalk.Proofs.Shell.Reach
import SchemaWalk.Proofs.Traversal.Reread

/-! # Typing a printed path into another session -/
namespace SchemaWalk

namespace Path

/-- The steps as they are typed, for literals that have a form in a document. -/
def typed (p : Path) : List Char := (p.selections.map (·.text)).flatMap ('.' :: ·)

theorem Spelled.printable {p : Path} (hp : p.Spelled) {text : String} (h : p.render = .ok text) :
    p.Printable := by
  intro s hs
  obtain ⟨step, hstep, rfl⟩ := List.mem_map.1 hs
  cases hsteps : p.steps.mapM (fun s => s.render) with
  | error e => simp [Path.render, hsteps, bind, Except.bind] at h
  | ok texts =>
    obtain ⟨t, ht⟩ := exists_ok_of_mapM hsteps hstep
    obtain ⟨root, hroot, -⟩ := p.lineage_eq
    exact (hp _ (by rw [hroot]; exact List.mem_cons_of_mem _ hs)).printable ht

theorem Printable.render_append {p : Path} (hp : p.Printable) :
    (start.append (p.selections.map fun s => { name := s.name, arguments := s.arguments })).render =
      .ok (String.ofList p.typed) := by
  have hselections : (start.append
      (p.selections.map fun s => { name := s.name, arguments := s.arguments })).selections =
      p.selections.map fun s => { name := s.name, arguments := s.arguments } := by
    simp [Function.comp_def]
  have hprintable : (start.append
      (p.selections.map fun s => { name := s.name, arguments := s.arguments })).Printable := by
    intro t ht
    rw [hselections, List.mem_map] at ht
    obtain ⟨s, hs, rfl⟩ := ht
    exact ⟨(hp s hs).name, (hp s hs).keys, (hp s hs).values⟩
  rw [hprintable.render, hselections, List.map_map]
  rfl

theorem Printable.newline_not_mem_typed {p : Path} (hp : p.Printable) : '\n' ∉ p.typed := by
  simp only [typed, List.mem_flatMap, List.mem_map, List.mem_cons, not_exists, not_and, not_or]
  rintro _ ⟨s, hs, rfl⟩
  exact ⟨by decide, (hp s hs).newline_not_mem_text⟩

theorem Printable.typed_eq_cons {p : Path} (hp : p.Printable) (hne : p.typed ≠ []) :
    ∃ c rest, p.typed = '.' :: c :: rest ∧ c ≠ '.' := by
  cases hs : p.selections with
  | nil => simp [typed, hs] at hne
  | cons s below =>
    obtain ⟨c, rest, hc, hstart⟩ := (hp s (by simp [hs])).text_eq_cons
    refine ⟨c, rest ++ (below.map (·.text)).flatMap ('.' :: ·), by simp [typed, hs, hc], ?_⟩
    rintro rfl
    cases hstart

end Path

namespace Session

theorem withoutBreak_of_not_mem {text : List Char} (h : '\n' ∉ text) :
    withoutBreak (String.ofList text) = String.ofList text := by
  have hlast : text.getLast? ≠ some '\n' := fun hlast => h (List.mem_of_getLast? hlast)
  rw [withoutBreak, String.toList_ofList, if_neg hlast]

theorem find_descent {c : Char} (hc : c ≠ '.') (rest : List Char) :
    Command.find (String.ofList ('.' :: c :: rest)) =
      match Traversal.descent ('.' :: c :: rest) with
      | .ok steps => .ok (.descend steps)
      | .error reason => .error (.traversal reason) := by
  have hclimb := Traversal.climb?_eq_none hc rest
  cases hsteps : Traversal.descent ('.' :: c :: rest)
    <;> simp only [Command.find_dot, hclimb, hsteps]

theorem execute_typed (s : Session) {p : Path} (hp : p.Printable) (hne : p.typed ≠ []) :
    s.execute (String.ofList p.typed) =
      match Traversal.descent p.typed with
      | .ok steps => (.silent, { s with path := s.path.append steps })
      | .error reason => (.failure reason.message, s) := by
  obtain ⟨c, rest, htyped, hc⟩ := hp.typed_eq_cons hne
  rw [execute, withoutBreak_of_not_mem hp.newline_not_mem_typed, htyped, find_descent hc]
  cases Traversal.descent ('.' :: c :: rest) <;> rfl

theorem execute_pp_eq_output {s : Session} {text : String} :
    (s.execute "pp").1 = .output text ↔ s.path.render = .ok text := by
  have hrun : s.execute "pp" = s.run .printPath := rfl
  rw [hrun, run]
  cases s.path.render <;> simp

/-- A printed path is one line. In a session that has just begun this line leads to a path that
prints the same, exactly if no string among the arguments holds a dot or a comma. Otherwise it is
refused, and the session stays as it is. -/
theorem printed_path_typed_back_iff {s fresh : Session} {c : Connection} {text : String}
    (hs : s.Reached) (hprint : (s.execute "pp").1 = .output text) (hne : text ≠ "")
    (hfresh : Session.start c = .ok fresh) :
    '\n' ∉ text.toList ∧
      ((∃ s', fresh.execute text = (.silent, s') ∧ (s'.execute "pp").1 = .output text) ↔
        s.path.Uncut) ∧
      (¬s.path.Uncut →
        ∃ reason : TraversalError, fresh.execute text = (.failure reason.message, fresh)) := by
  have hrender := execute_pp_eq_output.1 hprint
  have hprintable := hs.spelled.printable hrender
  obtain rfl : String.ofList s.path.typed = text := by
    rw [hprintable.render] at hrender
    exact Except.ok.inj hrender
  have htyped : s.path.typed ≠ [] := fun h => hne (by rw [h])
  have hexecute := fresh.execute_typed hprintable htyped
  have hrefused : ¬s.path.Uncut → ∃ reason : TraversalError,
      fresh.execute (String.ofList s.path.typed) = (.failure reason.message, fresh) := by
    intro hcut
    obtain ⟨reason, hreason⟩ :=
      Traversal.descent_error hprintable (Path.exists_holds_of_not_uncut hcut)
    exact ⟨reason, by rw [hexecute, Path.typed, hreason]⟩
  refine ⟨by rw [String.toList_ofList]; exact hprintable.newline_not_mem_typed, ⟨?_, ?_⟩, hrefused⟩
  · rintro ⟨s', hs', -⟩
    refine Classical.byContradiction fun hcut => ?_
    obtain ⟨reason, hreason⟩ := hrefused hcut
    rw [hreason] at hs'
    cases hs'
  · intro huncut
    have hread := Traversal.descent_texts hprintable huncut
    refine ⟨_, by rw [hexecute, Path.typed, hread], ?_⟩
    rw [execute_pp_eq_output, path_of_start hfresh]
    exact hprintable.render_append

/-- Escapes, parentheses and colons in a string do no harm. -/
theorem marks_typed_back :
    let text := ".user(id: \"a:(b)\\\"\\\\\\n\\u0007\").posts"
    let s := bare.after [".user(id: \"\\u0061:(b)\\\"\\\\\\n\\u0007\").posts"]
    s.Reached ∧ (s.execute "pp").1 = .output text ∧ text ≠ "" ∧
      Session.start bareService = .ok bare ∧ s.path.Uncut ∧
      ∃ s', bare.execute text = (.silent, s') ∧ (s'.execute "pp").1 = .output text := by
  intro text s
  have hs : s.Reached := (Reached.start start_bareService).after _
  have hprint : (s.execute "pp").1 = .output text := by decide +kernel
  have huncut : s.path.Uncut := by decide +kernel
  have hback := (printed_path_typed_back_iff hs hprint (by decide) start_bareService).2.1.2 huncut
  exact ⟨hs, hprint, by decide, start_bareService, huncut, hback⟩

/-- A dot that is typed as an escape is printed as itself, and the printed line is refused. -/
theorem dot_not_typed_back :
    let text := ".a(x: \"b.c\")"
    let s := bare.after [".a(x: \"b\\u002ec\")"]
    s.Reached ∧ (s.execute "pp").1 = .output text ∧ Session.start bareService = .ok bare ∧
      (bare.execute text).1 = .failure "Invalid traversal segment `a(x: \"b`" := by
  intro text s
  exact ⟨(Reached.start start_bareService).after _, by decide +kernel, start_bareService,
    by decide +kernel⟩

end Session

end SchemaWalk
