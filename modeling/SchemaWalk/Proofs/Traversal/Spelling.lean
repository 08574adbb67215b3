import SchemaWalk.Proofs.Path.Spelling
import SchemaWalk.Proofs.Traversal.Grammar

/-! # Names that typed movements bring into a path -/
namespace SchemaWalk

theorem Selection.Spelled.printable {s : Selection} (hs : s.Spelled) {text : List Char}
    (h : s.render = .ok text) : s.Printable := by
  refine ⟨hs.name, hs.keys, fun e he => ?_⟩
  have hne : s.arguments.isEmpty = false := by
    cases hentries : s.arguments.entries with
    | nil => rw [hentries] at he; cases he
    | cons => simp [Dictionary.isEmpty, hentries]
  cases harguments : s.arguments.entries.mapM (argumentText s.name) with
  | error reason => simp [Selection.render, hne, harguments, bind, Except.bind] at h
  | ok arguments =>
    obtain ⟨text, htext⟩ := exists_ok_of_mapM harguments he
    cases hvalue : e.2.render? with
    | none => simp [argumentText, hvalue] at htext
    | some value => exact Literal.plain_of_render? hvalue

namespace Traversal

open Text

theorem segment_eq_ok {text : List Char} {s : Step} (h : segment text = .ok s) :
    s.toSelection.Spelled := by
  cases ((segment_eq_iff text).1 s).1 h with
  | bare hname => exact Selection.spelled_bare hname
  | call hcall hparts hentries hkeeps =>
    refine ⟨hcall.name, fun e he => ?_, by simp⟩
    obtain ⟨before, later, hsplit, -⟩ := (hkeeps e.1 e.2).1 (Dictionary.find?_of_mem he)
    have hmem : e ∈ before ++ e :: later := List.mem_append_right _ List.mem_cons_self
    obtain ⟨pair, -, hpair⟩ :=
      exists_mem_of_mapM (mapM_argument_eq_ok_iff.2 hentries) (hsplit ▸ hmem)
    cases ((argument_eq_iff text pair).1 e).1 hpair with
    | intro hcolon htrim hname hvalue => exact hname

theorem descent_eq_ok {text : List Char} {steps : List Step} (h : descent text = .ok steps) :
    ∀ s ∈ steps, s.toSelection.Spelled := by
  intro s hs
  unfold descent at h
  split at h
  · obtain ⟨piece, -, hpiece⟩ := exists_mem_of_mapM h hs
    exact segment_eq_ok hpiece
  · cases h

end Traversal

end SchemaWalk
