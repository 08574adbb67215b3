import SchemaWalk.Document
import SchemaWalk.Proofs.Traversal.Segment

/-! # Reading back a printed path -/
namespace SchemaWalk

open Text

namespace Traversal

theorem descent_segments (texts : List (List Char)) :
    descent (texts.flatMap ('.' :: ·)) = (texts.flatMap (pieces '.')).mapM segment := by
  have hpieces := pieces_flatMap '.' [] texts
  rw [List.nil_append] at hpieces
  rw [descent, hpieces]
  rfl

theorem descent_texts {steps : List Selection} (hs : ∀ s ∈ steps, s.Printable)
    (hwhole : ∀ s ∈ steps, ¬s.Holds '.' ∧ ¬s.Holds ',') :
    descent ((steps.map (·.text)).flatMap ('.' :: ·)) =
      .ok (steps.map fun s => { name := s.name, arguments := s.arguments }) := by
  have htexts : ∀ t ∈ steps.map (·.text), '.' ∉ t := by
    intro t ht
    obtain ⟨s, hmem, rfl⟩ := List.mem_map.1 ht
    exact (hs s hmem).dot_not_mem_text (hwhole s hmem).1
  rw [descent_segments, flatMap_pieces htexts, List.mapM_map]
  exact mapM_eq_ok fun s hmem => segment_text (hs s hmem) (hwhole s hmem).2

theorem descent_error {steps : List Selection} (hs : ∀ s ∈ steps, s.Printable)
    (h : ∃ s ∈ steps, s.Holds '.' ∨ s.Holds ',') :
    ∃ e, descent ((steps.map (·.text)).flatMap ('.' :: ·)) = .error e := by
  obtain ⟨s, hmem, hholds⟩ := h
  have hpiece : ∃ piece ∈ pieces '.' s.text, ∃ e, segment piece = .error e := by
    by_cases hdot : s.Holds '.'
    · exact piece_error_of_dot (hs s hmem) hdot
    · exact piece_error_of_comma (hs s hmem) hdot (hholds.resolve_left hdot)
  obtain ⟨piece, hpiece, herror⟩ := hpiece
  rw [descent_segments]
  exact mapM_eq_error (List.mem_flatMap.2 ⟨s.text, List.mem_map_of_mem hmem, hpiece⟩) herror

end Traversal

namespace Path

/-- Below the root stand only names that can be typed and literals that have a
form in a document. -/
def Printable (p : Path) : Prop := ∀ s ∈ p.selections, s.Printable

/-- No string among the arguments holds a character at which a typed text is cut. -/
def Uncut (p : Path) : Prop := ∀ s ∈ p.selections, ¬s.Holds '.' ∧ ¬s.Holds ','

instance (p : Path) : Decidable p.Uncut := inferInstanceAs (Decidable (∀ s ∈ p.selections, _))

theorem exists_holds_of_not_uncut {p : Path} (h : ¬p.Uncut) :
    ∃ s ∈ p.selections, s.Holds '.' ∨ s.Holds ',' := by
  refine Classical.byContradiction fun hnone => h fun s hs => ?_
  exact ⟨fun hdot => hnone ⟨s, hs, .inl hdot⟩, fun hcomma => hnone ⟨s, hs, .inr hcomma⟩⟩

theorem Printable.render {p : Path} (hp : p.Printable) :
    p.render = .ok (String.ofList ((p.selections.map (·.text)).flatMap ('.' :: ·))) := by
  have hsteps : p.steps.mapM (fun s => s.render) = .ok (p.steps.map (·.text)) :=
    mapM_eq_ok fun s hs => (hp s.toSelection (List.mem_map_of_mem hs)).render
  rw [Path.render, hsteps, selections, List.map_map]
  rfl

/-- A printed path is read back step by step with its arguments if no string holds a dot or a comma,
and otherwise it is refused. So what is read is never another path. -/
theorem printed_is_reread_or_refused (p : Path) (hp : p.Printable) :
    ∃ text, p.render = .ok text ∧
      ((∃ chain, Traversal.parseDescent text = .ok chain ∧
        chain.map (fun s => (s.name, s.arguments)) =
          p.selections.map fun s => (s.name, s.arguments)) ↔ p.Uncut) ∧
      (¬p.Uncut → ∃ e, Traversal.parseDescent text = .error e) := by
  have hrefused : ¬p.Uncut →
      ∃ e, Traversal.descent ((p.selections.map (·.text)).flatMap ('.' :: ·)) = .error e := by
    intro hcut
    refine Traversal.descent_error hp (Classical.byContradiction fun h => hcut fun s hs => ?_)
    exact ⟨fun hdot => h ⟨s, hs, .inl hdot⟩, fun hcomma => h ⟨s, hs, .inr hcomma⟩⟩
  refine ⟨_, hp.render, ⟨?_, ?_⟩, ?_⟩
  · rintro ⟨chain, hchain, -⟩
    refine Classical.byContradiction fun hcut => ?_
    obtain ⟨e, he⟩ := hrefused hcut
    rw [Traversal.parseDescent, String.toList_ofList, he] at hchain
    cases hchain
  · intro huncut
    refine ⟨_,
      by rw [Traversal.parseDescent, String.toList_ofList, Traversal.descent_texts hp huncut], ?_⟩
    rw [List.map_map]
    rfl
  · intro hcut
    rw [Traversal.parseDescent, String.toList_ofList]
    exact hrefused hcut

def marked : Dictionary Literal := Dictionary.empty.insert "id" (.string "a:(b)\"\\\n")

/-- A string may hold everything else that has a meaning in a typed text. -/
theorem reread_with_marks_in_string :
    let p := start.append [{ name := "user", arguments := marked }, { name := "posts" }]
    p.Printable ∧ p.Uncut ∧ ∃ text chain, p.render = .ok text ∧
      Traversal.parseDescent text = .ok chain ∧
      chain.map (fun s => (s.name, s.arguments)) =
        p.selections.map fun s => (s.name, s.arguments) := by
  intro p
  have hselections : p.selections =
      [{ name := "user", arguments := marked }, { name := "posts" }] := by simp [p]
  have hentries : marked.entries = [("id", .string "a:(b)\"\\\n")] := rfl
  have hprintable : p.Printable := by
    intro s hs
    rw [hselections] at hs
    simp only [List.mem_cons, List.not_mem_nil, or_false] at hs
    rcases hs with rfl | rfl
    · refine ⟨by decide, ?_, ?_⟩ <;> rw [hentries]
      · simp only [List.mem_singleton, forall_eq]
        decide
      · simp [Literal.Plain]
    · exact ⟨by decide, by simp [Dictionary.empty], by simp [Dictionary.empty]⟩
  have huncut : p.Uncut := by
    intro s hs
    rw [hselections] at hs
    simp only [List.mem_cons, List.not_mem_nil, or_false] at hs
    rcases hs with rfl | rfl
    · simp only [Selection.Holds, hentries]
      simp
    · simp [Selection.Holds, Dictionary.empty]
  obtain ⟨text, hrender, hread, -⟩ := printed_is_reread_or_refused p hprintable
  obtain ⟨chain, hchain, hsame⟩ := hread.2 huncut
  exact ⟨hprintable, huncut, text, chain, hrender, hchain, hsame⟩

end Path

end SchemaWalk
