import SchemaWalk.Proofs.Shell.Retyping

/-! # A walk typed as one line, and the same walk typed step by step -/
namespace SchemaWalk

open Text

namespace Traversal

/-- The fields with a dot before each. -/
def walkText (segments : List (List Char)) : List Char := segments.flatMap ('.' :: ·)

theorem descent_walkText {segments : List (List Char)} (h : ∀ t ∈ segments, '.' ∉ t) :
    descent (walkText segments) = segments.mapM segment := by
  rw [walkText, descent_segments, flatMap_pieces h]

theorem walkText_eq_cons {t : List Char} {step : Step} (ht : segment t = .ok step) (hdot : '.' ∉ t)
    (segments : List (List Char)) :
    ∃ c rest, walkText (t :: segments) = '.' :: c :: rest ∧ c ≠ '.' := by
  cases t with
  | nil => cases ht
  | cons c t =>
    refine ⟨c, t ++ walkText segments, rfl, ?_⟩
    rintro rfl
    exact hdot List.mem_cons_self

end Traversal

namespace Session

open Traversal

def walkLine (segments : List (List Char)) : String := String.ofList (walkText segments)

theorem withoutBreak_walkLine {segments : List (List Char)} (h : ∀ t ∈ segments, '\n' ∉ t) :
    withoutBreak (walkLine segments) = walkLine segments := by
  apply withoutBreak_of_not_mem
  simp only [walkText, List.mem_flatMap, List.mem_cons, not_exists, not_and, not_or]
  exact fun t ht => ⟨by decide, h t ht⟩

theorem find_walkLine_refused {segments : List (List Char)} (hne : segments ≠ [])
    {reason : TraversalError} (hascent : isAscent (walkLine segments) = false)
    (hdescent : descent (walkText segments) = .error reason) :
    Command.find (walkLine segments) = .error (.traversal reason) := by
  obtain ⟨t, later, rfl⟩ := List.exists_cons_of_ne_nil hne
  have hclimb : climb? (walkText (t :: later)) = none := by simpa [isAscent, walkLine] using hascent
  have htext : walkText (t :: later) = '.' :: (t ++ walkText later) := rfl
  rw [htext] at hclimb hdescent
  rw [walkLine, htext, Command.find_dot]
  simp only [hclimb, hdescent]

theorem execute_walkLine (s : Session) {t : List Char} {segments : List (List Char)}
    (hplain : ∀ u ∈ t :: segments, '.' ∉ u ∧ '\n' ∉ u) {step : Step} {steps : List Step}
    (ht : segment t = .ok step) (hsteps : segments.mapM segment = .ok steps) :
    s.execute (walkLine (t :: segments)) =
      (.silent, { s with path := s.path.append (step :: steps) }) := by
  obtain ⟨c, rest, htext, hc⟩ := walkText_eq_cons ht (hplain t List.mem_cons_self).1 segments
  have hdescent : descent (walkText (t :: segments)) = .ok (step :: steps) := by
    rw [descent_walkText fun u hu => (hplain u hu).1, List.mapM_cons, ht, hsteps]
    rfl
  have hfind := find_descent hc rest
  rw [← htext, hdescent] at hfind
  rw [execute, withoutBreak_walkLine fun u hu => (hplain u hu).2, walkLine, hfind]
  rfl

theorem after_walkLines (s : Session) {segments : List (List Char)}
    (hplain : ∀ u ∈ segments, '.' ∉ u ∧ '\n' ∉ u) {steps : List Step}
    (hsteps : segments.mapM segment = .ok steps) :
    s.after (segments.map fun t => walkLine [t]) = { s with path := s.path.append steps } := by
  induction segments generalizing s steps with
  | nil =>
    obtain rfl : [] = steps := Except.ok.inj hsteps
    rw [Path.append_nil]
    rfl
  | cons t segments ih =>
    rw [List.forall_mem_cons] at hplain
    obtain ⟨step, below, ht, hbelow, rfl⟩ := mapM_cons_eq_ok hsteps
    have hfirst : s.execute (walkLine [t]) = (.silent, { s with path := s.path.append [step] }) :=
      s.execute_walkLine (by simpa using hplain.1) ht rfl
    rw [List.map_cons, after, List.foldl_cons, hfirst, ← after, ih _ hplain.2 hbelow,
      Path.append_append]
    rfl

/-- One line for a whole walk does what the lines for its steps do together, and makes the same path
to the last link and stamp. But if a segment is refused then the line does nothing, except to report
the first such segment. -/
theorem walk_at_once_or_not_at_all (s : Session) {segments : List (List Char)} (hne : segments ≠ [])
    (hplain : ∀ t ∈ segments, '.' ∉ t ∧ '\n' ∉ t) :
    ((∀ t ∈ segments, ∃ step, segment t = .ok step) →
      s.execute (walkLine segments) = (.silent, s.after (segments.map fun t => walkLine [t]))) ∧
      ((∃ t ∈ segments, ∃ reason, segment t = .error reason) →
        isAscent (walkLine segments) = false → ∃ before t later reason,
        segments = before ++ t :: later ∧ (∀ u ∈ before, ∃ step, segment u = .ok step) ∧
          segment t = .error reason ∧
          s.execute (walkLine segments) = (.failure reason.message, s)) := by
  constructor
  · intro haccepted
    obtain ⟨steps, hsteps⟩ := exists_mapM_eq_ok haccepted
    rw [s.after_walkLines hplain hsteps]
    cases segments with
    | nil => exact absurd rfl hne
    | cons t segments =>
      obtain ⟨step, below, ht, hbelow, rfl⟩ := mapM_cons_eq_ok hsteps
      exact s.execute_walkLine hplain ht hbelow
  · intro hrefused hascent
    obtain ⟨before, t, later, reason, rfl, hbefore, ht⟩ := exists_first_error hrefused
    have hdescent : descent (walkText (before ++ t :: later)) = .error reason := by
      rw [descent_walkText fun u hu => (hplain u hu).1, mapM_eq_first_error hbefore ht]
    have hfind := find_walkLine_refused hne hascent hdescent
    refine ⟨before, t, later, reason, rfl, hbefore, ht, ?_⟩
    rw [execute, withoutBreak_walkLine fun u hu => (hplain u hu).2, hfind]
    rfl

/-- A walk with an argument is accepted. Another one, whose first field would be found, is
refused as a whole. -/
theorem walk_at_once_with_arguments :
    let segments := ["user(id: 7)".toList, "posts".toList]
    let refused := ["user".toList, "first name".toList, "(".toList]
    (segments ≠ [] ∧ ∀ t ∈ segments, '.' ∉ t ∧ '\n' ∉ t) ∧
      (refused ≠ [] ∧ ∀ t ∈ refused, '.' ∉ t ∧ '\n' ∉ t) ∧
      bare.execute (walkLine segments) =
        (.silent, bare.after (segments.map fun t => walkLine [t])) ∧
      ∃ before t later reason, refused = before ++ t :: later ∧
        (∀ u ∈ before, ∃ step, segment u = .ok step) ∧ segment t = .error reason ∧
        bare.execute (walkLine refused) = (.failure reason.message, bare) := by
  intro segments refused
  have hplain : ∀ t ∈ segments, '.' ∉ t ∧ '\n' ∉ t := by simp [segments]
  have hplain' : ∀ t ∈ refused, '.' ∉ t ∧ '\n' ∉ t := by simp [refused]
  have haccepted : ∀ t ∈ segments, ∃ step, segment t = .ok step := by
    have hall : (segments.all fun t => (segment t).toOption.isSome) = true := by decide +kernel
    intro t ht
    obtain ⟨step, hstep⟩ := Option.isSome_iff_exists.1 (List.all_eq_true.1 hall t ht)
    exact ⟨step, eq_ok_of_toOption hstep⟩
  have hrefused : ∃ t ∈ refused, ∃ reason, segment t = .error reason :=
    ⟨"(".toList, by simp [refused], .invalidSegment "(", rfl⟩
  have hwhole := (@walk_at_once_or_not_at_all bare segments (by simp [segments]) hplain).1 haccepted
  have hnothing := (@walk_at_once_or_not_at_all bare refused (by simp [refused]) hplain').2 hrefused
    (by decide +kernel)
  exact ⟨⟨by simp [segments], hplain⟩, ⟨by simp [refused], hplain'⟩, hwhole, hnothing⟩

end Session

end SchemaWalk
