import SchemaWalk.Shell.Command

/-! # Lines that begin with a dot -/
namespace SchemaWalk

namespace Traversal

/-- The line that climbs one level and as many further ones: two dots for each, with
slashes between them. -/
def ascentText (further : Nat) : List Char :=
  ['.', '.'] ++ (List.replicate further ['/', '.', '.']).flatten

theorem ascentText_succ (further : Nat) :
    ascentText (further + 1) = '.' :: '.' :: '/' :: ascentText further := by
  simp [ascentText, List.replicate_succ]

theorem climb?_eq_some_iff {text : List Char} {levels : Nat} :
    climb? text = some levels ↔ ∃ further, levels = further + 1 ∧ text = ascentText further := by
  constructor
  · intro h
    fun_induction climb? text generalizing levels with
    | case1 => exact ⟨0, (Option.some.inj h).symm, rfl⟩
    | case2 rest ih =>
      obtain ⟨below, hbelow, rfl⟩ := Option.map_eq_some_iff.1 h
      obtain ⟨further, rfl, rfl⟩ := ih hbelow
      exact ⟨further + 1, rfl, (ascentText_succ further).symm⟩
    | case3 => cases h
  · rintro ⟨further, rfl, rfl⟩
    induction further with
    | zero => rfl
    | succ further ih => rw [ascentText_succ, climb?, ih]; rfl

theorem climb?_eq_none {c : Char} (hc : c ≠ '.') (rest : List Char) :
    climb? ('.' :: c :: rest) = none := by
  unfold climb?
  split <;> simp_all

end Traversal

namespace Command

theorem find_dot (rest : List Char) :
    find (String.ofList ('.' :: rest)) =
      match Traversal.climb? ('.' :: rest) with
      | some levels => .ok (.ascend (levels - 1))
      | none =>
        match Traversal.descent ('.' :: rest) with
        | .ok steps => .ok (.descend steps)
        | .error reason => .error (.traversal reason) := by
  have hne : ∀ word : String, word.toList.head? ≠ some '.' →
      String.ofList ('.' :: rest) ≠ word := by
    rintro _ h rfl
    exact h (by simp)
  have hhelp : help? ('.' :: rest) = none := by simp [help?, after?]
  have hnarrow : (after? "on" ('.' :: rest)).bind typeName? = none := by simp [after?]
  cases hclimb : Traversal.climb? ('.' :: rest) <;> cases hsteps : Traversal.descent ('.' :: rest)
    <;> simp only [find, if_neg (hne "exit" (by decide)), if_neg (hne "ls" (by decide)),
      if_neg (hne "pp" (by decide)), if_neg (hne "pq" (by decide)), String.toList_ofList, hhelp,
      hnarrow, hclimb, List.head?_cons, if_true, hsteps]

end Command

end SchemaWalk
