import SchemaWalk.Proofs.Path.Run

/-! # What holds of the slots in every state of a run -/
namespace SchemaWalk.Arena

variable {a : Arena} {count : Nat}

theorem Linked.isAtRoot_eq (h : Linked a) : a.isAtRoot = a.isEmpty := by
  have hcur := h.current_depth
  obtain ⟨root, hr, hstamp, -⟩ := h.root
  rw [Bool.eq_iff_iff]
  simp only [isAtRoot, isEmpty, length, decide_eq_true_eq, beq_iff_eq]
  constructor
  · intro hroot
    rw [hroot] at hcur
    simp only [Path.rootHandle] at hcur
    omega
  · intro hlen
    have hc := h.current
    rw [hlen] at hc
    have : handleAt a.slots 0 = some Path.rootHandle := by
      simp [handleAt, hr, hstamp, Path.rootHandle]
    rw [this, Option.some.injEq] at hc
    exact hc.symm

theorem Linked.parent_current (h : Linked a) :
    ∃ s, a.stepAt? a.current = some s ∧ (s.parent = none ↔ a.isEmpty = true) := by
  have hcur := h.current_depth
  obtain ⟨s, hs⟩ := h.stepAt?_current
  obtain ⟨slot, hslot, rfl⟩ := Option.map_eq_some_iff.1 hs
  refine ⟨slot.step, hs, ?_⟩
  simp only [isEmpty, length, beq_iff_eq]
  cases hd : a.current.depth with
  | zero =>
    obtain ⟨root, hr, -, -, -, hparent⟩ := h.root
    rw [hd, hr, Option.some.injEq] at hslot
    exact ⟨fun _ => by omega, fun _ => hslot ▸ hparent⟩
  | succ depth =>
    rw [hd] at hslot
    rw [h.parent hslot, handleAt_eq_none_iff]
    omega

/-- Links, stamps and the current place agree with the order of the slots. So following links ends,
within as many steps as there are slots, and finds each slot. -/
structure WellFormed (count : Nat) (a : Arena) : Prop where
  linked : a.Linked
  stamped : a.Stamped count
  steps : a.steps? = some (a.slots.tail.map (·.step))
  length : a.steps?.map List.length = some a.length
  written : ∀ h, a.holds h = true →
    ∀ fragment, ∃ text, a.write? fragment a.slots.length [] h = some text
  atRoot : a.isAtRoot = a.isEmpty
  top : ∃ s, a.stepAt? a.current = some s ∧ (s.parent = none ↔ a.isEmpty = true)

theorem Linked.wellFormed (h : Linked a) (hs : a.Stamped count) : a.WellFormed count := by
  refine ⟨h, hs, h.steps?, ?_, ?_, h.isAtRoot_eq, h.parent_current⟩
  · simp [h.steps?, Arena.length]
  · intro handle hh fragment
    exact ⟨_, h.write? fragment _ (depth_lt_of_holds hh) (by omega) []⟩

/-- As long as the counter of stamps does not overflow, no move of a run misses a slot, and all
states of the run are well-formed. -/
theorem exists_wellFormed_run? (moves : List Move) (hn : Move.total moves < UInt64.size - 1) :
    ∃ a, start.run? moves = some a ∧ a.WellFormed (Move.total moves) := by
  exact ⟨_, Path.run?_eq .start moves,
    (Path.start.run moves).linked.wellFormed (Path.stamped_run_start hn)⟩

/-- The slot that the second step leaves is taken again by a copy of the first one, which
still has its links. -/
theorem exists_wellFormed_run?_reusing_slot :
    let copy : Step := { name := "a", parent := some ⟨0, 0⟩, child := some ⟨2, 2⟩ }
    let moves : List Move := [.append [{ name := "a" }, { name := "b" }], .narrow ⟨2, 2⟩ "T",
      .ascend 0, .narrow ⟨2, 2⟩ "U", .append [copy]]
    Move.total moves < UInt64.size - 1 ∧ ∃ a, start.run? moves = some a ∧ a.WellFormed 3 :=
  ⟨by decide, exists_wellFormed_run? _ (by decide)⟩

end SchemaWalk.Arena
