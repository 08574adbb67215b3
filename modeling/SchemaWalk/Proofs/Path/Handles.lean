import SchemaWalk.Proofs.Path.Run

/-! # A handle names one step for good, and none that takes its slot later -/
namespace SchemaWalk

namespace Arena

variable {a : Arena} {h : Handle}

theorem node?_eq_some_iff {s : Step} :
    a.node? h = some s ↔
      ∃ slot, a.slots[h.depth]? = some slot ∧ slot.stamp = h.stamp ∧ slot.step = s := by
  simp only [node?, Option.bind_eq_some_iff, place?_eq_some_iff, Option.map_eq_some_iff]
  constructor
  · rintro ⟨_, ⟨rfl, slot, hs, ht⟩, slot', hs', rfl⟩
    obtain rfl : slot = slot' := by simpa [hs] using hs'
    exact ⟨slot, hs, ht, rfl⟩
  · rintro ⟨slot, hs, ht, rfl⟩
    exact ⟨h.depth, ⟨rfl, slot, hs, ht⟩, slot, hs, rfl⟩

theorem holds_iff_node? : a.holds h = true ↔ ∃ s, a.node? h = some s := by
  simp only [holds, Option.isSome_iff_exists, place?_eq_some_iff, node?_eq_some_iff]
  constructor
  · rintro ⟨_, -, slot, hs, ht⟩
    exact ⟨slot.step, slot, hs, ht, rfl⟩
  · rintro ⟨_, slot, hs, ht, -⟩
    exact ⟨h.depth, rfl, slot, hs, ht⟩

theorem getElem?_entries_of_node? {s : Step} (hs : a.node? h = some s) :
    a.entries[h.depth]? = some (h.stamp, s.toSelection) := by
  obtain ⟨slot, hslot, ht, rfl⟩ := node?_eq_some_iff.1 hs
  simp [entries, hslot, ht]

theorem node?_of_getElem?_entries {e : UInt64 × Selection} (he : a.entries[h.depth]? = some e)
    (ht : e.1 = h.stamp) : ∃ s, a.node? h = some s ∧ s.toSelection = e.2 := by
  simp only [entries, List.getElem?_map, Option.map_eq_some_iff] at he
  obtain ⟨slot, hs, rfl⟩ := he
  exact ⟨slot.step, node?_eq_some_iff.2 ⟨slot, hs, ht, rfl⟩, rfl⟩

theorem exists_node?_of_handleAt {depth : Nat} (hh : handleAt a.slots depth = some h) :
    ∃ s, a.node? h = some s := by
  obtain ⟨rfl, slot, hs, ht⟩ := handleAt_eq_some_iff.1 hh
  exact ⟨slot.step, node?_eq_some_iff.2 ⟨slot, hs, ht, rfl⟩⟩

end Arena

namespace Path

/-- The handles that a path gives away: the current one, with which appending and ascending answer
too, that of the root, and those of the steps next to a live one. -/
inductive Gives (p : Path) : Handle → Prop
  | current : Gives p p.current
  | root : Gives p rootHandle
  | parent {h above : Handle} {s : Step} :
      p.node? h = some s → s.parent = some above → Gives p above
  | child {h below : Handle} {s : Step} : p.node? h = some s → s.child = some below → Gives p below

/-- A move detaches what stands at a depth if it is an ascent that ends above. -/
def detaches (p : Path) (depth : Nat) : Move → Prop
  | .ascend further => p.length - (further + 1) < depth
  | _ => False

/-- No move of the run detaches what stands at a depth. -/
def keeps (p : Path) (depth : Nat) : List Move → Prop
  | [] => True
  | m :: moves => ¬p.detaches depth m ∧ (p.move m).keeps depth moves

theorem run_append (p : Path) (moves later : List Move) :
    p.run (moves ++ later) = (p.run moves).run later := by
  simp [run]

theorem keeps_append {p : Path} {depth : Nat} {moves later : List Move} :
    p.keeps depth (moves ++ later) ↔ p.keeps depth moves ∧ (p.run moves).keeps depth later := by
  induction moves generalizing p with
  | nil => simp [keeps, run]
  | cons m moves ih =>
    simp only [List.cons_append, keeps, ih, and_assoc]
    rfl

theorem Gives.node? {p : Path} {h : Handle} (hg : p.Gives h) : ∃ s, p.node? h = some s := by
  cases hg with
  | current => exact Arena.exists_node?_of_handleAt p.linked.current
  | root =>
    obtain ⟨root, hr, ht, -⟩ := p.linked.root
    exact ⟨root.step, Arena.node?_eq_some_iff.2 ⟨root, hr, ht, rfl⟩⟩
  | @parent h above s hs hp =>
    obtain ⟨slot, hslot, -, rfl⟩ := Arena.node?_eq_some_iff.1 hs
    cases hd : h.depth with
    | zero =>
      obtain ⟨root, hr, -, -, -, hnone⟩ := p.linked.root
      rw [hd, hr, Option.some.injEq] at hslot
      rw [← hslot, hnone] at hp
      cases hp
    | succ depth =>
      rw [hd] at hslot
      rw [p.linked.parent hslot] at hp
      exact Arena.exists_node?_of_handleAt hp
  | child hs hc =>
    obtain ⟨slot, hslot, -, rfl⟩ := Arena.node?_eq_some_iff.1 hs
    rw [p.linked.child hslot] at hc
    exact Arena.exists_node?_of_handleAt hc

/-- The same step in two states: moves change at most its scope. -/
def SameStep (e e' : UInt64 × Selection) : Prop :=
  e'.1 = e.1 ∧ e'.2.name = e.2.name ∧ e'.2.arguments = e.2.arguments

theorem SameStep.trans {e e' e'' : UInt64 × Selection} (h : SameStep e e') (h' : SameStep e' e'') :
    SameStep e e'' :=
  ⟨h'.1.trans h.1, h'.2.1.trans h.2.1, h'.2.2.trans h.2.2⟩

theorem length_ascend_le {p : Path} {depth further : Nat}
    (hd : p.detaches depth (.ascend further)) : (p.ascend further).slots.length ≤ depth := by
  have hlen := congrArg List.length (p.entries_ascend further)
  simp only [Arena.length_entries, List.length_take] at hlen
  simp only [detaches, Arena.length] at hd
  omega

theorem lt_of_not_detaches {p : Path} {depth further : Nat}
    (hd : ¬p.detaches depth (.ascend further)) :
    depth < max 1 (p.slots.length - (further + 1)) := by
  simp only [detaches, Arena.length] at hd
  omega

theorem nextStamp_le_move {p : Path} {count : Nat} (hs : p.Stamped count) {m : Move}
    (hn : count + m.appended < UInt64.size - 1) :
    p.nextStamp.toNat ≤ (p.move m).nextStamp.toNat := by
  rw [hs.next, (stamped_move hs m hn).next]
  omega

theorem entry_after_move {p : Path} {m : Move} {depth : Nat} {e : UInt64 × Selection}
    (he : p.entries[depth]? = some e) (hd : ¬p.detaches depth m) :
    ∃ e', (p.move m).entries[depth]? = some e' ∧ SameStep e e' := by
  have hlt : depth < p.entries.length := (List.getElem?_eq_some_iff.1 he).1
  cases m with
  | append chain =>
    refine ⟨e, ?_, rfl, rfl, rfl⟩
    rw [move, entries_append, List.getElem?_append_left hlt, he]
  | ascend further =>
    refine ⟨e, ?_, rfl, rfl, rfl⟩
    rw [move, entries_ascend, List.getElem?_take_of_lt (lt_of_not_detaches hd), he]
  | narrow h typeName =>
    rw [move]
    cases hh : p.holds h with
    | false => exact ⟨e, by rw [rescope_of_not_holds hh, he], rfl, rfl, rfl⟩
    | true =>
      rw [entries_rescope hh, List.getElem?_modify, he]
      refine ⟨_, rfl, ?_⟩
      split <;> exact ⟨rfl, rfl, rfl⟩

/-- What stands at a depth after a move stood there before and was not detached, or else the move
has put it there under a new stamp. -/
theorem entry_before_move {p : Path} {count : Nat} (hs : p.Stamped count) {m : Move}
    (hn : count + m.appended < UInt64.size - 1) {depth : Nat} {e' : UInt64 × Selection}
    (he : (p.move m).entries[depth]? = some e') :
    (∃ e, p.entries[depth]? = some e ∧ ¬p.detaches depth m) ∨ p.nextStamp.toNat ≤ e'.1.toNat := by
  have hlt : depth < (p.move m).slots.length := by
    rw [← Arena.length_entries]
    exact (List.getElem?_eq_some_iff.1 he).1
  cases m with
  | append chain =>
    rw [move, entries_append] at he
    by_cases hold : depth < p.entries.length
    · exact .inl ⟨_, List.getElem?_eq_getElem hold, not_false⟩
    · rw [List.getElem?_append_right (by omega)] at he
      have hmem := List.mem_map_of_mem (f := Prod.fst) (List.mem_of_getElem? he)
      simp only [Move.appended] at hn
      exact .inr (Arena.mem_stampedFrom (by rw [hs.next]; omega) hmem).1
  | ascend further =>
    have hd : ¬p.detaches depth (.ascend further) := fun hd => by
      have := length_ascend_le hd
      simp only [move] at hlt
      omega
    rw [move, entries_ascend, List.getElem?_take] at he
    split at he
    · exact .inl ⟨e', he, hd⟩
    · cases he
  | narrow h typeName =>
    have hlen : (p.rescope h typeName).slots.length = p.entries.length := by
      have := congrArg List.length (stamps_rescope p h typeName)
      simpa [Arena.stamps, Arena.length_entries] using this
    rw [move] at hlt
    exact .inl ⟨_, List.getElem?_eq_getElem (by omega), not_false⟩

theorem entry_after_run {p : Path} {moves : List Move} {depth : Nat} {e : UInt64 × Selection}
    (he : p.entries[depth]? = some e) (hk : p.keeps depth moves) :
    ∃ e', (p.run moves).entries[depth]? = some e' ∧ SameStep e e' := by
  induction moves generalizing p e with
  | nil => exact ⟨e, he, rfl, rfl, rfl⟩
  | cons m moves ih =>
    obtain ⟨e', he', hsame⟩ := entry_after_move he hk.1
    obtain ⟨e'', he'', hsame'⟩ := ih he' hk.2
    exact ⟨e'', he'', hsame.trans hsame'⟩

theorem entry_before_run {p : Path} {count : Nat} (hs : p.Stamped count) {moves : List Move}
    (hn : count + Move.total moves < UInt64.size - 1) {depth : Nat} {e' : UInt64 × Selection}
    (he : (p.run moves).entries[depth]? = some e') :
    (∃ e, p.entries[depth]? = some e ∧ SameStep e e' ∧ p.keeps depth moves) ∨
      p.nextStamp.toNat ≤ e'.1.toNat := by
  induction moves generalizing p count with
  | nil => exact .inl ⟨e', he, ⟨rfl, rfl, rfl⟩, trivial⟩
  | cons m moves ih =>
    rw [Move.total_cons, ← Nat.add_assoc] at hn
    have hn' : count + m.appended < UInt64.size - 1 := by omega
    rcases ih (stamped_move hs m hn') hn he with ⟨e, hmid, hsame, hkeeps⟩ | hlater
    · rcases entry_before_move hs hn' hmid with ⟨e₀, hold, hd⟩ | hnew
      · obtain ⟨e₁, hmid', hsame'⟩ := entry_after_move hold hd
        obtain rfl : e₁ = e := by simpa [hmid'] using hmid
        exact .inl ⟨e₀, hold, hsame'.trans hsame, hd, hkeeps⟩
      · exact .inr (hsame.1 ▸ hnew)
    · exact .inr (Nat.le_trans (nextStamp_le_move hs hn') hlater)

theorem stamp_lt_of_node? {p : Path} {count : Nat} (hs : p.Stamped count) {h : Handle} {s : Step}
    (hh : p.node? h = some s) : h.stamp.toNat < p.nextStamp.toNat := by
  obtain ⟨slot, hslot, ht, -⟩ := Arena.node?_eq_some_iff.1 hh
  rw [← ht, ← UInt64.lt_iff_toNat_lt]
  exact hs.below _ (List.mem_map_of_mem (List.mem_of_getElem? hslot))

/-- A live handle is live after a run exactly if the run has kept its step, and
names that step then. -/
theorem node?_run {p : Path} {count : Nat} (hs : p.Stamped count) {moves : List Move}
    (hn : count + Move.total moves < UInt64.size - 1) {h : Handle} {s : Step}
    (hh : p.node? h = some s) :
    (p.keeps h.depth moves →
      ∃ s', (p.run moves).node? h = some s' ∧ s'.name = s.name ∧ s'.arguments = s.arguments) ∧
      (¬p.keeps h.depth moves → (p.run moves).node? h = none) := by
  have he := Arena.getElem?_entries_of_node? hh
  constructor
  · intro hk
    obtain ⟨e', he', ht, hname, harguments⟩ := entry_after_run he hk
    obtain ⟨s', hs', hsel⟩ := Arena.node?_of_getElem?_entries he' ht
    exact ⟨s', hs', by rw [hsel, hname], by rw [hsel, harguments]⟩
  · intro hk
    refine Option.eq_none_iff_forall_ne_some.2 fun s' hs' => ?_
    have hstamp := stamp_lt_of_node? hs hh
    rcases entry_before_run hs hn (Arena.getElem?_entries_of_node? hs')
      with ⟨_, -, -, hkeeps⟩ | hnew
    · exact hk hkeeps
    · exact absurd hnew (Nat.not_le.2 hstamp)

theorem rejected_of_node?_none {p : Path} {h : Handle} (hh : p.node? h = none) :
    (∀ typeName, p.narrow h typeName = (false, p.toArena)) ∧
      ∀ fragment, p.documentFrom h fragment = .error .detached := by
  have hdead : p.holds h = false := by
    rw [← Bool.not_eq_true, Arena.holds_iff_node?, hh]
    rintro ⟨s, hs⟩
    cases hs
  constructor
  · intro typeName
    exact Arena.narrow_of_place?_none (by simpa [Arena.holds] using hdead) typeName
  · intro fragment
    simp [documentFrom, hdead]

/-- A handle obtained at some moment of a run names its step as long as no ascent detaches that
step, and nothing ever after. -/
theorem given_handle_names_one_step {before after : List Move} {h : Handle}
    (hn : Move.total before + Move.total after < UInt64.size - 1)
    (hg : (start.run before).Gives h) :
    ∃ s, (start.run before).node? h = some s ∧
      let p := (start.run before).run after
      ((∃ s', p.node? h = some s') ↔ (start.run before).keeps h.depth after) ∧
        (∀ s', p.node? h = some s' → s'.name = s.name ∧ s'.arguments = s.arguments) ∧
        (p.node? h = none →
          (∀ later, Move.total before + Move.total after + Move.total later < UInt64.size - 1 →
            (p.run later).node? h = none) ∧
            (∀ typeName, p.narrow h typeName = (false, p.toArena)) ∧
            ∀ fragment, p.documentFrom h fragment = .error .detached) := by
  obtain ⟨s, hs⟩ := hg.node?
  have hstamped : (start.run before).Stamped (Move.total before) := stamped_run_start (by omega)
  obtain ⟨hlive, hdead⟩ := node?_run hstamped hn hs
  have hiff : (∃ s', ((start.run before).run after).node? h = some s') ↔
      (start.run before).keeps h.depth after := by
    constructor
    · rintro ⟨s', hs'⟩
      refine Classical.byContradiction fun hk => ?_
      rw [hdead hk] at hs'
      cases hs'
    · intro hk
      obtain ⟨s', hs', -⟩ := hlive hk
      exact ⟨s', hs'⟩
  refine ⟨s, hs, hiff, ?_, ?_⟩
  · intro s' hs'
    obtain ⟨s₁, hs₁, hsame⟩ := hlive (hiff.1 ⟨s', hs'⟩)
    obtain rfl : s₁ = s' := by simpa [hs₁] using hs'
    exact hsame
  · intro hnone
    refine ⟨fun later hlater => ?_, rejected_of_node?_none hnone⟩
    rw [← run_append]
    refine (node?_run hstamped (by rwa [Move.total_append, ← Nat.add_assoc]) hs).2 fun hk => ?_
    obtain ⟨s', hs'⟩ := hiff.2 (keeps_append.1 hk).1
    rw [hnone] at hs'
    cases hs'

/-- A handle to the second step is dead after an ascent, and remains so when the slot of that step
is taken again. -/
theorem handle_of_reused_slot_is_dead :
    let before : List Move := [.append [{ name := "a" }, { name := "b" }]]
    let after : List Move := [.ascend 0, .append [{ name := "c" }]]
    Move.total before + Move.total after < UInt64.size - 1 ∧ (start.run before).Gives ⟨2, 2⟩ ∧
      ((start.run before).run after).holds ⟨2, 3⟩ = true ∧
      ((start.run before).run after).node? ⟨2, 2⟩ = none := by
  intro before after
  have hn : Move.total before + Move.total after < UInt64.size - 1 := by decide
  have hg : (start.run before).Gives ⟨2, 2⟩ := .current
  have hd : (start.run before).detaches 2 (.ascend 0) := by
    change (start.run before).length - 1 < 2
    decide
  refine ⟨hn, hg, by decide, ?_⟩
  obtain ⟨s, -, hiff, -⟩ := given_handle_names_one_step hn hg
  cases hs : ((start.run before).run after).node? ⟨2, 2⟩ with
  | none => rfl
  | some s' => exact absurd hd (hiff.1 ⟨s', hs⟩).1

end Path

end SchemaWalk
