import SchemaWalk.Arena.Basic

/-! # Links between slots agree with the order of the slots, and every operation keeps them so -/
namespace SchemaWalk.Arena

variable {a b : Arena} {slots : List Slot}

/-- The handle of what stands at a depth. -/
def handleAt (slots : List Slot) (depth : Nat) : Option Handle :=
  slots[depth]?.map fun slot => ⟨depth, slot.stamp⟩

/-- What stands in the slots apart from links. Where slots are linked, their
links follow from it. -/
def entries (a : Arena) : List (UInt64 × Selection) :=
  a.slots.map fun slot => (slot.stamp, slot.step.toSelection)

/-- The lowest slot is the current one. It has no step below it, as `handleAt` names none
after the last slot. -/
structure Linked (a : Arena) : Prop where
  root : ∃ slot, a.slots[0]? = some slot ∧ slot.stamp = 0 ∧ slot.step.name = Path.rootName ∧
    slot.step.arguments = .empty ∧ slot.step.parent = none
  parent : ∀ {depth slot}, a.slots[depth + 1]? = some slot →
    slot.step.parent = handleAt a.slots depth
  child : ∀ {depth slot}, a.slots[depth]? = some slot →
    slot.step.child = handleAt a.slots (depth + 1)
  current : handleAt a.slots (a.slots.length - 1) = some a.current

theorem handleAt_eq_some_iff {depth : Nat} {h : Handle} :
    handleAt slots depth = some h ↔
      h.depth = depth ∧ ∃ slot, slots[depth]? = some slot ∧ slot.stamp = h.stamp := by
  obtain ⟨d, t⟩ := h
  simp only [handleAt, Option.map_eq_some_iff, Handle.mk.injEq]
  constructor
  · rintro ⟨slot, hs, rfl, rfl⟩
    exact ⟨rfl, slot, hs, rfl⟩
  · rintro ⟨rfl, slot, hs, rfl⟩
    exact ⟨slot, hs, rfl, rfl⟩

theorem handleAt_eq_none_iff {depth : Nat} :
    handleAt slots depth = none ↔ slots.length ≤ depth := by
  simp [handleAt]

theorem handleAt_append_of_lt {depth : Nat} (h : depth < slots.length) (more : List Slot) :
    handleAt (slots ++ more) depth = handleAt slots depth := by
  simp [handleAt, List.getElem?_append_left h]

theorem handleAt_take_of_lt {n depth : Nat} (h : depth < n) :
    handleAt (slots.take n) depth = handleAt slots depth := by
  simp [handleAt, h]

def relink (slots : List Slot) (depth : Nat) (child : Option Handle) : List Slot :=
  slots.modify depth fun slot => { slot with step := { slot.step with child } }

@[simp] theorem length_relink (slots : List Slot) (depth : Nat) (child : Option Handle) :
    (relink slots depth child).length = slots.length := by
  simp [relink]

theorem getElem?_relink_self (slots : List Slot) (depth : Nat) (child : Option Handle) :
    (relink slots depth child)[depth]? =
      slots[depth]?.map fun slot => { slot with step := { slot.step with child } } := by
  simp [relink]

theorem getElem?_relink_of_ne {depth i : Nat} (h : i ≠ depth) (child : Option Handle) :
    (relink slots depth child)[i]? = slots[i]? := by
  simp [relink, Ne.symm h]

theorem getElem?_relink_eq_some {depth i : Nat} {child : Option Handle} {slot : Slot}
    (h : (relink slots depth child)[i]? = some slot) :
    ∃ old, slots[i]? = some old ∧ slot.stamp = old.stamp ∧
      slot.step.toSelection = old.step.toSelection ∧ slot.step.parent = old.step.parent ∧
      slot.step.child = if i = depth then child else old.step.child := by
  by_cases hi : i = depth
  · subst hi
    rw [getElem?_relink_self] at h
    obtain ⟨old, ho, rfl⟩ := Option.map_eq_some_iff.1 h
    exact ⟨old, ho, rfl, rfl, rfl, by simp⟩
  · rw [getElem?_relink_of_ne hi] at h
    exact ⟨slot, h, rfl, rfl, rfl, by simp [hi]⟩

@[simp] theorem map_entry_relink (slots : List Slot) (depth : Nat) (child : Option Handle) :
    (relink slots depth child).map (fun slot => (slot.stamp, slot.step.toSelection)) =
      slots.map fun slot => (slot.stamp, slot.step.toSelection) := by
  apply List.ext_getElem?
  intro i
  by_cases hi : i = depth
  · subst hi
    simp [getElem?_relink_self, Option.map_map, Function.comp_def]
  · simp [getElem?_relink_of_ne hi]

@[simp] theorem handleAt_relink (slots : List Slot) (depth i : Nat) (child : Option Handle) :
    handleAt (relink slots depth child) i = handleAt slots i := by
  by_cases hi : i = depth
  · subst hi
    simp [handleAt, getElem?_relink_self, Option.map_map, Function.comp_def]
  · simp [handleAt, getElem?_relink_of_ne hi]

theorem setChild?_eq {h : Handle} (hd : h.depth < a.slots.length) (child : Option Handle) :
    a.setChild? h child = some { a with slots := relink a.slots h.depth child } := by
  simp [setChild?, relink, hd]

theorem linked_start : Linked start := by
  refine ⟨⟨_, rfl, rfl, rfl, rfl, rfl⟩, ?_, ?_, rfl⟩
  · intro depth slot hs
    simp [start] at hs
  · intro depth slot hs
    cases depth with
    | zero => simp [start] at hs; subst hs; rfl
    | succ depth => simp [start] at hs

namespace Linked

theorem slots_pos (h : Linked a) : 0 < a.slots.length := by
  obtain ⟨slot, hs, -⟩ := h.root
  exact (List.getElem?_eq_some_iff.1 hs).1

theorem current_depth (h : Linked a) : a.current.depth + 1 = a.slots.length := by
  have := (handleAt_eq_some_iff.1 h.current).1
  have := h.slots_pos
  omega

theorem stepAt?_current (h : Linked a) : ∃ s, a.stepAt? a.current = some s := by
  have := h.current_depth
  exact ⟨_, by rw [stepAt?, List.getElem?_eq_getElem (by omega)]; rfl⟩

theorem take_current (h : Linked a) : a.slots.take (a.current.depth + 1) = a.slots := by
  rw [h.current_depth, List.take_length]

/-- What one more step makes of the slots: the current slot is linked to the new one,
and the new one to it. -/
theorem push?_eq (h : Linked a) (s : Step) :
    a.push? s = some
      ⟨relink a.slots a.current.depth (some ⟨a.slots.length, a.nextStamp⟩) ++
        [⟨a.nextStamp, { s with parent := some a.current, child := none }⟩],
      ⟨a.slots.length, a.nextStamp⟩, a.nextStamp + 1⟩ := by
  have hd : a.current.depth < a.slots.length := by
    have := h.current_depth
    omega
  simp [Arena.push?, setChild?_eq hd]

theorem push? (h : Linked a) (s : Step) :
    ∃ b, a.push? s = some b ∧ Linked b ∧ b.entries = a.entries ++ [(a.nextStamp, s.toSelection)] ∧
      b.nextStamp = a.nextStamp + 1 := by
  refine ⟨_, h.push?_eq s, ?_, by simp [entries], rfl⟩
  have hcur := h.current_depth
  have hpos := h.slots_pos
  refine ⟨?_, ?_, ?_, ?_⟩
  · obtain ⟨slot, hs, hstamp, hname, harg, hpar⟩ := h.root
    rw [List.getElem?_append_left (by simpa using hpos)]
    by_cases hd : 0 = a.current.depth
    · exact ⟨{ slot with step := { slot.step with child := some ⟨a.slots.length, a.nextStamp⟩ } },
        by simp [← hd, getElem?_relink_self, hs], hstamp, hname, harg, hpar⟩
    · exact ⟨slot, by simp [getElem?_relink_of_ne hd, hs], hstamp, hname, harg, hpar⟩
  · intro depth slot hs
    rcases Nat.lt_trichotomy (depth + 1) a.slots.length with hlt | heq | hgt
    · rw [List.getElem?_append_left (by simpa using hlt)] at hs
      obtain ⟨old, ho, -, -, hp, -⟩ := getElem?_relink_eq_some hs
      rw [hp, h.parent ho, handleAt_append_of_lt (by simp; omega), handleAt_relink]
    · rw [List.getElem?_append_right (by simp; omega)] at hs
      simp only [length_relink, heq, Nat.sub_self, List.getElem?_cons_zero, Option.some.injEq] at hs
      subst hs
      rw [handleAt_append_of_lt (by simp; omega), handleAt_relink, ← h.current,
        show a.slots.length - 1 = depth by omega]
    · rw [List.getElem?_eq_none (by simp; omega)] at hs
      cases hs
  · intro depth slot hs
    rcases Nat.lt_trichotomy depth a.slots.length with hlt | heq | hgt
    · rw [List.getElem?_append_left (by simpa using hlt)] at hs
      obtain ⟨old, ho, -, -, -, hc⟩ := getElem?_relink_eq_some hs
      by_cases hd : depth = a.current.depth
      · have hn : depth + 1 = a.slots.length := by omega
        rw [hc, if_pos hd, hn]
        simp [handleAt]
      · rw [hc, if_neg hd, h.child ho, handleAt_append_of_lt (by simp; omega), handleAt_relink]
    · rw [heq, List.getElem?_append_right (by simp)] at hs
      simp only [length_relink, Nat.sub_self, List.getElem?_cons_zero, Option.some.injEq] at hs
      subst hs
      exact (handleAt_eq_none_iff.2 (by simp; omega)).symm
    · rw [List.getElem?_eq_none (by simp; omega)] at hs
      cases hs
  · simp [handleAt]

theorem leave (h : Linked a) {depth : Nat} (hd : a.current.depth = depth + 1) :
    ∃ s parent left, a.stepAt? a.current = some s ∧ s.parent = some parent ∧
      a.setChild? parent none = some left ∧
      Linked { left with slots := left.slots.take a.current.depth, current := parent } ∧
      left.slots.length = a.slots.length ∧ left.entries = a.entries ∧
      left.nextStamp = a.nextStamp := by
  have hcur := h.current_depth
  obtain ⟨slot, hs⟩ : ∃ slot, a.slots[depth + 1]? = some slot :=
    ⟨_, List.getElem?_eq_getElem (by omega)⟩
  obtain ⟨above, ha⟩ : ∃ above, a.slots[depth]? = some above :=
    ⟨_, List.getElem?_eq_getElem (by omega)⟩
  have hparent : slot.step.parent = some ⟨depth, above.stamp⟩ := by
    rw [h.parent hs]; simp [handleAt, ha]
  refine ⟨slot.step, _, _, by simp [stepAt?, hd, hs], hparent, setChild?_eq (by simp; omega) none,
    ?_, by simp, by simp [entries], rfl⟩
  simp only [hd]
  refine ⟨?_, ?_, ?_, ?_⟩
  · obtain ⟨root, hr, hstamp, hname, harg, hpar⟩ := h.root
    rw [List.getElem?_take_of_lt (by omega)]
    by_cases h0 : 0 = depth
    · exact ⟨{ root with step := { root.step with child := none } },
        by simp [← h0, getElem?_relink_self, hr], hstamp, hname, harg, hpar⟩
    · exact ⟨root, by simp [getElem?_relink_of_ne h0, hr], hstamp, hname, harg, hpar⟩
  · intro i slot hs
    rw [List.getElem?_take] at hs
    split at hs
    · next hi =>
      obtain ⟨old, ho, -, -, hp, -⟩ := getElem?_relink_eq_some hs
      rw [hp, h.parent ho, handleAt_take_of_lt (by omega), handleAt_relink]
    · cases hs
  · intro i slot hs
    rw [List.getElem?_take] at hs
    split at hs
    · next hi =>
      obtain ⟨old, ho, -, -, -, hc⟩ := getElem?_relink_eq_some hs
      by_cases hi' : i = depth
      · rw [hc, if_pos hi']
        exact (handleAt_eq_none_iff.2 (by simp; omega)).symm
      · rw [hc, if_neg hi', h.child ho, handleAt_take_of_lt (by omega), handleAt_relink]
    · cases hs
  · have hlast : ((relink a.slots depth none).take (depth + 1)).length - 1 = depth := by
      rw [List.length_take, length_relink]
      omega
    rw [hlast, handleAt_take_of_lt (Nat.lt_succ_self depth), handleAt_relink]
    simp [handleAt, ha]

end Linked

def stampedFrom (stamp : UInt64) : List Step → List (UInt64 × Selection)
  | [] => []
  | s :: rest => (stamp, s.toSelection) :: stampedFrom (stamp + 1) rest

@[simp] theorem map_stampedFrom (stamp : UInt64) (chain : List Step) :
    (stampedFrom stamp chain).map (·.2) = chain.map (·.toSelection) := by
  induction chain generalizing stamp with
  | nil => rfl
  | cons s rest ih => simp [stampedFrom, ih]

theorem length_entries (a : Arena) : a.entries.length = a.slots.length := by simp [entries]

namespace Linked

theorem entries_ne_nil (h : Linked a) : a.entries ≠ [] := by
  rw [← List.length_pos_iff, length_entries]
  exact h.slots_pos

theorem pushAll? (h : Linked a) (chain : List Step) :
    ∃ b, chain.foldlM Arena.push? a = some b ∧ Linked b ∧
      b.entries = a.entries ++ stampedFrom a.nextStamp chain ∧
      b.nextStamp = a.nextStamp + UInt64.ofNat chain.length := by
  induction chain generalizing a with
  | nil => exact ⟨a, rfl, h, by simp [stampedFrom], by simp⟩
  | cons s rest ih =>
    obtain ⟨b, hb, hlinked, hentries, hnext⟩ := h.push? s
    obtain ⟨c, hc, hlinked', hentries', hnext'⟩ := ih hlinked
    refine ⟨c, by simp [hb, hc], hlinked', ?_, ?_⟩
    · rw [hentries', hentries, hnext, stampedFrom, List.append_assoc, List.singleton_append]
    · rw [hnext', hnext, List.length_cons, UInt64.ofNat_add, UInt64.add_assoc, UInt64.add_comm 1]
      rfl

theorem append?_eq (h : Linked a) (chain : List Step) :
    a.append? chain = chain.foldlM Arena.push? a := by
  have hall : { a with slots := a.slots.take (a.current.depth + 1) } = a := by rw [h.take_current]
  rw [Arena.append?, hall]

theorem append? (h : Linked a) (chain : List Step) :
    ∃ b, a.append? chain = some b ∧ Linked b ∧
      b.entries = a.entries ++ stampedFrom a.nextStamp chain ∧
      b.nextStamp = a.nextStamp + UInt64.ofNat chain.length := by
  rw [h.append?_eq]
  exact h.pushAll? chain

theorem climb? (h : Linked a) (levels : Nat) :
    ∃ b, Arena.climb? levels a = some b ∧ Linked b ∧
      b.entries = a.entries.take (max 1 (a.slots.length - levels)) ∧ b.nextStamp = a.nextStamp := by
  induction levels generalizing a with
  | zero =>
    have := h.slots_pos
    exact ⟨a, rfl, h, by rw [List.take_of_length_le]; rw [length_entries]; omega, rfl⟩
  | succ levels ih =>
    have hcur := h.current_depth
    cases hd : a.current.depth with
    | zero =>
      obtain ⟨root, hr, -, -, -, hpar⟩ := h.root
      refine ⟨a, by simp [Arena.climb?, stepAt?, hd, hr, hpar], h, ?_, rfl⟩
      rw [List.take_of_length_le]
      rw [length_entries]; omega
    | succ depth =>
      obtain ⟨s, parent, left, hs, hp, hleft, hlinked, hlen, hentries, hnext⟩ := h.leave hd
      obtain ⟨b, hb, hlinked', hentries', hnext'⟩ := ih hlinked
      refine ⟨b, ?_, hlinked', ?_, hnext'.trans hnext⟩
      · simpa [Arena.climb?, hs, hp, hleft] using hb
      · rw [hentries',
          show Arena.entries
            { left with slots := left.slots.take a.current.depth, current := parent } =
            left.entries.take a.current.depth by simp [entries, List.map_take], hentries,
          List.take_take]
        congr 1
        simp only [List.length_take]
        omega

end Linked

theorem place?_eq_some_iff {h : Handle} {place : Nat} :
    a.place? h = some place ↔
      place = h.depth ∧ ∃ slot, a.slots[h.depth]? = some slot ∧ slot.stamp = h.stamp := by
  unfold place?
  cases hs : a.slots[h.depth]? with
  | none => simp
  | some slot =>
    by_cases ht : slot.stamp = h.stamp
    · simp [ht, eq_comm]
    · simp [ht]

theorem depth_lt_of_holds {h : Handle} (hh : a.holds h = true) : h.depth < a.slots.length := by
  obtain ⟨place, hp⟩ := Option.isSome_iff_exists.1 hh
  obtain ⟨-, slot, hs, -⟩ := place?_eq_some_iff.1 hp
  exact (List.getElem?_eq_some_iff.1 hs).1

def rescope (slots : List Slot) (place : Nat) (typeName : String) : List Slot :=
  slots.modify place fun slot => { slot with step := slot.step.withScope typeName }

@[simp] theorem length_rescope (slots : List Slot) (place : Nat) (typeName : String) :
    (rescope slots place typeName).length = slots.length := by
  simp [rescope]

theorem getElem?_rescope_eq_some {place i : Nat} {typeName : String} {slot : Slot}
    (h : (rescope slots place typeName)[i]? = some slot) :
    ∃ old, slots[i]? = some old ∧ slot.stamp = old.stamp ∧ slot.step.name = old.step.name ∧
      slot.step.arguments = old.step.arguments ∧ slot.step.parent = old.step.parent ∧
      slot.step.child = old.step.child := by
  simp only [rescope, List.getElem?_modify, Option.map_eq_map, Option.map_eq_some_iff] at h
  obtain ⟨old, ho, rfl⟩ := h
  refine ⟨old, ho, ?_⟩
  split <;> exact ⟨rfl, rfl, rfl, rfl, rfl⟩

@[simp] theorem handleAt_rescope (slots : List Slot) (place i : Nat) (typeName : String) :
    handleAt (rescope slots place typeName) i = handleAt slots i := by
  simp only [handleAt, rescope, List.getElem?_modify, Option.map_eq_map, Option.map_map]
  congr 1
  funext slot
  simp only [Function.comp_apply]
  split <;> rfl

theorem narrow_of_place? {h : Handle} {place : Nat} (hp : a.place? h = some place)
    (typeName : String) :
    a.narrow h typeName = (true, { a with slots := rescope a.slots place typeName }) := by
  simp [narrow, hp, rescope]

theorem narrow_of_place?_none {h : Handle} (hp : a.place? h = none) (typeName : String) :
    a.narrow h typeName = (false, a) := by
  simp [narrow, hp]

theorem entries_narrow {h : Handle} {place : Nat} (hp : a.place? h = some place)
    (typeName : String) :
    (a.narrow h typeName).2.entries =
      a.entries.modify place fun e => (e.1, e.2.withScope typeName) := by
  rw [narrow_of_place? hp]
  apply List.ext_getElem?
  intro i
  simp only [entries, rescope, List.getElem?_map, List.getElem?_modify, Option.map_eq_map,
    Option.map_map]
  congr 1
  funext slot
  simp only [Function.comp_apply]
  split <;> rfl

namespace Linked

theorem narrow (h : Linked a) (handle : Handle) (typeName : String) :
    Linked (a.narrow handle typeName).2 := by
  cases hp : a.place? handle with
  | none => rwa [narrow_of_place?_none hp]
  | some place =>
    rw [narrow_of_place? hp]
    refine ⟨?_, ?_, ?_, ?_⟩
    · obtain ⟨root, hr, hstamp, hname, harg, hpar⟩ := h.root
      obtain ⟨slot, hs⟩ : ∃ slot, (rescope a.slots place typeName)[0]? = some slot :=
        ⟨_, List.getElem?_eq_getElem (by simpa using h.slots_pos)⟩
      obtain ⟨old, ho, h₁, h₂, h₃, h₄, -⟩ := getElem?_rescope_eq_some hs
      obtain rfl : root = old := by simpa [hr] using ho
      exact ⟨slot, hs, h₁.trans hstamp, h₂.trans hname, h₃.trans harg, h₄.trans hpar⟩
    · intro depth slot hs
      obtain ⟨old, ho, -, -, -, hp, -⟩ := getElem?_rescope_eq_some hs
      rw [hp, h.parent ho, handleAt_rescope]
    · intro depth slot hs
      obtain ⟨old, ho, -, -, -, -, hc⟩ := getElem?_rescope_eq_some hs
      rw [hc, h.child ho, handleAt_rescope]
    · simpa using h.current

theorem follow? (h : Linked a) (bound depth : Nat) (hb : a.slots.length ≤ depth + bound) :
    a.follow? bound (handleAt a.slots depth) = some ((a.slots.drop depth).map (·.step)) := by
  induction bound generalizing depth with
  | zero => rw [handleAt_eq_none_iff.2 (by omega), List.drop_eq_nil_of_le (by omega)]; rfl
  | succ bound ih =>
    by_cases hd : depth < a.slots.length
    · have hs : a.slots[depth]? = some a.slots[depth] := List.getElem?_eq_getElem hd
      rw [List.drop_eq_getElem_cons hd, List.map_cons]
      have hrest := ih (depth + 1) (by omega)
      rw [← h.child hs] at hrest
      simp [handleAt, hs, Arena.follow?, stepAt?, hrest]
    · rw [handleAt_eq_none_iff.2 (by omega), List.drop_eq_nil_of_le (by omega)]
      simp [Arena.follow?]

theorem steps? (h : Linked a) : a.steps? = some (a.slots.tail.map (·.step)) := by
  obtain ⟨root, hr, -⟩ := h.root
  have hf := h.follow? a.slots.length 1 (by omega)
  rw [← h.child hr] at hf
  simpa [Arena.steps?, stepAt?, hr, Path.rootHandle] using hf

end Linked

end SchemaWalk.Arena
