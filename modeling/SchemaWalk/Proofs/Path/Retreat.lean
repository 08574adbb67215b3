import SchemaWalk.Proofs.Path.Handles

/-! # Going up after going down: what is taken back, to the last link and stamp -/
namespace SchemaWalk

theorem Slot.eq_of_parts {s t : Slot} (hstamp : s.stamp = t.stamp)
    (hselection : s.step.toSelection = t.step.toSelection) (hparent : s.step.parent = t.step.parent)
    (hchild : s.step.child = t.step.child) : s = t := by
  obtain ⟨_, _, _, _⟩ := s
  obtain ⟨_, _, _, _⟩ := t
  simp_all

namespace Arena

variable {a b : Arena}

theorem handleAt_eq_map (a : Arena) (depth : Nat) :
    handleAt a.slots depth = a.entries[depth]?.map fun e => ⟨depth, e.1⟩ := by
  rw [handleAt, entries, List.getElem?_map, Option.map_map]
  rfl

@[simp] theorem length_stampedFrom (stamp : UInt64) (chain : List Step) :
    (stampedFrom stamp chain).length = chain.length := by
  have hlength := congrArg List.length (map_stampedFrom stamp chain)
  rwa [List.length_map, List.length_map] at hlength

theorem take_stampedFrom (stamp : UInt64) (chain : List Step) (n : Nat) :
    (stampedFrom stamp chain).take n = stampedFrom stamp (chain.take n) := by
  induction chain generalizing stamp n with
  | nil => simp [stampedFrom]
  | cons s rest ih =>
    cases n with
    | zero => rfl
    | succ n => rw [stampedFrom, List.take_succ_cons, List.take_succ_cons, stampedFrom, ih]

namespace Linked

theorem parent_root (h : Linked a) {slot : Slot} (hs : a.slots[0]? = some slot) :
    slot.step.parent = none := by
  obtain ⟨root, hr, -, -, -, hparent⟩ := h.root
  rw [hr, Option.some.injEq] at hs
  rw [← hs, hparent]

/-- A step is the same in two arenas if the entries agree down to it. Its link to the step below is
the same if the entries agree there too. -/
theorem slot_eq (ha : Linked a) (hb : Linked b) {depth : Nat} {s t : Slot}
    (hs : a.slots[depth]? = some s) (ht : b.slots[depth]? = some t)
    (habove : ∀ i ≤ depth, a.entries[i]? = b.entries[i]?) :
    s.stamp = t.stamp ∧ s.step.toSelection = t.step.toSelection ∧ s.step.parent = t.step.parent ∧
      (a.entries[depth + 1]? = b.entries[depth + 1]? → s.step.child = t.step.child) := by
  have hentry := habove depth (Nat.le_refl depth)
  simp only [entries, List.getElem?_map, hs, ht, Option.map_some, Option.some.injEq, Prod.mk.injEq]
    at hentry
  refine ⟨hentry.1, hentry.2, ?_, fun hbelow => ?_⟩
  · cases depth with
    | zero => rw [ha.parent_root hs, hb.parent_root ht]
    | succ depth =>
      rw [ha.parent hs, hb.parent ht, handleAt_eq_map, handleAt_eq_map,
        habove depth (Nat.le_succ depth)]
  · rw [ha.child hs, hb.child ht, handleAt_eq_map, handleAt_eq_map, hbelow]

/-- Linked slots hold nothing but their entries. -/
theorem slots_eq (ha : Linked a) (hb : Linked b) (h : a.entries = b.entries) :
    a.slots = b.slots := by
  have hlength : a.slots.length = b.slots.length := by rw [← length_entries, h, length_entries]
  apply List.ext_getElem hlength
  intro depth hd hd'
  obtain ⟨hstamp, hselection, hparent, hchild⟩ :=
    ha.slot_eq hb (List.getElem?_eq_getElem hd) (List.getElem?_eq_getElem hd') fun i _ => by rw [h]
  exact Slot.eq_of_parts hstamp hselection hparent (hchild (by rw [h]))

end Linked

end Arena

namespace Path

/-- Equal slots with all their links and stamps, and the same place in them. The stamps
to come may differ. -/
structure Same (p q : Path) : Prop where
  slots : p.slots = q.slots
  current : p.current = q.current

theorem same_of_entries_eq {p q : Path} (h : p.entries = q.entries) : p.Same q := by
  have hslots := p.linked.slots_eq q.linked h
  refine ⟨hslots, Option.some.inj ?_⟩
  rw [← p.linked.current, ← q.linked.current, hslots]

theorem Same.node?_eq {p q : Path} (h : p.Same q) (handle : Handle) :
    p.node? handle = q.node? handle := by
  simp only [Arena.node?, Arena.place?, h.slots]

theorem length_slots_append (p : Path) (chain : List Step) :
    (p.append chain).slots.length = p.slots.length + chain.length := by
  rw [← Arena.length_entries, entries_append, List.length_append, Arena.length_stampedFrom,
    Arena.length_entries]

/-- An ascent that ends among the appended steps leaves the first ones of them, as if the others had
never been there. -/
theorem ascend_append_of_le (p : Path) {chain : List Step} {further : Nat}
    (h : further + 1 ≤ chain.length) :
    ((p.append chain).ascend further).Same
      (p.append (chain.take (chain.length - (further + 1)))) := by
  have hpos := p.linked.slots_pos
  have hkept : max 1 ((p.append chain).slots.length - (further + 1)) =
      p.entries.length + (chain.length - (further + 1)) := by
    rw [length_slots_append, Arena.length_entries]
    omega
  apply same_of_entries_eq
  rw [entries_ascend, hkept, entries_append, List.take_length_add_append, Arena.take_stampedFrom,
    entries_append]

/-- One that ends above them goes up the remaining levels from where the path stood before. -/
theorem ascend_append_of_lt (p : Path) {chain : List Step} {further : Nat}
    (h : chain.length < further + 1) :
    ((p.append chain).ascend further).Same (p.ascend (further - chain.length)) := by
  have hpos := p.linked.slots_pos
  have hkept : max 1 ((p.append chain).slots.length - (further + 1)) =
      max 1 (p.slots.length - (further - chain.length + 1)) := by
    rw [length_slots_append]
    omega
  have hle : max 1 (p.slots.length - (further - chain.length + 1)) ≤ p.entries.length := by
    rw [Arena.length_entries]
    omega
  apply same_of_entries_eq
  rw [entries_ascend, hkept, entries_append, List.take_append_of_le_length hle, entries_ascend]

/-- A live handle names the same step after an append. Only the current step can have
a new one below it. -/
theorem node?_append {p : Path} {h : Handle} {s : Step} (hs : p.node? h = some s)
    (chain : List Step) :
    ∃ s', (p.append chain).node? h = some s' ∧ s'.toSelection = s.toSelection ∧
      s'.parent = s.parent ∧ (h ≠ p.current → s'.child = s.child) := by
  obtain ⟨slot, hslot, hstamp, rfl⟩ := Arena.node?_eq_some_iff.1 hs
  have hd : h.depth < p.slots.length := (List.getElem?_eq_some_iff.1 hslot).1
  obtain ⟨slot', hslot'⟩ : ∃ slot', (p.append chain).slots[h.depth]? = some slot' :=
    ⟨_, List.getElem?_eq_getElem (by rw [length_slots_append]; omega)⟩
  have hkept : ∀ i < p.slots.length, (p.append chain).entries[i]? = p.entries[i]? := by
    intro i hi
    rw [entries_append, List.getElem?_append_left (by rwa [Arena.length_entries])]
  obtain ⟨hstamp', hselection, hparent, hchild⟩ :=
    (p.append chain).linked.slot_eq p.linked hslot' hslot fun i hi => hkept i (by omega)
  refine ⟨slot'.step, Arena.node?_eq_some_iff.2 ⟨slot', hslot', hstamp'.trans hstamp, rfl⟩,
    hselection, hparent, ?_⟩
  intro hother
  refine hchild (hkept _ (Nat.lt_of_le_of_ne hd fun hlast => hother ?_))
  have hhandle : Arena.handleAt p.slots h.depth = some h :=
    Arena.handleAt_eq_some_iff.2 ⟨rfl, slot, hslot, hstamp⟩
  have hcurrent := p.linked.current
  rw [← hlast, Nat.add_sub_cancel, hhandle] at hcurrent
  exact Option.some.inj hcurrent

/-- An ascent takes back the steps appended last, and no trace of them is left but the stamps
that are used up. If it takes back all of them then the path is the one from before, and a longer
ascent goes up from there. As long as it does not, every handle from before the append is live
and names its step. -/
theorem ascend_takes_back (p : Path) (chain : List Step) (further : Nat) :
    let q := (p.append chain).ascend further
    (further + 1 ≤ chain.length →
      q.Same (p.append (chain.take (chain.length - (further + 1)))) ∧
        ∀ h s, p.node? h = some s → ∃ s', q.node? h = some s' ∧ s'.toSelection = s.toSelection ∧
          s'.parent = s.parent ∧ (h ≠ p.current → s'.child = s.child)) ∧
      (further + 1 = chain.length → q.Same p) ∧
      (chain.length < further + 1 → q.Same (p.ascend (further - chain.length))) ∧
      q.nextStamp = p.nextStamp + UInt64.ofNat chain.length := by
  intro q
  refine ⟨fun hle => ?_, fun heq => ?_, p.ascend_append_of_lt,
    by rw [nextStamp_ascend, nextStamp_append]⟩
  · have hsame := p.ascend_append_of_le hle
    refine ⟨hsame, fun h s hs => ?_⟩
    rw [hsame.node?_eq]
    exact node?_append hs _
  · have hsame := p.ascend_append_of_le (Nat.le_of_eq heq)
    rwa [heq, Nat.sub_self, List.take_zero, append_nil] at hsame

/-- Two steps, the first with links of another path, go where another step has been before. One
level up, two levels and three end among them, where the path stood before, and above. -/
theorem ascend_takes_back_from_reused_slots :
    let p := (start.append [{ name := "user" }, { name := "posts" }]).ascend 0
    let chain : List Step :=
      [{ name := "friends", parent := some ⟨7, 7⟩, child := some ⟨2, 2⟩ }, { name := "login" }]
    (0 + 1 ≤ chain.length ∧ p.node? p.current = some p.currentStep) ∧ 1 + 1 = chain.length ∧
      chain.length < 2 + 1 ∧ ((p.append chain).ascend 0).Same (p.append (chain.take 1)) ∧
      (∃ s, ((p.append chain).ascend 0).node? p.current = some s ∧ s.name = "user") ∧
      ((p.append chain).ascend 1).Same p ∧ ((p.append chain).ascend 2).Same (p.ascend 0) := by
  intro p chain
  have hcurrent : p.node? p.current = some p.currentStep := rfl
  have hle : 0 + 1 ≤ chain.length := by decide
  have heq : 1 + 1 = chain.length := rfl
  have hlt : chain.length < 2 + 1 := by decide
  obtain ⟨hamong, hlive⟩ := (ascend_takes_back p chain 0).1 hle
  obtain ⟨s, hs, hselection, -⟩ := hlive _ _ hcurrent
  have hname : s.name = "user" := by rw [hselection]; rfl
  exact ⟨⟨hle, hcurrent⟩, heq, hlt, hamong, ⟨s, hs, hname⟩, (ascend_takes_back p chain 1).2.1 heq,
    (ascend_takes_back p chain 2).2.2.1 hlt⟩

end Path

end SchemaWalk
