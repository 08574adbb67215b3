import SchemaWalk.Document

/-! # Runs: moves on one path, one after the other -/
namespace SchemaWalk

/-- What can be done to a path. The handles in a run may be live or not. -/
inductive Move where
  | append (chain : List Step)
  | ascend (further : Nat)
  | narrow (h : Handle) (typeName : String)

namespace Move

def appended : Move → Nat
  | .append chain => chain.length
  | _ => 0

/-- How many steps a run appends, also if they are left behind later. -/
def total : List Move → Nat
  | [] => 0
  | m :: moves => m.appended + total moves

theorem total_cons (m : Move) (moves : List Move) : total (m :: moves) = m.appended + total moves :=
  rfl

theorem total_append (moves later : List Move) :
    total (moves ++ later) = total moves + total later := by
  induction moves with
  | nil => simp [total]
  | cons m moves ih => rw [List.cons_append, total_cons, total_cons, ih, Nat.add_assoc]

end Move

namespace Arena

def move? (a : Arena) : Move → Option Arena
  | .append chain => a.append? chain
  | .ascend further => a.ascend? further
  | .narrow h typeName => some (a.narrow h typeName).2

def run? (a : Arena) (moves : List Move) : Option Arena := moves.foldlM move? a

def stamps (a : Arena) : List UInt64 := a.slots.map (·.stamp)

theorem stamps_eq (a : Arena) : a.stamps = a.entries.map (·.1) := by
  simp [stamps, entries, Function.comp_def]

/-- Stamps grow from the root down, and the one to come is greater than all of them; it counts the
steps appended so far. -/
structure Stamped (count : Nat) (a : Arena) : Prop where
  ascending : a.stamps.Pairwise (· < ·)
  below : ∀ t ∈ a.stamps, t < a.nextStamp
  next : a.nextStamp.toNat = count + 1

theorem stamped_start : Stamped 0 start := by
  refine ⟨?_, ?_, rfl⟩
  · simp [stamps, start]
  · simp [stamps, start]

theorem toNat_add_one {t : UInt64} (h : t.toNat + 1 < UInt64.size) :
    (t + 1).toNat = t.toNat + 1 := by
  rw [UInt64.toNat_add]
  exact Nat.mod_eq_of_lt h

theorem mem_stampedFrom {chain : List Step} {stamp t : UInt64}
    (hn : stamp.toNat + chain.length < UInt64.size) (ht : t ∈ (stampedFrom stamp chain).map (·.1)) :
    stamp.toNat ≤ t.toNat ∧ t.toNat < stamp.toNat + chain.length := by
  induction chain generalizing stamp with
  | nil => simp [stampedFrom] at ht
  | cons s rest ih =>
    rw [List.length_cons] at hn ⊢
    rw [stampedFrom, List.map_cons, List.mem_cons] at ht
    rcases ht with rfl | ht
    · exact ⟨Nat.le_refl _, by omega⟩
    · have hnext := toNat_add_one (t := stamp) (by omega)
      obtain ⟨h₁, h₂⟩ := ih (by omega) ht
      omega

theorem pairwise_stampedFrom {chain : List Step} {stamp : UInt64}
    (hn : stamp.toNat + chain.length < UInt64.size) :
    ((stampedFrom stamp chain).map (·.1)).Pairwise (· < ·) := by
  induction chain generalizing stamp with
  | nil => exact .nil
  | cons s rest ih =>
    rw [List.length_cons] at hn
    cases hrest : rest.length with
    | zero =>
      rw [List.length_eq_zero_iff.1 hrest]
      exact List.pairwise_singleton _ _
    | succ n =>
      have hnext := toNat_add_one (t := stamp) (by omega)
      refine List.pairwise_cons.2 ⟨fun t ht => ?_, ih (by omega)⟩
      have := (mem_stampedFrom (by omega) ht).1
      rw [UInt64.lt_iff_toNat_lt]
      simp only
      omega

end Arena

namespace Path

def move (p : Path) : Move → Path
  | .append chain => p.append chain
  | .ascend further => p.ascend further
  | .narrow h typeName => p.rescope h typeName

def run (p : Path) (moves : List Move) : Path := moves.foldl move p

theorem move?_eq (p : Path) (m : Move) : p.move? m = some (p.move m).toArena := by
  cases m with
  | append chain => exact p.append?_eq chain
  | ascend further => exact p.ascend?_eq further
  | narrow h typeName => rfl

theorem run?_eq (p : Path) (moves : List Move) : p.run? moves = some (p.run moves).toArena := by
  induction moves generalizing p with
  | nil => rfl
  | cons m moves ih =>
    have h := ih (p.move m)
    simp only [Arena.run?] at h ⊢
    simp [move?_eq, h, run]

theorem stamps_rescope (p : Path) (h : Handle) (typeName : String) :
    (p.rescope h typeName).stamps = p.stamps := by
  cases hh : p.holds h with
  | false => rw [rescope_of_not_holds hh]
  | true =>
    rw [Arena.stamps_eq, Arena.stamps_eq, entries_rescope hh]
    apply List.ext_getElem?
    intro i
    simp only [List.getElem?_map, List.getElem?_modify, Option.map_eq_map, Option.map_map]
    congr 1
    funext e
    simp only [Function.comp_apply]
    split <;> rfl

theorem stamped_move {p : Path} {count : Nat} (h : p.Stamped count) (m : Move)
    (hn : count + m.appended < UInt64.size - 1) : (p.move m).Stamped (count + m.appended) := by
  cases m with
  | append chain =>
    simp only [Move.appended] at hn ⊢
    have hroom : p.nextStamp.toNat + chain.length < UInt64.size := by rw [h.next]; omega
    have hnext : (p.append chain).nextStamp.toNat = p.nextStamp.toNat + chain.length := by
      rw [nextStamp_append, UInt64.toNat_add, UInt64.toNat_ofNat',
        Nat.mod_eq_of_lt (by omega : chain.length < UInt64.size)]
      exact Nat.mod_eq_of_lt hroom
    have hstamps : (p.append chain).stamps =
        p.stamps ++ (Arena.stampedFrom p.nextStamp chain).map (·.1) := by
      rw [Arena.stamps_eq, Arena.stamps_eq, entries_append, List.map_append]
    refine ⟨?_, ?_, ?_⟩
    · rw [move, hstamps, List.pairwise_append]
      refine ⟨h.ascending, Arena.pairwise_stampedFrom hroom, fun t ht u hu => ?_⟩
      have := UInt64.lt_iff_toNat_lt.1 (h.below t ht)
      have := (Arena.mem_stampedFrom hroom hu).1
      rw [UInt64.lt_iff_toNat_lt]
      omega
    · intro t ht
      rw [move, hstamps, List.mem_append] at ht
      rw [move, UInt64.lt_iff_toNat_lt, hnext]
      rcases ht with ht | ht
      · have := UInt64.lt_iff_toNat_lt.1 (h.below t ht)
        omega
      · exact (Arena.mem_stampedFrom hroom ht).2
    · rw [move, hnext, h.next]
      omega
  | ascend further =>
    have hstamps : (p.ascend further).stamps =
        p.stamps.take (max 1 (p.slots.length - (further + 1))) := by
      rw [Arena.stamps_eq, Arena.stamps_eq, entries_ascend, List.map_take]
    refine ⟨?_, ?_, ?_⟩
    · rw [move, hstamps]
      exact h.ascending.sublist (List.take_sublist _ _)
    · intro t ht
      rw [move, hstamps] at ht
      rw [move, nextStamp_ascend]
      exact h.below t (List.mem_of_mem_take ht)
    · rw [move, nextStamp_ascend]
      exact h.next
  | narrow handle typeName =>
    refine ⟨?_, ?_, ?_⟩
    · rw [move, stamps_rescope]
      exact h.ascending
    · rw [move, stamps_rescope, nextStamp_rescope]
      exact h.below
    · rw [move, nextStamp_rescope]
      exact h.next

theorem stamped_run {p : Path} {count : Nat} (h : p.Stamped count) (moves : List Move)
    (hn : count + Move.total moves < UInt64.size - 1) :
    (p.run moves).Stamped (count + Move.total moves) := by
  induction moves generalizing p count with
  | nil => exact h
  | cons m moves ih =>
    rw [Move.total_cons, ← Nat.add_assoc] at hn ⊢
    exact ih (stamped_move h m (by omega)) hn

theorem stamped_run_start {moves : List Move} (hn : Move.total moves < UInt64.size - 1) :
    (start.run moves).Stamped (Move.total moves) := by
  simpa using stamped_run (p := .start) Arena.stamped_start moves (by simpa using hn)

end Path

end SchemaWalk
