import SchemaWalk.Proofs.Shell.LineByLine
import SchemaWalk.Proofs.Shell.Retyping
import SchemaWalk.Proofs.Traversal.Grammar

/-! # Lines that climb: one level for each pair of dots, as far as there are levels -/
namespace SchemaWalk

namespace Traversal

/-- Two dots for one level and for each further one, with a slash between them. -/
def upward (further : Nat) : String := "/".intercalate (List.replicate (further + 1) "..")

theorem toList_upward (further : Nat) : (upward further).toList = ascentText further := by
  rw [upward, String.toList_intercalate, List.map_replicate]
  induction further with
  | zero => rfl
  | succ further ih =>
    rw [List.replicate_succ, List.replicate_succ, List.intercalate_cons_cons, ← List.replicate_succ,
      ih, ascentText_succ]
    rfl

theorem climb?_upward (further : Nat) : climb? (upward further).toList = some (further + 1) :=
  climb?_eq_some_iff.2 ⟨further, rfl, toList_upward further⟩

theorem parseAscent_upward (further : Nat) : parseAscent (upward further) = .ok further := by
  simp only [parseAscent, climb?_upward, Nat.add_sub_cancel]

theorem parseAscent_of_ne {text : String} (h : ∀ further, text ≠ upward further) :
    parseAscent text = .error (.invalidAscent text) := by
  cases hclimb : climb? text.toList with
  | none => simp only [parseAscent, hclimb]
  | some levels =>
    obtain ⟨further, -, htext⟩ := climb?_eq_some_iff.1 hclimb
    exact absurd (String.toList_inj.1 (htext.trans (toList_upward further).symm)) (h further)

theorem parseAscent_eq_iff (text : String) :
    (∀ further, parseAscent text = .ok further ↔ text = upward further) ∧
      ∀ reason, parseAscent text = .error reason ↔
        (∀ further, text ≠ upward further) ∧ reason = .invalidAscent text := by
  refine except_eq_iff ?_ ?_ ?_
  · rintro further rfl
    exact parseAscent_upward further
  · rintro reason ⟨hother, rfl⟩
    exact parseAscent_of_ne hother
  · by_cases h : ∃ further, text = upward further
    · exact .inl h
    · exact .inr ⟨_, not_exists.1 h, rfl⟩

end Traversal

namespace Arena

/-- Levels may be climbed one by one. At the root each of them is the same: none. -/
theorem climb?_succ (levels : Nat) (a : Arena) :
    climb? (levels + 1) a = (climb? 1 a).bind (climb? levels) := by
  cases hs : a.stepAt? a.current with
  | none => simp [climb?, hs]
  | some s =>
    cases hparent : s.parent with
    | none => cases levels <;> simp [climb?, hs, hparent]
    | some parent =>
      simp only [climb?, hs, hparent, Option.bind_eq_bind, Option.bind_some]
      cases a.setChild? parent none <;> rfl

end Arena

namespace Path

theorem ascend_succ (p : Path) (further : Nat) :
    p.ascend (further + 1) = (p.ascend 0).ascend further := by
  have hall := p.ascend?_eq (further + 1)
  rw [Arena.ascend?, Arena.climb?_succ, ← Arena.ascend?, p.ascend?_eq 0, Option.bind_some,
    ← Arena.ascend?, ascend?_eq, Option.some.injEq] at hall
  exact toArena_inj hall.symm

theorem entries_ascend_eq_take (p : Path) (further : Nat) :
    (p.ascend further).entries =
      p.entries.take (p.entries.length - min (further + 1) p.length) := by
  have hpos := p.linked.slots_pos
  rw [entries_ascend, Arena.length_entries, Arena.length]
  congr 1
  omega

end Path

namespace Session

open Traversal

theorem find_upward (further : Nat) : Command.find (upward further) = .ok (.ascend further) := by
  have htext : upward further =
      String.ofList ('.' :: '.' :: (List.replicate further ['/', '.', '.']).flatten) := by
    rw [← String.toList_inj, toList_upward, String.toList_ofList]
    rfl
  have hclimb := climb?_upward further
  rw [htext, String.toList_ofList] at hclimb
  rw [htext]
  simp only [Command.find_dot, hclimb, Nat.add_sub_cancel]

theorem withoutBreak_upward (further : Nat) : withoutBreak (upward further) = upward further := by
  have hbreak : '\n' ∉ (upward further).toList := by
    rw [toList_upward, ascentText]
    simp [List.mem_flatten, List.mem_replicate]
  rw [← String.ofList_toList (s := upward further)]
  exact withoutBreak_of_not_mem hbreak

theorem execute_upward (s : Session) (further : Nat) :
    s.execute (upward further) = (.silent, { s with path := s.path.ascend further }) := by
  rw [execute, withoutBreak_upward, find_upward]
  rfl

/-- As many lines of two dots, each with nothing printed. By induction on their number. -/
theorem after_replicate_dots (s : Session) (further : Nat) :
    s.after (List.replicate (further + 1) "..") = { s with path := s.path.ascend further } ∧
      s.outcomes (List.replicate (further + 1) "..") = List.replicate (further + 1) .silent := by
  have hone : ∀ s : Session, s.execute ".." = (.silent, { s with path := s.path.ascend 0 }) :=
    fun s => s.execute_upward 0
  induction further generalizing s with
  | zero => simp [after, outcomes, hone]
  | succ further ih =>
    obtain ⟨hafter, houtcomes⟩ := ih { s with path := s.path.ascend 0 }
    have hfirst : s.after (List.replicate (further + 2) "..") =
        (s.execute "..").2.after (List.replicate (further + 1) "..") := rfl
    have hfirst' : s.outcomes (List.replicate (further + 2) "..") =
        (s.execute "..").1 :: (s.execute "..").2.outcomes (List.replicate (further + 1) "..") := rfl
    rw [hfirst, hfirst', hone, hafter, houtcomes, Path.ascend_succ]
    exact ⟨rfl, rfl⟩

/-- A line climbs exactly if it is made of pairs of dots with single slashes between them, and
otherwise it is refused as such. It does what as many lines of two dots do one after the other:
without a word, it takes the last steps off the path, one for each pair and no more than there are.
All else stays as it is. -/
theorem climbs_once_for_each_pair_of_dots :
    (∀ text further, parseAscent text = .ok further ↔ text = upward further) ∧
      (∀ text reason, parseAscent text = .error reason ↔
        (∀ further, text ≠ upward further) ∧ reason = .invalidAscent text) ∧
      ∀ (s : Session) further,
        let line := upward further
        let dots := List.replicate (further + 1) ".."
        s.execute line = (.silent, s.after dots) ∧
          s.outcomes dots = List.replicate (further + 1) .silent ∧
          s.after dots = { s with path := s.path.ascend further } ∧
          (s.path.ascend further).entries =
            s.path.entries.take (s.path.entries.length - min (further + 1) s.path.length) ∧
          (s.path.ascend further).selections =
            s.path.selections.take (s.path.length - min (further + 1) s.path.length) := by
  refine ⟨fun text => (parseAscent_eq_iff text).1, fun text => (parseAscent_eq_iff text).2,
    fun s further => ?_⟩
  obtain ⟨hafter, houtcomes⟩ := s.after_replicate_dots further
  refine ⟨?_, houtcomes, hafter, s.path.entries_ascend_eq_take further, ?_⟩
  · rw [hafter]
    exact s.execute_upward further
  · rw [Path.selections_ascend, Path.length_eq]
    congr 1
    omega

example : (Session.bare.after [".a.b", upward 6, ".c"]).path.render = .ok ".c" := by decide +kernel

end Session

end SchemaWalk
