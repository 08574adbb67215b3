import SchemaWalk.Proofs.Traversal.Spelling
import SchemaWalk.Shell.Session

/-! # Sessions as typed lines leave them -/
namespace SchemaWalk

namespace Command

/-- What a command does to a path whose current step has the given handle: one move or none. -/
def moves (current : Handle) : Command → List Move
  | .narrow typeName => [.narrow current (typeName.getD "")]
  | .ascend further => [.ascend further]
  | .descend steps => [.append steps]
  | _ => []

/-- What a line is if a command is found in it, and what the command takes from it. -/
def ReadFrom (line : String) : Command → Prop
  | .exit => line = "exit"
  | .help topic => help? line.toList = some topic
  | .listFields => line = "ls"
  | .narrow typeName => (after? "on" line.toList).bind typeName? = some typeName
  | .printPath => line = "pp"
  | .printDocument => line = "pq"
  | .ascend further => ∃ levels, Traversal.climb? line.toList = some levels ∧ further = levels - 1
  | .descend steps => line.toList.head? = some '.' ∧ Traversal.descent line.toList = .ok steps
  | .query fragment => braced? line.toList = some fragment

theorem readFrom_of_find {line : String} {command : Command} (h : find line = .ok command) :
    command.ReadFrom line := by
  unfold find at h
  simp only at h
  repeat' split at h
  all_goals cases h
  all_goals first
    | assumption
    | exact ⟨_, by assumption, rfl⟩
    | exact ⟨by assumption, by assumption⟩

theorem find_cases {line : String} {command : Command} (h : find line = .ok command) :
    (∀ current, command.moves current = []) ∨
      (∃ typeName, (after? "on" line.toList).bind typeName? = some typeName ∧
        command = .narrow typeName) ∨
      (∃ levels, Traversal.climb? line.toList = some levels ∧ command = .ascend (levels - 1)) ∨
      ∃ steps, line.toList.head? = some '.' ∧ Traversal.descent line.toList = .ok steps ∧
        command = .descend steps := by
  have hread := readFrom_of_find h
  cases command with
  | exit | help | listFields | printPath | printDocument | query => exact .inl fun _ => rfl
  | narrow typeName => exact .inr (.inl ⟨typeName, hread, rfl⟩)
  | ascend further =>
    obtain ⟨levels, hlevels, rfl⟩ := hread
    exact .inr (.inr (.inl ⟨levels, hlevels, rfl⟩))
  | descend steps => exact .inr (.inr (.inr ⟨steps, hread.1, hread.2, rfl⟩))

theorem after?_eq_some_iff {word : String} {line rest : List Char} :
    after? word line = some rest ↔ line = word.toList ++ rest := by
  simp only [after?, ← String.length_toList]
  constructor
  · intro h
    split at h
    · next hbegin =>
      obtain ⟨tail, rfl⟩ := List.isPrefixOf_iff_prefix.1 hbegin
      rw [List.drop_left] at h
      rw [Option.some.inj h]
    · cases h
  · rintro rfl
    rw [if_pos (List.isPrefixOf_iff_prefix.2 (List.prefix_append _ _)), List.drop_left]

theorem typeName?_eq_some {rest : List Char} {typeName : Option String}
    (h : typeName? rest = some typeName) :
    rest = [] ∧ typeName = none ∨
      ∃ t : String, rest = ' ' :: t.toList ∧ typeName = some t ∧ Name.isName t = true := by
  unfold typeName? at h
  split at h
  · cases h
    exact .inl ⟨rfl, rfl⟩
  · next name =>
    split at h
    · next hname =>
      cases h
      exact .inr ⟨String.ofList name, by simp, rfl, by simpa [Name.isName] using hname⟩
    · cases h
  · cases h

theorem spelled_of_find {line : String} {command : Command} (h : find line = .ok command)
    (current : Handle) : ∀ m ∈ command.moves current, m.Spelled := by
  rcases find_cases h
    with hnone | ⟨typeName, htype, rfl⟩ | ⟨levels, -, rfl⟩ | ⟨steps, -, hsteps, rfl⟩
  · simp [hnone current]
  · obtain ⟨rest, -, hrest⟩ := Option.bind_eq_some_iff.1 htype
    rcases typeName?_eq_some hrest with ⟨-, rfl⟩ | ⟨t, -, rfl, hname⟩
    · simp [moves, Move.Spelled]
    · simp [moves, Move.Spelled, hname]
  · simp [moves, Move.Spelled]
  · simpa [moves, Move.Spelled] using Traversal.descent_eq_ok hsteps

end Command

namespace Session

/-- The moves that a line makes. -/
def moves (s : Session) (line : String) : List Move :=
  match Command.find (withoutBreak line) with
  | .ok command => command.moves s.path.current
  | .error _ => []

theorem run_path (s : Session) (command : Command) :
    (s.run command).2.path = s.path.run (command.moves s.path.current) := by
  cases command with
  | narrow | ascend | descend | exit | help => rfl
  | listFields | printPath | printDocument =>
    simp only [run]
    split <;> rfl
  | query fragment =>
    simp only [run, query]
    split <;> rfl

theorem execute_path (s : Session) (line : String) :
    (s.execute line).2.path = s.path.run (s.moves line) := by
  cases h : Command.find (withoutBreak line) with
  | ok command => simp only [execute, moves, h, run_path]
  | error e => simp only [execute, moves, h, Path.run, List.foldl_nil]

theorem spelled_moves (s : Session) (line : String) : ∀ m ∈ s.moves line, m.Spelled := by
  unfold moves
  split
  · next command h => exact Command.spelled_of_find h _
  · simp

/-- The sessions that lines lead to, one after the other, from one that has just begun. -/
inductive Reached : Session → Prop
  | start {c : Connection} {s : Session} : Session.start c = .ok s → Reached s
  | line {s : Session} (text : String) : Reached s → Reached (s.execute text).2

/-- A session after further lines. -/
def after (s : Session) (lines : List String) : Session :=
  lines.foldl (fun s line => (s.execute line).2) s

theorem Reached.after {s : Session} (h : s.Reached) (lines : List String) :
    (s.after lines).Reached := by
  induction lines generalizing s with
  | nil => exact h
  | cons line lines ih => exact ih (h.line line)

theorem eq_ok_of_toOption {ε α : Type} {r : Except ε α} {a : α} (h : r.toOption = some a) :
    r = .ok a := by
  cases r with
  | ok b => rw [Option.some.inj h]
  | error e => cases h

def bareService : Connection :=
  .ofReplies [.ok (Text.encode (String.toList
    ("\x7b\"data\":\x7b\"__schema\":\x7b\"queryType\":\x7b\"name\":\"Q\"\x7d," ++
      "\"types\":[\x7b\"kind\":\"OBJECT\",\"name\":\"Q\"\x7d]\x7d\x7d\x7d")))]
    (.error (.other "no reply"))

theorem isSome_start_bareService : (Session.start bareService).toOption.isSome = true := by
  decide +kernel

def bare : Session := (Session.start bareService).toOption.get isSome_start_bareService

theorem start_bareService : Session.start bareService = .ok bare :=
  eq_ok_of_toOption (Option.eq_some_of_isSome _)

theorem path_of_start {c : Connection} {s : Session} (h : Session.start c = .ok s) :
    s.path = .start := by
  unfold start at h
  split at h
  · cases h
    rfl
  · cases h

theorem Reached.spelled {s : Session} (h : s.Reached) : s.path.Spelled := by
  induction h with
  | start hs => rw [path_of_start hs]; exact Path.spelled_start
  | @line s text _ ih => rw [execute_path]; exact ih.run (s.spelled_moves text)

end Session

end SchemaWalk
