import SchemaWalk.Proofs.Shell.Dotted
import SchemaWalk.Proofs.Shell.Narrowing
import SchemaWalk.Proofs.Shell.Reach

/-! # The lines that move; all others print something or end the session -/
namespace SchemaWalk

namespace Outcome

/-- It is one text, on one of the two outputs. -/
inductive Prints : Outcome → Prop
  | output (text : String) : Prints (.output text)
  | failure (text : String) : Prints (.failure text)

variable {o : Outcome}

theorem Prints.not_both (h : o.Prints) : ¬(o.output?.isSome ∧ o.failure?.isSome) := by
  cases h <;> simp

theorem Prints.ne_silent (h : o.Prints) : o ≠ .silent := by
  cases h <;> simp

theorem Prints.ends_eq_false (h : o.Prints) : o.ends = false := by
  cases h <;> rfl

theorem Prints.ne_exit (h : o.Prints) : o ≠ .exit := by
  cases h <;> simp

end Outcome

namespace Command

/-- The three forms of a line that moves: it narrows or widens what the current step selects,
climbs, or walks down. -/
inductive Movement : List Char → Prop
  | widen : Movement ['o', 'n']
  | narrow {name : List Char} : Name.isNameText name = true → Movement ('o' :: 'n' :: ' ' :: name)
  | climb (further : Nat) : Movement (Traversal.ascentText further)
  | walk {rest : List Char} {steps : List Step} :
      Traversal.descent ('.' :: rest) = .ok steps → Movement ('.' :: rest)

theorem movement_of_typeName? {text : List Char} {typeName : Option String}
    (h : (after? "on" text).bind typeName? = some typeName) : Movement text := by
  obtain ⟨rest, hafter, hrest⟩ := Option.bind_eq_some_iff.1 h
  obtain rfl := after?_eq_some_iff.1 hafter
  rcases typeName?_eq_some hrest with ⟨rfl, -⟩ | ⟨t, rfl, -, hname⟩
  · exact .widen
  · exact .narrow hname

theorem movement_of_find {line : String} {command : Command} (h : find line = .ok command)
    {current : Handle} (hmoves : command.moves current ≠ []) : Movement line.toList := by
  rcases find_cases h
    with hnone | ⟨typeName, htype, -⟩ | ⟨levels, hclimb, -⟩ | ⟨steps, hdot, hsteps, -⟩
  · exact absurd (hnone current) hmoves
  · exact movement_of_typeName? htype
  · obtain ⟨further, -, htext⟩ := Traversal.climb?_eq_some_iff.1 hclimb
    rw [htext]
    exact .climb further
  · obtain ⟨rest, htext⟩ := List.head?_eq_some_iff.1 hdot
    rw [htext] at hsteps ⊢
    exact .walk hsteps

theorem Movement.find {line : String} (h : Movement line.toList) (current : Handle) :
    ∃ command, find line = .ok command ∧ command.moves current ≠ [] := by
  generalize htext : line.toList = text at h
  obtain rfl : line = String.ofList text := by rw [← htext, String.ofList_toList]
  cases h with
  | widen => exact ⟨.narrow none, rfl, by simp [moves]⟩
  | @narrow name hname =>
    have hname' : Name.isName (String.ofList name) = true := by
      rwa [Name.isName, String.toList_ofList]
    have hline : String.ofList ('o' :: 'n' :: ' ' :: name) = "on " ++ String.ofList name := by
      rw [← String.toList_inj]
      simp
    rw [hline]
    exact ⟨_, Session.find_on hname', by simp [moves]⟩
  | climb further =>
    have hclimb := Traversal.climb?_eq_some_iff.2 ⟨further, rfl, rfl⟩
    have hdots : Traversal.ascentText further =
        '.' :: '.' :: (List.replicate further ['/', '.', '.']).flatten := rfl
    rw [hdots] at hclimb ⊢
    exact ⟨.ascend further, by simp only [find_dot, hclimb, Nat.add_sub_cancel], by simp [moves]⟩
  | @walk rest steps hsteps =>
    cases hclimb : Traversal.climb? ('.' :: rest) with
    | some levels => exact ⟨.ascend (levels - 1), by simp only [find_dot, hclimb], by simp [moves]⟩
    | none => exact ⟨.descend steps, by simp only [find_dot, hclimb, hsteps], by simp [moves]⟩

theorem find_eq_exit_iff {line : String} : find line = .ok .exit ↔ line = "exit" := by
  constructor
  · exact fun h => readFrom_of_find h
  · rintro rfl
    rfl

end Command

namespace Session

theorem help_prints (topic : Option String) : (help topic).Prints := by
  unfold help
  split
  · exact .output _
  · split
    · exact .output _
    · exact .failure _

theorem replyOutcome_prints (reply : Reply) : (replyOutcome reply).Prints := by
  unfold replyOutcome
  split
  · exact .failure _
  · split
    · exact .output _
    · exact .failure _

theorem query_prints (s : Session) (fragment : String) : (s.query fragment).1.Prints := by
  unfold query
  split
  · exact .failure _
  · exact replyOutcome_prints _

/-- A command prints one text, or says nothing and is one of those that move, or ends the
session. -/
theorem run_cases (s : Session) (command : Command) :
    ((s.run command).1.Prints ∧ command.moves s.path.current = [] ∧ command ≠ .exit) ∨
      ((s.run command).1 = .silent ∧ command.moves s.path.current ≠ [] ∧ command ≠ .exit) ∨
      ((s.run command).1 = .exit ∧ command.moves s.path.current = [] ∧ command = .exit) := by
  cases command with
  | exit => exact .inr (.inr ⟨rfl, rfl, rfl⟩)
  | narrow | ascend | descend => exact .inr (.inl ⟨rfl, by simp [Command.moves], by simp⟩)
  | help topic => exact .inl ⟨help_prints topic, rfl, by simp⟩
  | query fragment => exact .inl ⟨s.query_prints fragment, rfl, by simp⟩
  | listFields | printPath | printDocument =>
    refine .inl ⟨?_, rfl, by simp⟩
    simp only [run]
    split
    · exact .output _
    · exact .failure _

/-- The same of a line: besides what its command leads to there is only the failure to find one. -/
theorem execute_cases (s : Session) (line : String) :
    ((s.execute line).1.Prints ∧ s.moves line = [] ∧ withoutBreak line ≠ "exit") ∨
      ((s.execute line).1 = .silent ∧ s.moves line ≠ [] ∧ withoutBreak line ≠ "exit") ∨
      ((s.execute line).1 = .exit ∧ s.moves line = [] ∧ withoutBreak line = "exit") := by
  rw [ne_eq, ← Command.find_eq_exit_iff, execute, moves]
  cases Command.find (withoutBreak line) with
  | ok command => simpa using s.run_cases command
  | error e => exact .inl ⟨.failure _, rfl, by simp⟩

theorem execute_eq_silent_iff (s : Session) (line : String) :
    (s.execute line).1 = .silent ↔ s.moves line ≠ [] := by
  rcases s.execute_cases line with ⟨hprints, hmoves, -⟩ | ⟨hsilent, hmoves, -⟩ | ⟨hexit, hmoves, -⟩
  · simp [hprints.ne_silent, hmoves]
  · simp [hsilent, hmoves]
  · simp [hexit, hmoves]

theorem execute_one_output (s : Session) (line : String) :
    ¬((s.execute line).1.output?.isSome ∧ (s.execute line).1.failure?.isSome) := by
  rcases s.execute_cases line with ⟨hprints, -⟩ | ⟨hsilent, -⟩ | ⟨hexit, -⟩
  · exact hprints.not_both
  · simp [hsilent]
  · simp [hexit]

theorem moves_ne_nil_iff (s : Session) (line : String) :
    s.moves line ≠ [] ↔ Command.Movement (withoutBreak line).toList := by
  rw [moves]
  constructor
  · intro h
    cases hfind : Command.find (withoutBreak line) with
    | ok command => rw [hfind] at h; exact Command.movement_of_find hfind h
    | error e => rw [hfind] at h; exact absurd rfl h
  · intro h
    obtain ⟨command, hfind, hmoves⟩ := h.find s.path.current
    rwa [hfind]

/-- A line prints something, fails, ends the session or says nothing. Only one that says nothing can
move, and it is one of the forms that move. So after an error, of whatever part and whatever the
service has sent, the path is as it was. -/
theorem path_kept_unless_silent (s : Session) (line : String) :
    let outcome := (s.execute line).1
    let path := (s.execute line).2.path
    ¬(outcome.output?.isSome ∧ outcome.failure?.isSome) ∧
      (outcome.output?.isSome ∨ outcome.failure?.isSome ∨ outcome.ends = true → path = s.path) ∧
      (path ≠ s.path → outcome = .silent ∧ Command.Movement (withoutBreak line).toList) ∧
      (outcome = .silent ↔ Command.Movement (withoutBreak line).toList) := by
  intro outcome path
  have hsilent : outcome = .silent ↔ s.moves line ≠ [] := s.execute_eq_silent_iff line
  have hkept : outcome ≠ .silent → path = s.path := by
    intro h
    have hnone : s.moves line = [] := Classical.not_not.1 (mt hsilent.2 h)
    rw [show path = _ from s.execute_path line, hnone]
    rfl
  refine ⟨s.execute_one_output line, ?_, ?_, hsilent.trans (s.moves_ne_nil_iff line)⟩
  · intro h
    apply hkept
    intro hnone
    simp [hnone] at h
  · intro h
    have hmoved : outcome = .silent := Classical.byContradiction fun hne => h (hkept hne)
    exact ⟨hmoved, (s.moves_ne_nil_iff line).1 (hsilent.1 hmoved)⟩

end Session

end SchemaWalk
