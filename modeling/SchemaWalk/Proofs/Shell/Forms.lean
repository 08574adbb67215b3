import SchemaWalk.Proofs.Shell.Climbing
import SchemaWalk.Proofs.Shell.Sending

/-! # The nine forms of a line: none is also another one, whichever is tried first -/
namespace SchemaWalk

namespace Traversal

theorem parseDescent_upward (further : Nat) :
    parseDescent (upward further) = .error .emptySegment := by
  have hdots : ascentText further =
      '.' :: '.' :: (List.replicate further ['/', '.', '.']).flatten := rfl
  rw [parseDescent, toList_upward, descent, hdots]
  rfl

end Traversal

namespace Command

open Traversal

/-- A line of each form, with its command and what the command takes from it. -/
inductive Form : String → Command → Prop
  | exit : Form "exit" .exit
  | help {word : String} (hword : word = "h" ∨ word = "help") : Form word (.help none)
  | helpOn {word topic : String} (hword : word = "h" ∨ word = "help") (hne : topic ≠ "")
      (hline : '\n' ∉ topic.toList) : Form (word ++ " " ++ topic) (.help (some topic))
  | listFields : Form "ls" .listFields
  | widen : Form "on" (.narrow none)
  | narrow {name : String} (hname : Name.isName name = true) :
      Form ("on " ++ name) (.narrow (some name))
  | printPath : Form "pp" .printPath
  | printDocument : Form "pq" .printDocument
  | ascend (further : Nat) : Form (upward further) (.ascend further)
  | descend {line : String} {steps : List Step} (hdot : line.toList.head? = some '.')
      (hsteps : parseDescent line = .ok steps) : Form line (.descend steps)
  | query {fragment : String} (hne : fragment ≠ "") : Form (inBraces fragment) (.query fragment)

/-- Why a line has none of the forms. Lines that begin with a dot are meant as movements, and say
what is wrong with them. -/
inductive Fault : String → CommandError → Prop
  | traversal {line : String} {reason : TraversalError} (hdot : line.toList.head? = some '.')
      (hup : ∀ further, line ≠ upward further) (hreason : parseDescent line = .error reason) :
      Fault line (.traversal reason)
  | noCommand {line : String} (hdot : line.toList.head? ≠ some '.')
      (hform : ∀ command, ¬Form line command) : Fault line (.noCommand line)

/-! ## From the form to the command -/

theorem topic?_topic {topic : String} (hne : topic ≠ "") (hline : '\n' ∉ topic.toList) :
    topic? (' ' :: topic.toList) = some (some topic) := by
  simp [topic?, hne, hline]

theorem find_of_help? {line : String} {topic : Option String} (h : help? line.toList = some topic) :
    find line = .ok (.help topic) := by
  have hexit : line ≠ "exit" := by
    rintro rfl
    cases h
  simp only [find, if_neg hexit, h]

theorem help?_word {word : String} (hword : word = "h" ∨ word = "help") {rest : List Char}
    (hrest : ∀ c ∈ rest.head?, c = ' ') : help? (word.toList ++ rest) = topic? rest := by
  rcases hword with rfl | rfl
  · have hlong : after? "help" ("h".toList ++ rest) = none := by
      cases rest with
      | nil => rfl
      | cons c rest =>
        obtain rfl := hrest c (by simp)
        rfl
    simp only [help?, hlong, after?_eq_some_iff.2 rfl, Option.bind_some]
  · simp only [help?, after?_eq_some_iff.2 rfl]

theorem find_dot_line {line : String} (hdot : line.toList.head? = some '.')
    (hclimb : climb? line.toList = none) :
    find line = ((parseDescent line).map descend).mapError .traversal := by
  obtain ⟨rest, hline⟩ := List.head?_eq_some_iff.1 hdot
  obtain rfl : line = String.ofList ('.' :: rest) := by rw [← hline, String.ofList_toList]
  rw [hline] at hclimb
  cases hsteps : descent ('.' :: rest) <;>
    simp only [find_dot, hclimb, parseDescent, String.toList_ofList, hsteps] <;> rfl

theorem climb?_eq_none_iff {line : String} :
    climb? line.toList = none ↔ ∀ further, line ≠ upward further := by
  constructor
  · rintro h further rfl
    rw [climb?_upward] at h
    cases h
  · intro h
    refine Option.eq_none_iff_forall_ne_some.2 fun levels hlevels => ?_
    obtain ⟨further, -, htext⟩ := climb?_eq_some_iff.1 hlevels
    exact h further (String.toList_inj.1 (htext.trans (toList_upward further).symm))

theorem Form.find {line : String} {command : Command} (h : Form line command) :
    find line = .ok command := by
  cases h with
  | exit | listFields | widen | printPath | printDocument => rfl
  | help hword => rcases hword with rfl | rfl <;> rfl
  | @helpOn word topic hword hne hline =>
    apply find_of_help?
    have htext : (word ++ " " ++ topic).toList = word.toList ++ ' ' :: topic.toList := by simp
    rw [htext, help?_word hword (by simp), topic?_topic hne hline]
  | narrow hname => exact Session.find_on hname
  | ascend further => exact Session.find_upward further
  | @descend line steps hdot hsteps =>
    have hclimb : climb? line.toList = none := by
      refine climb?_eq_none_iff.2 fun further hline => ?_
      rw [hline, parseDescent_upward] at hsteps
      cases hsteps
    rw [find_dot_line hdot hclimb, hsteps]
    rfl
  | query hne => exact find_eq_query_iff.2 ⟨hne, rfl⟩

/-! ## From the command to the form -/

theorem topic?_eq_some {rest : List Char} {topic : Option String} (h : topic? rest = some topic) :
    rest = [] ∧ topic = none ∨
      ∃ t : String, rest = ' ' :: t.toList ∧ topic = some t ∧ t ≠ "" ∧ '\n' ∉ t.toList := by
  unfold topic? at h
  split at h
  · cases h
    exact .inl ⟨rfl, rfl⟩
  · next text =>
    split at h
    · cases h
    · next hcond =>
      cases h
      simp only [Bool.or_eq_true, List.isEmpty_iff, List.contains_iff_mem, not_or] at hcond
      exact .inr ⟨String.ofList text, by simp, rfl, by simpa using hcond.1, by simpa using hcond.2⟩
  · cases h

theorem form_of_topic? {line word : String} (hword : word = "h" ∨ word = "help") {rest : List Char}
    {topic : Option String} (hline : line.toList = word.toList ++ rest)
    (h : topic? rest = some topic) : Form line (.help topic) := by
  rcases topic?_eq_some h with ⟨rfl, rfl⟩ | ⟨t, rfl, rfl, hne, hbreak⟩
  · obtain rfl : line = word := String.toList_inj.1 (hline.trans (List.append_nil _))
    exact .help hword
  · obtain rfl : line = word ++ " " ++ t := by
      rw [← String.toList_inj, hline]
      simp
    exact .helpOn hword hne hbreak

theorem form_of_find {line : String} {command : Command} (h : find line = .ok command) :
    Form line command := by
  have hread := readFrom_of_find h
  cases command with
  | exit => exact hread ▸ .exit
  | listFields => exact hread ▸ .listFields
  | printPath => exact hread ▸ .printPath
  | printDocument => exact hread ▸ .printDocument
  | help topic =>
    rw [ReadFrom, help?] at hread
    split at hread
    · next rest hrest => exact form_of_topic? (.inr rfl) (after?_eq_some_iff.1 hrest) hread
    · obtain ⟨rest, hrest, htopic⟩ := Option.bind_eq_some_iff.1 hread
      exact form_of_topic? (.inl rfl) (after?_eq_some_iff.1 hrest) htopic
  | narrow typeName =>
    obtain ⟨rest, hrest, htype⟩ := Option.bind_eq_some_iff.1 hread
    have hline := after?_eq_some_iff.1 hrest
    rcases typeName?_eq_some htype with ⟨rfl, rfl⟩ | ⟨t, rfl, rfl, hname⟩
    · obtain rfl : line = "on" := String.toList_inj.1 (hline.trans (List.append_nil _))
      exact .widen
    · obtain rfl : line = "on " ++ t := by
        rw [← String.toList_inj, hline]
        simp
      exact .narrow hname
  | ascend further =>
    obtain ⟨levels, hlevels, rfl⟩ := hread
    obtain ⟨further, rfl, htext⟩ := climb?_eq_some_iff.1 hlevels
    obtain rfl : line = upward further :=
      String.toList_inj.1 (htext.trans (toList_upward further).symm)
    exact .ascend further
  | descend steps => exact .descend hread.1 hread.2
  | query fragment =>
    obtain ⟨hne, rfl⟩ := braced?_eq_some_iff.1 hread
    exact .query hne

theorem find_of_fault {line : String} {e : CommandError} (h : Fault line e) :
    find line = .error e := by
  cases h with
  | traversal hdot hup hreason =>
    rw [find_dot_line hdot (climb?_eq_none_iff.2 hup), hreason]
    rfl
  | noCommand hdot hform =>
    cases hfind : find line with
    | ok command => exact absurd (form_of_find hfind) (hform command)
    | error e =>
      unfold find at hfind
      simp only at hfind
      repeat' split at hfind
      all_goals cases hfind
      rfl

theorem form_or_fault (line : String) : (∃ command, Form line command) ∨ ∃ e, Fault line e := by
  by_cases hform : ∃ command, Form line command
  · exact .inl hform
  refine .inr ?_
  rw [not_exists] at hform
  by_cases hdot : line.toList.head? = some '.'
  · have hup : ∀ further, line ≠ upward further := by
      rintro further rfl
      exact hform _ (.ascend further)
    cases hsteps : parseDescent line with
    | ok steps => exact absurd (.descend hdot hsteps) (hform (.descend steps))
    | error reason => exact ⟨_, .traversal hdot hup hsteps⟩
  · exact ⟨_, .noCommand hdot hform⟩

/-- A line has at most one of the forms, and then it is that command, with what stands in the place
for it. A line that begins with a dot and neither climbs nor walks down says why it is no walk. A
line without a dot and without a form is no command. No line that climbs is a walk as well. -/
theorem find_by_form (line : String) :
    (∀ command other, Form line command → Form line other → command = other) ∧
      (∀ command, find line = .ok command ↔ Form line command) ∧
      (∀ reason, find line = .error (.traversal reason) ↔
        line.toList.head? = some '.' ∧ (∀ further, line ≠ upward further) ∧
          parseDescent line = .error reason) ∧
      (∀ input, find line = .error (.noCommand input) ↔
        input = line ∧ line.toList.head? ≠ some '.' ∧ ∀ command, ¬Form line command) ∧
      ∀ further, parseDescent (upward further) = .error .emptySegment := by
  obtain ⟨hok, herror⟩ :=
    except_eq_iff (fun _ => Form.find) (fun _ => find_of_fault) (form_or_fault line)
  refine ⟨?_, hok, fun reason => ?_, fun input => ?_, parseDescent_upward⟩
  · intro command other hcommand hother
    exact Except.ok.inj (hcommand.find.symm.trans hother.find)
  · rw [herror]
    constructor
    · rintro ⟨hdot, hup, hreason⟩
      exact ⟨hdot, hup, hreason⟩
    · rintro ⟨hdot, hup, hreason⟩
      exact .traversal hdot hup hreason
  · rw [herror]
    constructor
    · rintro ⟨⟩
      exact ⟨rfl, by assumption, by assumption⟩
    · rintro ⟨rfl, hdot, hform⟩
      exact .noCommand hdot hform

example : find "h .." = .ok (.help (some "..")) := rfl

end Command

end SchemaWalk
