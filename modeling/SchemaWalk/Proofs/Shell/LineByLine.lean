import SchemaWalk.Proofs.Shell.Movement
import SchemaWalk.Shell.LineLoop

/-! # A session fed line by line

The lines are carried out one after the other until one is `exit`. Blank lines are passed over, and
errors are written down like everything else. -/
namespace SchemaWalk

namespace Session

/-- Of all lines only `exit` ends the session, and it says nothing. -/
theorem execute_eq_exit_iff (s : Session) (line : String) :
    (s.execute line).1 = .exit ↔ withoutBreak line = "exit" := by
  rcases s.execute_cases line with ⟨hprints, -, hline⟩ | ⟨hsilent, -, hline⟩ | ⟨hexit, -, hline⟩
  · simp [hprints.ne_exit, hline]
  · simp [hsilent, hline]
  · simp [hexit, hline]

theorem execute_ends_iff (s : Session) (line : String) :
    (s.execute line).1.ends = true ↔ withoutBreak line = "exit" := by
  rcases s.execute_cases line with ⟨hprints, -, hline⟩ | ⟨hsilent, -, hline⟩ | ⟨hexit, -, hline⟩
  · simp [hprints.ends_eq_false, hline]
  · simp [hsilent, hline]
  · simp [hexit, hline]

/-- What lines lead to, each in the session that those before it have left. -/
def outcomes : Session → List String → List Outcome
  | _, [] => []
  | s, line :: lines => (s.execute line).1 :: outcomes (s.execute line).2 lines

end Session

namespace LineLoop

open Text

/-- Lines up to the first one that is `exit`, with it. -/
def untilExit : List String → List String
  | [] => []
  | line :: lines => if line = "exit" then [line] else line :: untilExit lines

/-- The lines that a session is given: those of which trimming leaves something, until it ends. -/
def carriedOut (lines : List String) : List String :=
  untilExit (lines.filter fun line => trim line.toList ≠ [])

/-- The line does not hold the break after it. -/
def Unterminated (line : String) : Prop := line.toList.getLast? ≠ some '\n'

instance (line : String) : Decidable (Unterminated line) := inferInstanceAs (Decidable (_ ≠ _))

namespace Transcript

/-- What outcomes leave on the two outputs. -/
def ofOutcomes (outcomes : List Outcome) : Transcript where
  output := printed (outcomes.filterMap Outcome.output?)
  errors := printed (outcomes.filterMap Outcome.failure?)

@[simp] theorem printed_nil : printed [] = "" := rfl

@[simp] theorem printed_cons (text : String) (texts : List String) :
    printed (text :: texts) = text ++ "\n" ++ printed texts := by
  simp [printed, String.join_cons]

theorem printed_filterMap_cons (f : Outcome → Option String) (o : Outcome) (os : List Outcome) :
    printed ((o :: os).filterMap f) = printed (f o).toList ++ printed (os.filterMap f) := by
  cases h : f o <;> simp [h]

@[simp] theorem add_silent (t : Transcript) : t.add .silent = t := by simp [add]

@[simp] theorem add_exit (t : Transcript) : t.add .exit = t := by simp [add]

theorem foldl_add (t : Transcript) (outcomes : List Outcome) :
    outcomes.foldl add t =
      ⟨t.output ++ (ofOutcomes outcomes).output, t.errors ++ (ofOutcomes outcomes).errors⟩ := by
  induction outcomes generalizing t with
  | nil => simp [ofOutcomes]
  | cons outcome outcomes ih =>
    rw [List.foldl_cons, ih]
    simp only [ofOutcomes, add, printed_filterMap_cons, String.append_assoc]

end Transcript

theorem withoutBreak_of_unterminated {line : String} (h : Unterminated line) :
    Session.withoutBreak line = line := if_neg h

section

variable (s : Session) (t : Transcript) (lines : List (Option String))

theorem runLines_blank {line : String} (h : trim line.toList = []) :
    runLines s t (some line :: lines) = runLines s t lines := by
  simp [runLines, step, trim_eq_nil_iff.1 h]

theorem runLines_exit : runLines s t (some "exit" :: lines) = some (t, s) := by
  have hstep : step s "exit" = (.exit, s) := rfl
  simp [runLines, hstep]

theorem runLines_cons {line : String} (hline : Unterminated line) (hblank : trim line.toList ≠ [])
    (hexit : line ≠ "exit") :
    runLines s t (some line :: lines) =
      runLines (s.execute line).2 (t.add (s.execute line).1) lines := by
  have hgoes : (s.execute line).1.ends ≠ true := by
    rwa [ne_eq, s.execute_ends_iff, withoutBreak_of_unterminated hline]
  have hstep : step s line = s.execute line := by
    rw [step, if_neg fun h => hblank (trim_eq_nil_iff.2 h)]
  simp only [runLines, hstep, if_neg hgoes]

end

theorem carriedOut_blank {line : String} (h : trim line.toList = []) (lines : List String) :
    carriedOut (line :: lines) = carriedOut lines := by
  simp [carriedOut, h]

theorem carriedOut_exit (lines : List String) : carriedOut ("exit" :: lines) = ["exit"] := rfl

theorem carriedOut_cons {line : String} (hblank : trim line.toList ≠ []) (hexit : line ≠ "exit")
    (lines : List String) : carriedOut (line :: lines) = line :: carriedOut lines := by
  simp [carriedOut, hblank, untilExit, hexit]

/-- Each line takes the run one step further, and none but `exit` ends it. By induction on the
lines, with whatever may come after them. -/
theorem runLines_append (s : Session) (t : Transcript) {lines : List String}
    (h : ∀ line ∈ lines, Unterminated line) (more : List (Option String)) :
    let now := s.after (carriedOut lines)
    let written := (s.outcomes (carriedOut lines)).foldl Transcript.add t
    runLines s t (lines.map some ++ more) =
      if "exit" ∈ lines then some (written, now) else runLines now written more := by
  induction lines generalizing s t with
  | nil => simp [carriedOut, untilExit, Session.outcomes, Session.after]
  | cons line lines ih =>
    have hlines : ∀ line ∈ lines, Unterminated line := fun l hl => h l (List.mem_cons_of_mem _ hl)
    rw [List.map_cons, List.cons_append]
    by_cases hexit : line = "exit"
    · have hend : s.execute "exit" = (.exit, s) := rfl
      simp [hexit, runLines_exit, carriedOut_exit, Session.outcomes, Session.after, hend]
    · simp only [List.mem_cons, Ne.symm hexit, false_or]
      by_cases hblank : trim line.toList = []
      · rw [runLines_blank s t _ hblank, carriedOut_blank hblank]
        exact ih s t hlines
      · rw [runLines_cons s t _ (h line (by simp)) hblank hexit, carriedOut_cons hblank hexit]
        exact ih _ _ hlines

theorem runLines_eq (s : Session) {lines : List String} (h : ∀ line ∈ lines, Unterminated line) :
    runLines s {} (lines.map some) =
      some (.ofOutcomes (s.outcomes (carriedOut lines)), s.after (carriedOut lines)) := by
  have hrun := runLines_append s {} h []
  rw [List.append_nil] at hrun
  rw [hrun, runLines, Transcript.foldl_add, ite_self]
  simp

theorem runLines_congr {lines lines' : List (Option String)}
    (h : ∀ s t, runLines s t lines = runLines s t lines') (s : Session) (t : Transcript)
    (before : List (Option String)) :
    runLines s t (before ++ lines) = runLines s t (before ++ lines') := by
  induction before generalizing s t with
  | nil => exact h s t
  | cons line before ih =>
    cases line with
    | none => rfl
    | some line =>
      simp only [List.cons_append, runLines]
      split
      · rfl
      · exact ih _ _

theorem withoutReturn_subset (line : List Char) : withoutReturn line ⊆ line := by
  rw [withoutReturn]
  split
  · exact List.dropLast_subset line
  · exact List.Subset.refl line

theorem newline_not_mem_of_mem_lines {input typed : String} (h : typed ∈ lines input) :
    '\n' ∉ typed.toList := by
  have hended : ∀ part ∈ (pieces '\n' input.toList).dropLast.map withoutReturn, '\n' ∉ part := by
    intro part hpart hbreak
    obtain ⟨whole, hwhole, rfl⟩ := List.mem_map.1 hpart
    exact not_mem_of_mem_pieces (List.dropLast_subset _ hwhole) (withoutReturn_subset whole hbreak)
  have hlast : '\n' ∉ (pieces '\n' input.toList).getLastD [] := by
    rw [List.getLastD_eq_getLast?]
    cases hpart : (pieces '\n' input.toList).getLast? with
    | none => simp
    | some part => exact not_mem_of_mem_pieces (List.mem_of_getLast? hpart)
  simp only [lines] at h
  obtain ⟨part, hpart, rfl⟩ := List.mem_map.1 h
  rw [String.toList_ofList]
  split at hpart
  · exact hended part hpart
  · rcases List.mem_append.1 hpart with hpart | hpart
    · exact hended part hpart
    · rwa [List.mem_singleton.1 hpart]

theorem unterminated_of_delivered {input typed line : String} (htyped : typed ∈ lines input)
    (h : delivered typed = some line) : Unterminated line := by
  obtain ⟨text, herase, rfl⟩ := Option.map_eq_some_iff.1 h
  intro hbreak
  rw [String.toList_ofList] at hbreak
  exact newline_not_mem_of_mem_lines htyped (mem_of_erase herase (List.mem_of_getLast? hbreak))

/-- The run of a typed text is that of the lines which the reader delivers,
backspaces carried out. -/
theorem run_eq (s : Session) {input : String} {ls : List String}
    (h : (lines input).map delivered = ls.map some) :
    run s input = some (.ofOutcomes (s.outcomes (carriedOut ls)), s.after (carriedOut ls)) := by
  have hls : ∀ line ∈ ls, Unterminated line := by
    intro line hline
    have hmem : some line ∈ (lines input).map delivered := by
      rw [h]
      exact List.mem_map_of_mem hline
    obtain ⟨typed, htyped, hdelivered⟩ := List.mem_map.1 hmem
    exact unterminated_of_delivered htyped hdelivered
  rw [run, h, runLines_eq s hls]

/-- What the lines of an input write is what `Session.execute` prints for those that are not blank,
one after the other, up to `exit`. So blank lines may come and go, and after `exit` any lines.
Nothing else ends the run. -/
theorem carried_out_until_exit (s : Session) {lines : List String}
    (h : ∀ line ∈ lines, Unterminated line) :
    let result := runLines s {} (lines.map some)
    result = some (.ofOutcomes (s.outcomes (carriedOut lines)), s.after (carriedOut lines)) ∧
      (∀ before after blank, lines = before ++ after → trim blank.toList = [] →
        runLines s {} ((before ++ blank :: after).map some) = result) ∧
      (∀ before after more, lines = before ++ "exit" :: after →
        runLines s {} ((before ++ "exit" :: more).map some) = result) ∧
      (∀ before after, lines = before ++ after → "exit" ∉ before →
        result =
          runLines (s.after (carriedOut before)) (.ofOutcomes (s.outcomes (carriedOut before)))
            (after.map some)) ∧
      ∀ (now : Session), ∀ line ∈ lines, ((now.execute line).1 = .exit ↔ line = "exit") ∧
        ((now.execute line).1.ends = true ↔ line = "exit") := by
  intro result
  refine ⟨runLines_eq s h, ?_, ?_, ?_, fun now line hline => ?_⟩
  · rintro before after blank rfl hblank
    simp only [result, List.map_append, List.map_cons]
    exact runLines_congr (fun s t => runLines_blank s t _ hblank) s {} _
  · rintro before after more rfl
    simp only [result, List.map_append, List.map_cons]
    exact runLines_congr (fun s t => (runLines_exit s t _).trans (runLines_exit s t _).symm) s {} _
  · rintro before after rfl hexit
    have hbefore : ∀ line ∈ before, Unterminated line :=
      fun line hline => h line (List.mem_append_left _ hline)
    simp only [result, List.map_append, runLines_append s {} hbefore, if_neg hexit,
      Transcript.foldl_add]
    simp
  · rw [now.execute_eq_exit_iff, now.execute_ends_iff, withoutBreak_of_unterminated (h line hline)]
    exact ⟨Iff.rfl, Iff.rfl⟩

/-- An unknown command, a service that does not reply and a type without the field end nothing. -/
theorem carried_out_until_exit_through_failures :
    let lines := [".user", " \u3000\t", "nonsense", "\x7ba\x7d", "ls", "pp", "exit", ".posts", "pp"]
    let carried := [".user", "nonsense", "\x7ba\x7d", "ls", "pp", "exit"]
    let written : Transcript := ⟨".user\n",
      "No command for input \"nonsense\"\nno reply\nMissing field `user` from type `Q`\n"⟩
    (∀ line ∈ lines, Unterminated line) ∧
      runLines .bare {} (lines.map some) = some (written, Session.bare.after carried) ∧
      runLines .bare {} ((".user" :: "" :: lines.tail).map some) =
        some (written, Session.bare.after carried) ∧
      runLines .bare {} ((lines.take 7 ++ ["on User"]).map some) =
        some (written, Session.bare.after carried) := by
  intro lines carried written
  have hlines : ∀ line ∈ lines, Unterminated line := by decide
  have hcarried : carriedOut lines = carried := by decide +kernel
  have hwritten : Transcript.ofOutcomes (Session.bare.outcomes carried) = written := by
    decide +kernel
  obtain ⟨hrun, hblank, hexit, -⟩ := carried_out_until_exit .bare hlines
  rw [hcarried, hwritten] at hrun
  refine ⟨hlines, hrun, ?_, ?_⟩
  · exact (hblank [".user"] lines.tail "" rfl rfl).trans hrun
  · exact (hexit (lines.take 6) [".posts", "pp"] ["on User"] rfl).trans hrun

end LineLoop

end SchemaWalk
