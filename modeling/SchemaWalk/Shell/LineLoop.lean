import SchemaWalk.Shell.Session
import SchemaWalk.Text.Backspace

/-! # A session fed with the lines of a text -/
namespace SchemaWalk.LineLoop

open Text

def withoutReturn (line : List Char) : List Char :=
  if line.getLast? = some '\r' then line.dropLast else line

/-- The lines of a text: each ends at a break, which may follow a carriage return, and the last one
may end with the text instead. -/
def lines (input : String) : List String :=
  let parts := pieces '\n' input.toList
  let last := parts.getLastD []
  let ended := parts.dropLast.map withoutReturn
  (if last.isEmpty then ended else ended ++ [last]).map String.ofList

/-- A typed line with its backspaces carried out; `none` if that leaves no text. -/
def delivered (typed : String) : Option String := (erase typed.toList).map String.ofList

structure Transcript where
  output : String := ""
  errors : String := ""
deriving DecidableEq

namespace Transcript

def printed (texts : List String) : String := String.join (texts.map (· ++ "\n"))

def add (t : Transcript) (o : Outcome) : Transcript where
  output := t.output ++ printed o.output?.toList
  errors := t.errors ++ printed o.failure?.toList

end Transcript

def step (s : Session) (line : String) : Outcome × Session :=
  if isBlankText line.toList then (.silent, s) else s.execute line

/-- Carries out lines up to the first one that ends the session; `none` if a line before it could
not be delivered. -/
def runLines (s : Session) (t : Transcript) : List (Option String) → Option (Transcript × Session)
  | [] => some (t, s)
  | none :: _ => none
  | some line :: rest =>
    let (outcome, s) := step s line
    let t := t.add outcome
    if outcome.ends then some (t, s) else runLines s t rest

def run (s : Session) (input : String) : Option (Transcript × Session) :=
  runLines s {} ((lines input).map delivered)

end SchemaWalk.LineLoop
