import SchemaWalk.Document
import SchemaWalk.Introspection.Gate
import SchemaWalk.Resolution
import SchemaWalk.Shell.Command
import SchemaWalk.Shell.Help
import SchemaWalk.Shell.Outcome

/-! # Sessions: commands carried out on a schema, a path and a connection -/
namespace SchemaWalk

structure Session where
  schema : Schema
  path : Path
  connection : Connection

namespace Session

def start (c : Connection) : Except SchemaError Session :=
  match ({} : Gate).load c with
  | (.ok schema, _, c) => .ok ⟨schema, .start, c⟩
  | (.error e, _, _) => .error e

def help : Option String → Outcome
  | none => .output Help.overview
  | some topic =>
    match Help.entry? topic with
    | some entry => .output entry.text
    | none => .failure (Help.unknown topic)

/-- Each field has one row, so a line break in its description becomes a blank. -/
def fieldRow (f : Field) : Vector String 3 :=
  let description := (f.description.getD "").toList.map fun c => if c = '\n' then ' ' else c
  #v[f.name, f.type.display, String.ofList description]

def fieldTable (fields : List Field) : String :=
  Table.render #v["NAME", "TYPE", "DESCRIPTION"] (fields.map fieldRow)

def replyOutcome : Reply → Outcome
  | .error reason => .failure reason.message
  | .ok body =>
    match Json.parse body with
    | .ok v => .output v.pretty
    | .error e => .failure s!"Response is not valid JSON: {e.message}"

def query (s : Session) (fragment : String) : Outcome × Session :=
  match s.path.document fragment with
  | .error e => (.failure e.message, s)
  | .ok document =>
    let (reply, connection) := s.connection.ask document
    (replyOutcome reply, { s with connection })

def run (s : Session) : Command → Outcome × Session
  | .exit => (.exit, s)
  | .help topic => (help topic, s)
  | .listFields =>
    match s.schema.fieldsAt s.path with
    | .ok fields => (.output (fieldTable fields), s)
    | .error e => (.failure e.message, s)
  | .narrow typeName =>
    (.silent, { s with path := s.path.rescope s.path.current (typeName.getD "") })
  | .printPath =>
    match s.path.render with
    | .ok text => (.output text, s)
    | .error e => (.failure e.message, s)
  | .printDocument =>
    match s.path.document "" with
    | .ok text => (.output text, s)
    | .error e => (.failure e.message, s)
  | .ascend further => (.silent, { s with path := s.path.ascend further })
  | .descend steps => (.silent, { s with path := s.path.append steps })
  | .query fragment => s.query fragment

def withoutBreak (line : String) : String :=
  let text := line.toList
  if text.getLast? = some '\n' then String.ofList text.dropLast else line

def execute (s : Session) (line : String) : Outcome × Session :=
  match Command.find (withoutBreak line) with
  | .ok command => s.run command
  | .error e => (.failure e.message, s)

end Session

end SchemaWalk
