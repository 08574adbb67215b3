import SchemaWalk.Header
import SchemaWalk.Shell.LineLoop
import SchemaWalk.Shell.Options

/-! # The shell as a program over recorded replies

The endpoint is a file that holds one reply to a line. The first one answers the introspection
document, and each query takes the next one. Lines are read from standard input until it ends or a
line ends the session. -/
namespace SchemaWalk

open Options

def Options.Refusal.report : Refusal → String × Bool
  | .help =>
    ("Usage: [OPTIONS] <ENDPOINT>\n\nOptions: -H, --header <HEADER>; -v, --verbose; -h, --help; -V, --version",
      true)
  | .version => ("0.1.0", true)
  | .unknownArgument => ("error: unexpected argument", false)
  | .missingValue =>
    ("error: a value is required for '--header <HEADER>' but none was supplied", false)
  | .unwantedValue => ("error: a flag takes no value", false)
  | .repeatedFlag => ("error: a flag cannot be used multiple times", false)
  | .missingEndpoint => ("error: the endpoint was not provided", false)

def report (outcome : Outcome) : IO Bool := do
  for text in outcome.output? do IO.println text
  for text in outcome.failure? do IO.eprintln text
  return !outcome.ends

partial def readLines (input : IO.FS.Stream) (s : Session) : IO Unit := do
  let raw ← input.getLine
  for typed in (LineLoop.lines raw).head? do
    match LineLoop.delivered typed with
    | none => IO.eprintln "error: a backspace takes a part of a character"
    | some line =>
      let (outcome, s) := LineLoop.step s line
      if ← report outcome then readLines input s

def recorded (endpoint : String) : IO (List Reply) := do
  let content ← IO.FS.readFile endpoint
  return (LineLoop.lines content).map fun line => .ok (Text.encode line.toList)

def fail (context reason : String) : IO UInt32 := do
  IO.eprintln s!"❌ {context}: {reason}"
  return 1

def explore (o : Options) : IO UInt32 := do
  match Header.parseAll o.headers with
  | .error e => fail "Failed to configure the HTTP transport" e.message
  | .ok _ =>
    if o.verbose then IO.eprintln s!"Loading schema from `{o.endpoint}`..."
    let failure := s!"Failed to load the schema from `{o.endpoint}`"
    try
      let replies ← recorded o.endpoint
      match Session.start (.ofReplies replies (.error (.other "no reply left"))) with
      | .error e => fail failure e.message
      | .ok s =>
        readLines (← IO.getStdin) s
        return 0
    catch e => fail failure (toString e)

end SchemaWalk

def main (arguments : List String) : IO UInt32 := do
  match SchemaWalk.Options.parse arguments with
  | .ok o => SchemaWalk.explore o
  | .error refusal =>
    let (text, wanted) := refusal.report
    if wanted then
      IO.println text
      return 0
    else
      IO.eprintln text
      return 2
