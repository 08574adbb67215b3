import SchemaWalk.Text.Split

/-! # The command line of the shell -/
namespace SchemaWalk

/-- An endpoint to explore, headers for its requests in the order given, and whether to
tell more than usual. -/
structure Options where
  endpoint : String
  headers : List String
  verbose : Bool
deriving DecidableEq

namespace Options

/-- Why a command line starts no session. The last two are asked for. -/
inductive Refusal where
  | unknownArgument
  | missingValue
  | unwantedValue
  | repeatedFlag
  | missingEndpoint
  | help
  | version
deriving DecidableEq

/-- The arguments so far. A header flag may still wait for its value, and after `--` no
argument is a flag. -/
structure Draft where
  endpoint : Option String := none
  headers : List String := []
  verbose : Bool := false
  waiting : Bool := false
  onlyValues : Bool := false

namespace Draft

/-- No flag may follow a header flag that still waits. -/
def settled (d : Draft) : Except Refusal Draft := if d.waiting then .error .missingValue else .ok d

def addHeader (d : Draft) (value : String) : Draft :=
  { d with headers := d.headers ++ [value], waiting := false }

def header (d : Draft) (attached : Option String) : Except Refusal Draft := do
  let d ← d.settled
  match attached with
  | some value => .ok (d.addHeader value)
  | none => .ok { d with waiting := true }

def setVerbose (d : Draft) : Except Refusal Draft := do
  let d ← d.settled
  if d.verbose then .error .repeatedFlag else .ok { d with verbose := true }

def stop (d : Draft) (refusal : Refusal) : Except Refusal Draft := do
  let _ ← d.settled
  .error refusal

def long (d : Draft) (name : List Char) (attached : Option String) : Except Refusal Draft :=
  if name = "header".toList then d.header attached
  else if name = "verbose".toList then
    if attached.isSome then .error .unwantedValue else d.setVerbose
  else if name = "help".toList then if attached.isSome then .error .unwantedValue else d.stop .help
  else if name = "version".toList then
    if attached.isSome then .error .unwantedValue else d.stop .version
  else .error .unknownArgument

/-- Flags of one letter after a single dash. The rest after `H` is its value, with or
without an equals sign. -/
def short (d : Draft) : List Char → Except Refusal Draft
  | [] => .ok d
  | 'v' :: rest => do
    let d ← d.setVerbose
    d.short rest
  | 'h' :: _ => d.stop .help
  | 'V' :: _ => d.stop .version
  | 'H' :: rest =>
    match rest with
    | [] => d.header none
    | '=' :: value => d.header (some (String.ofList value))
    | value => d.header (some (String.ofList value))
  | _ => .error .unknownArgument

/-- There is only one endpoint, and none may stand where a header flag still waits. -/
def setEndpoint (d : Draft) (argument : String) : Except Refusal Draft :=
  if d.endpoint.isSome then .error .unknownArgument
  else do
    let d ← d.settled
    .ok { d with endpoint := some argument }

/-- An argument that is no flag is a value that is waited for, unless `--` came between,
or else the endpoint. -/
def value (d : Draft) (argument : String) : Except Refusal Draft :=
  if d.waiting && !d.onlyValues then .ok (d.addHeader argument) else d.setEndpoint argument

def feed (d : Draft) (argument : String) : Except Refusal Draft :=
  if d.onlyValues then d.value argument
  else match argument.toList with
    | ['-', '-'] => .ok { d with onlyValues := true }
    | '-' :: '-' :: rest =>
      match Text.cut '=' rest with
      | none => d.long rest none
      | some (name, attached) => d.long name (some (String.ofList attached))
    | '-' :: c :: rest => d.short (c :: rest)
    | _ => d.value argument

def finish (d : Draft) : Except Refusal Options := do
  let d ← d.settled
  match d.endpoint with
  | none => .error .missingEndpoint
  | some endpoint => .ok ⟨endpoint, d.headers, d.verbose⟩

end Draft

/-- Takes the arguments from left to right; the first one that cannot be taken decides. -/
def parse (arguments : List String) : Except Refusal Options := do
  let d ← arguments.foldlM Draft.feed {}
  d.finish

end Options

end SchemaWalk
