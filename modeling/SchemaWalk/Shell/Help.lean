import SchemaWalk.Table
import SchemaWalk.Text.Quoted

/-! # The shell's help texts -/
namespace SchemaWalk.Help

/-- A command as it is named, how it is typed, and what it does: in the first line,
and perhaps in more. -/
structure Entry where
  command : String
  usage : String
  summary : String
  details : List String := []

def entries : List Entry := [
  { command := ".", usage := ".<field>[...]",
    summary := "Traverses through fields of the current query",
    details := ["", "For example, \".foo.bar(first: 10).baz\""] },
  { command := "..", usage := "..[/..]", summary := "Traverses upwards one or more query nodes" },
  { command := "exit", usage := "exit", summary := "Exits the graphsh shell" },
  { command := "help", usage := "help | help <command>", summary := "Displays help for a command" },
  { command := "ls", usage := "ls", summary := "Lists the fields for the current query node" },
  { command := "on", usage := "on <ConcreteType>",
    summary := "Applies a concrete type to the current query node" },
  { command := "pp", usage := "pp", summary := "Prints the current query path" },
  { command := "pq", usage := "pq", summary := "Prints the current query" },
  { command := "\x7b\x7d", usage := "\x7b<field>\x7d",
    summary := "Execute a query in the current query node",
    details := ["",
      "For example, to query the current node's URL and its app name: \x7b url, app \x7b name \x7d \x7d"] }]

def Entry.text (e : Entry) : String :=
  let description := "\n".intercalate (e.summary :: e.details)
  s!"Usage: {e.usage}\n\n{description}"

def overview : String :=
  Table.render #v["COMMAND", "DESCRIPTION"] (entries.map fun e => #v[e.command, e.summary])

def entry? (command : String) : Option Entry := entries.find? (·.command = command)

def unknown (command : String) : String := s!"No such command {Text.quoted command} exists"

end SchemaWalk.Help
