import SchemaWalk.Dictionary
import SchemaWalk.Text.Blank
import SchemaWalk.Text.Split
import SchemaWalk.Transport

/-! # Request headers as given on the command line -/
namespace SchemaWalk

/-- A header by its name in lower case. -/
structure Header where
  name : String
  value : String
deriving DecidableEq

namespace Header

open Text

def isTokenChar (c : Char) : Bool := c.isAlphanum || "!#$%&'*+-.^_`|~".toList.contains c

def isToken (s : List Char) : Bool := !s.isEmpty && s.all isTokenChar

def isValueChar (c : Char) : Bool := c = '\t' || (0x20 ≤ c.toNat && c.toNat ≠ 0x7F)

/-- The two halves around the first colon, without the blanks at their ends. -/
def parse (flag : String) : Except TransportError Header :=
  match cut ':' flag.toList with
  | none => .error (.invalidHeader flag)
  | some (name, value) =>
    let name := trim name
    let value := trim value
    if isToken name && value.all isValueChar then
      .ok ⟨String.ofList (name.map Char.toLower), String.ofList value⟩
    else .error (.invalidHeader flag)

def parseAll (flags : List String) : Except TransportError (List Header) := flags.mapM parse

/-- The values under each name, in the order of the flags. -/
def group (headers : List Header) : Dictionary (List String) :=
  headers.foldl (fun d h => d.insert h.name ((d.find? h.name).getD [] ++ [h.value])) .empty

end Header

end SchemaWalk
