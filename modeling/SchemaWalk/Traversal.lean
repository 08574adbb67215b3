import SchemaWalk.Name
import SchemaWalk.Step
import SchemaWalk.Text.Blank
import SchemaWalk.Text.Split

/-! # Typed movements: down along fields, and up again -/
namespace SchemaWalk

inductive TraversalError where
  | emptySegment
  | missingLeadingDot (input : String)
  | invalidSegment (segment : String)
  | invalidArgumentName (segment name : String)
  | missingArgumentValue (segment pair : String)
  | invalidArgumentValue (name value : String) (reason : Json.Error)
  | invalidAscent (input : String)

def TraversalError.message : TraversalError → String
  | .emptySegment => "Path segment must not be empty"
  | .missingLeadingDot input => s!"Traversal `{input}` must start with `.`"
  | .invalidSegment segment => s!"Invalid traversal segment `{segment}`"
  | .invalidArgumentName segment name =>
    s!"Invalid argument name `{name}` in traversal segment `{segment}`"
  | .missingArgumentValue segment pair =>
    s!"Argument `{pair}` in traversal segment `{segment}` has no value (expected `name: value`)"
  | .invalidArgumentValue name value reason =>
    s!"Invalid value `{value}` for argument `{name}`: {reason.message}"
  | .invalidAscent input => s!"Invalid up-traversal `{input}` (expected `..` or `../..`)"

namespace Traversal

open Text

/-- The name and the text between the parentheses of `name(body)`. The body reaches up to the
parenthesis that ends the text; it is not empty and has no newline. -/
def call? (segment : List Char) : Option (List Char × List Char) :=
  match cut '(' segment with
  | none => none
  | some (name, rest) =>
    match rest.getLast? with
    | some ')' =>
      let body := rest.dropLast
      if Name.isNameText name && !body.isEmpty && !body.contains '\n' then some (name, body)
      else none
    | _ => none

/-- One `name: value` of the segment. A missing colon is reported before a bad name, and that
before a bad value. -/
def argument (segment pair : List Char) : Except TraversalError (String × Literal) :=
  match cut ':' pair with
  | none => .error (.missingArgumentValue (String.ofList segment) (String.ofList (trim pair)))
  | some (key, value) =>
    let name := trim key
    if Name.isNameText name then
      match Literal.parse value with
      | .ok literal => .ok (String.ofList name, literal)
      | .error reason =>
        .error (.invalidArgumentValue (String.ofList name) (String.ofList (trim value)) reason)
    else .error (.invalidArgumentName (String.ofList segment) (String.ofList name))

/-- One field, bare or with arguments in parentheses. Every comma of the body separates two
arguments, so no value holds one; of arguments with one name the last stays. -/
def segment (text : List Char) : Except TraversalError Step :=
  if text.isEmpty then .error .emptySegment
  else if Name.isNameText text then .ok { name := String.ofList text }
  else match call? text with
    | none => .error (.invalidSegment (String.ofList text))
    | some (name, body) => do
      let arguments ← (pieces ',' body).mapM (argument text)
      .ok { name := String.ofList name, arguments := Dictionary.ofList arguments }

def parseSegment (text : String) : Except TraversalError Step := segment text.toList

/-- The fields after the dots of `.first.second`, in order. The text is cut at every dot, those
inside of arguments included. -/
def descent (text : List Char) : Except TraversalError (List Step) :=
  match pieces '.' text with
  | [] :: segments => segments.mapM segment
  | _ => .error (.missingLeadingDot (String.ofList text))

def parseDescent (text : String) : Except TraversalError (List Step) := descent text.toList

/-- How many levels `..`, `../..` and so on climb; `none` for any other text. -/
def climb? : List Char → Option Nat
  | ['.', '.'] => some 1
  | '.' :: '.' :: '/' :: rest => (climb? rest).map (· + 1)
  | _ => none

def isAscent (text : String) : Bool := (climb? text.toList).isSome

/-- The number of levels beyond the first. -/
def parseAscent (text : String) : Except TraversalError Nat :=
  match climb? text.toList with
  | some levels => .ok (levels - 1)
  | none => .error (.invalidAscent text)

end Traversal

end SchemaWalk
