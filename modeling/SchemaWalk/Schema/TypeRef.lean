import SchemaWalk.Schema.Kind

/-! # References to types: chains of wrappers around a named type -/
namespace SchemaWalk

/-- One link of a reference. In a well-formed reference wrappers have no name and
the last link has one. -/
structure Link where
  kind : Kind
  name : Option String
deriving DecidableEq

/-- A chain of links that is never empty, from the outermost one inward. -/
structure TypeRef where
  outer : Link
  inner : List Link
deriving DecidableEq

namespace TypeRef

def named (kind : Kind) (name : String) : TypeRef := ⟨⟨kind, some name⟩, []⟩

def links (t : TypeRef) : List Link := t.outer :: t.inner

def wrap (kind : Kind) (t : TypeRef) : TypeRef := ⟨⟨kind, none⟩, t.links⟩

def list (t : TypeRef) : TypeRef := t.wrap .list

def nonNull (t : TypeRef) : TypeRef := t.wrap .nonNull

def unwrap? (t : TypeRef) : Option TypeRef :=
  match t.inner with
  | [] => none
  | l :: rest => some ⟨l, rest⟩

def last (t : TypeRef) : Link := t.inner.getLastD t.outer

/-- The name of the type that is wrapped; `none` if the last link has no name. -/
def typeName? (t : TypeRef) : Option String := t.last.name

/-- What a link of the given kind shows around a text. Objects and interfaces show nothing, and
neither does the mark that a value is never null. -/
def decorate (kind : Kind) (text : List Char) : List Char :=
  match kind with
  | .nonNull | .object | .interface => text
  | .scalar => '\x7b' :: text ++ ['\x7d']
  | .list => '[' :: ']' :: text
  | other => other.displayName.toList ++ '<' :: text ++ ['>']

/-- The text shown for a reference: the name, decorated by the links from the outermost one inward,
so that the kind of the named type stands outside of the list marks. -/
def display (t : TypeRef) : String :=
  String.ofList
    (t.links.foldl (fun text link => decorate link.kind text) (t.typeName?.getD "").toList)

end TypeRef

end SchemaWalk
