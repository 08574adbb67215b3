import SchemaWalk.Introspection.Response
import SchemaWalk.Introspection.Request

/-! # A gate that asks for the schema until it has one, and never again -/
namespace SchemaWalk

structure Gate where
  schema : Option Schema := none

namespace Gate

def isLoaded (g : Gate) : Bool := g.schema.isSome

/-- The schema at hand, or else the one that the next reply holds. A failure leaves
the gate as it was. -/
def load (g : Gate) (c : Connection) : Except SchemaError Schema × Gate × Connection :=
  match g.schema with
  | some s => (.ok s, g, c)
  | none =>
    let (reply, c) := c.ask Introspection.request
    match reply with
    | .error reason => (.error (.transport reason), g, c)
    | .ok body =>
      match Introspection.load body with
      | .error e => (.error e, g, c)
      | .ok loaded => (.ok loaded.schema, ⟨some loaded.schema⟩, c)

end Gate

end SchemaWalk
