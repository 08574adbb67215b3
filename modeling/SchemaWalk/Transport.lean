/-! # Requests to a service and the replies to them -/
namespace SchemaWalk

inductive TransportError where
  | invalidHeader (header : String)
  | request (reason : String)
  | other (reason : String)
deriving DecidableEq

def TransportError.message : TransportError → String
  | .invalidHeader header => s!"Invalid request header `{header}`: expected `Name: value`"
  | .request reason => s!"Request failed: {reason}"
  | .other reason => reason

/-- The bytes that a service sends back, or a failure. -/
abbrev Reply := Except TransportError (List UInt8)

/-- A connection: the documents sent so far, first one first, and the reply to each request by its
number. A failed request counts like any other. -/
structure Connection where
  replies : Nat → Reply
  sent : List String := []

namespace Connection

/-- Replies as recorded, and `afterwards` to every request beyond them. -/
def ofReplies (recorded : List Reply) (afterwards : Reply) : Connection :=
  { replies := fun n => recorded.getD n afterwards }

def ask (c : Connection) (document : String) : Reply × Connection :=
  (c.replies c.sent.length, { c with sent := c.sent ++ [document] })

end Connection

end SchemaWalk
