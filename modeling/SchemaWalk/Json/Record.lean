import SchemaWalk.Json.Reader
import SchemaWalk.Json.Skip

/-! # Reading JSON of a known shape: records, lists, optional parts and enumerations -/
namespace SchemaWalk.Json

variable {α δ : Type}

/-- The value at the front, if it is well formed, stands where `expected` was asked for. Nothing is
read of a list or an object. -/
def wrongType (limit : Nat) (expected : String) : Bytes → Except Fault α := fun s => do
  let (found, s) ← anyValue limit (fun s => .ok (.array [], 0x5B :: s))
    (fun s => .ok (.object [], 0x7B :: s)) s
  refuse (.wrongType found expected) s

def string (limit : Nat) : Reader String := fun s =>
  match skipBlanks s with
  | [] => refuseNext .endInValue []
  | b :: s => if b = 0x22 then stringTail limit s else wrongType limit "a string" (b :: s)

def boolean (limit : Nat) : Reader Bool := fun s =>
  match skipBlanks s with
  | [] => refuseNext .endInValue []
  | b :: s =>
    if b = 0x74 then do
      let (_, s) ← restOfTrue s
      .ok (true, s)
    else if b = 0x66 then do
      let (_, s) ← restOfFalse s
      .ok (false, s)
    else wrongType limit "a boolean" (b :: s)

def optional (reader : Reader α) : Reader (Option α) := fun s =>
  match skipBlanks s with
  | 0x6E :: s => do
    let (_, s) ← restOfNull s
    .ok (none, s)
  | s => do
    let (a, s) ← reader s
    .ok (some a, s)

/-- What may stand one level further in, if there is such a level. -/
def nested (reader : Nat → α) : Nat → Option α
  | 0 => none
  | depth + 1 => some (reader depth)

/-- A list of what `item` reads; `none` where lists and objects may not be nested any deeper. -/
def list (limit : Nat) (item : Option (Reader α)) : Reader (List α) := fun s =>
  match skipBlanks s with
  | [] => refuseNext .endInValue []
  | b :: s =>
    if b = 0x5B then
      match item with
      | none => refuse .tooDeep s
      | some item => items item limit true [] s
    else wrongType limit "a sequence" (b :: s)

def listOrNull (limit : Nat) (item : Option (Reader α)) : Reader (List α) := fun s => do
  let (xs, s) ← optional (list limit item) s
  .ok (xs.getD [], s)

/-- A member of a record: its name, and a reader for the change that its value
makes to the draft. -/
structure Member (δ : Type) where
  name : String
  read : Reader (δ → δ)

/-- A record under construction begins as `blank`, and `complete` makes it whole or names the first
member that may not be absent. The members stand in the order in which a list spells them. -/
structure Shape (δ α : Type) where
  members : List (Member δ)
  blank : δ
  complete : δ → Except String α

def Member.storing {β : Type} (name : String) (reader : Reader β) (store : β → δ → δ) : Member δ :=
  ⟨name, fun s => do
    let (b, s) ← reader s
    .ok (store b, s)⟩

/-- The members as successive items of a list, which may end before all are given.
Tells whether it did. -/
def inOrder : List (Member δ) → Bool → δ → Reader (δ × Bool)
  | [], _, draft, s => .ok ((draft, false), s)
  | m :: ms, first, draft, s => do
    let (more, s) ← nextItem first s
    if more then
      let (change, s) ← m.read s
      inOrder ms false (change draft) s
    else .ok ((draft, true), s)

/-- A record after the opening bracket of a list. Members at the end may be left out if the record
is complete then. -/
def recordAsList (record : String) (shape : Shape δ α) : Reader α := fun s => do
  let ((draft, _), s) ← inOrder shape.members true shape.blank s
  match shape.complete draft with
  | .ok a => do
    let (_, s) ← endOfList s
    .ok (a, s)
  | .error name =>
    -- The bracket that ends the list too early is read all the same.
    let length := shape.members.findIdx (·.name = name)
    refuse (.wrongLength length record shape.members.length) (s.drop 1)

/-- The value of a member after its name. A name that occurred before is refused, and unknown
members are passed over. The state holds the names so far and the draft. -/
def recordMember (limit : Nat) (known : List (Member δ)) (name : String) (state : List String × δ) :
    Reader (List String × δ) := fun s =>
  match known.find? (·.name = name) with
  | some m =>
    if state.1.contains name then
      -- A brace that would end the record here is read all the same.
      let rest := match skipBlanks s with | 0x7D :: s => s | s => s
      refuse (.duplicateMember name) rest
    else do
      let (_, s) ← colon s
      let (change, s) ← m.read s
      .ok ((name :: state.1, change state.2), s)
  | none => do
    let (_, s) ← colon s
    let (_, s) ← skip limit s
    .ok (state, s)

def recordAsObject (limit : Nat) (shape : Shape δ α) : Reader α := fun s => do
  let ((_, draft), s) ← members limit (recordMember limit shape.members) limit true
    ([], shape.blank) s
  match shape.complete draft with
  | .ok a => .ok (a, s)
  | .error name => refuse (.missingMember name) s

def record (limit : Nat) (name : String) (shape : Option (Shape δ α)) : Reader α := fun s =>
  match skipBlanks s with
  | [] => refuseNext .endInValue []
  | b :: s =>
    if b = 0x5B then
      match shape with
      | none => refuse .tooDeep s
      | some shape => recordAsList name shape s
    else if b = 0x7B then
      match shape with
      | none => refuse .tooDeep s
      | some shape => recordAsObject limit shape s
    else wrongType limit s!"struct {name}" (b :: s)

/-- One of the given words as a string, or as the name of the only member of an object, whose value
is null then. `nested` tells whether an object may stand here. -/
def variant (limit : Nat) (nested : Bool) (variants : List (String × α)) : Reader α := fun s =>
  let choose (text : String) (s : Bytes) : Except Fault (α × Bytes) :=
    match variants.lookup text with
    | some a => .ok (a, s)
    | none => refuse (.unknownVariant text (variants.map (·.1))) s
  match skipBlanks s with
  | [] => refuseNext .endInValue []
  | b :: s =>
    if b = 0x22 then do
      let (text, s) ← stringTail limit s
      choose text s
    else if b = 0x7B then
      if !nested then refuse .tooDeep s
      else do
        -- The name is asked for as that of any member of an object is, and so are the faults there.
        let (named, s) ← nextMember true s
        if named then
          let (text, s) ← stringTail limit (s.drop 1)
          let (a, s) ← choose text s
          let (_, s) ← colon s
          let (_, s) ← nothing s
          match skipBlanks s with
          | [] => refuseNext .endInObject []
          | b :: s => if b = 0x7D then .ok (a, s) else refuse .expectedValue (b :: s)
        else refuseNext .expectedValue s
    else refuseNext .expectedValue (b :: s)
where
  nothing : Reader Unit := fun s =>
    match skipBlanks s with
    | 0x6E :: s => restOfNull s
    | s => wrongType limit "unit" s

end SchemaWalk.Json
