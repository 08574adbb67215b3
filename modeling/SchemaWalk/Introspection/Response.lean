import SchemaWalk.Json.Record
import SchemaWalk.Schema.Basic
import SchemaWalk.Transport

/-! # Reading a schema from the reply to the introspection document -/
namespace SchemaWalk

inductive SchemaError where
  | transport (reason : TransportError)
  | undecodable (error : Json.Error)
  | reported (messages : List String)
  | missingData
  | noQueryType
  | missingQueryType (name : String)

def SchemaError.message : SchemaError → String
  | .transport reason => s!"Failed to send the introspection query: {reason.message}"
  | .undecodable error => s!"Failed to decode the introspection response: {error.message}"
  | .reported messages =>
    let text := "; ".intercalate messages
    s!"The introspection query returned errors: {text}"
  | .missingData => "The introspection response contained no `data`"
  | .noQueryType => "The schema does not declare a query root type"
  | .missingQueryType name => s!"The schema's query root type `{name}` is not defined in the schema"

namespace Introspection

open Json

variable (limit : Nat)

def kind (depth : Nat) : Reader Kind :=
  variant limit (0 < depth) (Kind.all.map fun k => (k.wireName, k))

def optionalString : Reader (Option String) := optional (string limit)

structure LinkDraft where
  kind : Option Kind := none
  name : Option String := none
  below : Option TypeRef := none

def linkShape (depth : Nat) (below : Reader TypeRef) : Shape LinkDraft TypeRef where
  members := [
    .storing "kind" (kind limit depth) fun x d => { d with kind := some x },
    .storing "name" (optionalString limit) fun x d => { d with name := x },
    .storing "ofType" (optional below) fun x d => { d with below := x }]
  blank := {}
  complete d :=
    match d.kind with
    | none => .error "kind"
    | some k => .ok ⟨⟨k, d.name⟩, match d.below with | none => [] | some t => t.links⟩

def typeRef : Nat → Reader TypeRef
  | 0 => record (δ := LinkDraft) limit "TypeRef" none
  | depth + 1 => record limit "TypeRef" (some (linkShape limit depth (typeRef depth)))

structure InputValueDraft where
  name : Option String := none
  description : Option String := none
  type : Option TypeRef := none
  defaultValue : Option String := none

def inputValueShape (depth : Nat) : Shape InputValueDraft InputValue where
  members := [
    .storing "name" (string limit) fun x d => { d with name := some x },
    .storing "description" (optionalString limit) fun x d => { d with description := x },
    .storing "type" (typeRef limit depth) fun x d => { d with type := some x },
    .storing "defaultValue" (optionalString limit) fun x d => { d with defaultValue := x }]
  blank := {}
  complete d :=
    match d.name, d.type with
    | none, _ => .error "name"
    | _, none => .error "type"
    | some name, some type => .ok ⟨name, d.description, type, d.defaultValue⟩

def inputValue (depth : Nat) : Reader InputValue :=
  record limit "InputValue" (nested (inputValueShape limit) depth)

structure FieldDraft where
  name : Option String := none
  description : Option String := none
  arguments : List InputValue := []
  type : Option TypeRef := none
  isDeprecated : Bool := false
  deprecationReason : Option String := none

def fieldShape (depth : Nat) : Shape FieldDraft Field where
  members := [
    .storing "name" (string limit) fun x d => { d with name := some x },
    .storing "description" (optionalString limit) fun x d => { d with description := x },
    .storing "args" (listOrNull limit (nested (inputValue limit) depth)) fun x d =>
      { d with arguments := x },
    .storing "type" (typeRef limit depth) fun x d => { d with type := some x },
    .storing "isDeprecated" (boolean limit) fun x d => { d with isDeprecated := x },
    .storing "deprecationReason" (optionalString limit) fun x d =>
      { d with deprecationReason := x }]
  blank := {}
  complete d :=
    match d.name, d.type with
    | none, _ => .error "name"
    | _, none => .error "type"
    | some name, some type =>
      .ok ⟨name, d.description, d.arguments, type, d.isDeprecated, d.deprecationReason⟩

def field (depth : Nat) : Reader Field :=
  record limit "SchemaField" (nested (fieldShape limit) depth)

structure EnumValueDraft where
  name : Option String := none
  description : Option String := none
  isDeprecated : Bool := false
  deprecationReason : Option String := none

def enumValueShape (_depth : Nat) : Shape EnumValueDraft EnumValue where
  members := [
    .storing "name" (string limit) fun x d => { d with name := some x },
    .storing "description" (optionalString limit) fun x d => { d with description := x },
    .storing "isDeprecated" (boolean limit) fun x d => { d with isDeprecated := x },
    .storing "deprecationReason" (optionalString limit) fun x d =>
      { d with deprecationReason := x }]
  blank := {}
  complete d :=
    match d.name with
    | none => .error "name"
    | some name => .ok ⟨name, d.description, d.isDeprecated, d.deprecationReason⟩

def enumValue (depth : Nat) : Reader EnumValue :=
  record limit "EnumValue" (nested (enumValueShape limit) depth)

structure TypeDefDraft where
  kind : Option Kind := none
  name : String := ""
  description : Option String := none
  fields : List Field := []
  inputFields : List InputValue := []
  interfaces : List TypeRef := []
  enumValues : List EnumValue := []
  possibleTypes : List TypeRef := []

def typeDefShape (depth : Nat) : Shape TypeDefDraft TypeDef where
  members := [
    .storing "kind" (kind limit depth) fun x d => { d with kind := some x },
    .storing "name" (string limit) fun x d => { d with name := x },
    .storing "description" (optionalString limit) fun x d => { d with description := x },
    .storing "fields" (listOrNull limit (nested (field limit) depth)) fun x d =>
      { d with fields := x },
    .storing "inputFields" (listOrNull limit (nested (inputValue limit) depth)) fun x d =>
      { d with inputFields := x },
    .storing "interfaces" (listOrNull limit (nested (typeRef limit) depth)) fun x d =>
      { d with interfaces := x },
    .storing "enumValues" (listOrNull limit (nested (enumValue limit) depth)) fun x d =>
      { d with enumValues := x },
    .storing "possibleTypes" (listOrNull limit (nested (typeRef limit) depth)) fun x d =>
      { d with possibleTypes := x }]
  blank := {}
  complete d :=
    match d.kind with
    | none => .error "kind"
    | some kind =>
      let bare : TypeDef := { d with kind, fields := [] }
      .ok (bare.addFields d.fields)

def typeDef (depth : Nat) : Reader TypeDef :=
  record limit "SchemaType" (nested (typeDefShape limit) depth)

/-- A record whose only member is a text that may not be absent. -/
def singleText (record member : String) (depth : Nat) : Reader String :=
  Json.record limit record (nested (fun _ => {
    members := [.storing member (string limit) fun x _ => some x]
    blank := none
    complete := fun d => match d with | none => .error member | some text => .ok text }) depth)

/-- What a service tells about its schema: the names of the types where operations
begin, and all types. -/
structure Description where
  query : Option String := none
  mutation : Option String := none
  subscription : Option String := none
  types : List TypeDef := []

def descriptionShape (depth : Nat) : Shape Description Description where
  members :=
    let root := optional (singleText limit "RootTypeName" "name" depth)
    [.storing "queryType" root fun x d => { d with query := x },
      .storing "mutationType" root fun x d => { d with mutation := x },
      .storing "subscriptionType" root fun x d => { d with subscription := x },
      .storing "types" (listOrNull limit (nested (typeDef limit) depth)) fun x d =>
        { d with types := x }]
  blank := {}
  complete := .ok

def description (depth : Nat) : Reader Description :=
  record limit "WireSchema" (nested (descriptionShape limit) depth)

def dataShape (depth : Nat) : Shape (Option Description) Description where
  members := [.storing "__schema" (description limit depth) fun x _ => some x]
  blank := none
  complete d :=
    match d with
    | none => .error "__schema"
    | some x => .ok x

structure Response where
  data : Option Description := none
  errors : Option (List String) := none

def responseShape (depth : Nat) : Shape Response Response where
  members := [
    .storing "data" (optional (record limit "IntrospectionData" (nested (dataShape limit) depth)))
    fun x d => { d with data := x },
    .storing "errors"
      (optional (list limit (nested (singleText limit "ResponseError" "message") depth))) fun x d =>
      { d with errors := x }]
  blank := {}
  complete := .ok

def response (depth : Nat) : Reader Response :=
  record limit "IntrospectionResponse" (nested (responseShape limit) depth)

/-- Reads a whole input that has the shape of `reader` and is nested no deeper than
any JSON text may be. -/
def decode {α : Type} (reader : Nat → Nat → Reader α) (body : Bytes) : Except Json.Error α :=
  (readAll (fun limit => reader limit maxDepth) body).mapError (·.locate body)

/-- A schema, and the names of types that the reply defines more than once. -/
structure Loaded where
  schema : Schema
  redefined : List String

def Description.schema (d : Description) : Except SchemaError Loaded :=
  match d.query with
  | none => .error .noQueryType
  | some query =>
    match Schema.ofTypes? query d.types with
    | none => .error (.missingQueryType query)
    | some s =>
      .ok ⟨{ s with mutationName := d.mutation, subscriptionName := d.subscription },
        Schema.redefined d.types⟩

/-- Data counts even beside errors; without data the errors are reported, if there are any. -/
def Response.schema (r : Response) : Except SchemaError Loaded :=
  match r.data, r.errors with
  | some d, _ => d.schema
  | none, some (e :: es) => .error (.reported (e :: es))
  | none, _ => .error .missingData

def load (body : Bytes) : Except SchemaError Loaded :=
  match decode response body with
  | .ok r => r.schema
  | .error error => .error (.undecodable error)

end Introspection

end SchemaWalk
