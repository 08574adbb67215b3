/-! # The document that asks a service for its schema -/
namespace SchemaWalk.Introspection

def block (opening : String) (inside : List String) : List String :=
  (opening ++ " \x7b") :: inside.map ("  " ++ ·) ++ ["\x7d"]

/-- A reference to a type with as many links below it as `depth` says. -/
def referenceLines : Nat → List String
  | 0 => ["kind", "name"]
  | depth + 1 => ["kind", "name"] ++ block "ofType" (referenceLines depth)

def operationLines : List String :=
  block "query IntrospectionQuery" <| block "__schema" <|
    block "queryType" ["name"] ++ block "mutationType" ["name"] ++
      block "subscriptionType" ["name"] ++
      block "types" ["...FullType"] ++
      block "directives" (["name", "description", "locations"] ++ block "args" ["...InputValue"])

def typeLines : List String :=
  block "fragment FullType on __Type" <|
    ["kind", "name", "description"] ++
      block "fields(includeDeprecated: true)" (["name", "description"] ++
        block "args" ["...InputValue"] ++ block "type" ["...TypeRef"] ++
        ["isDeprecated", "deprecationReason"]) ++
      block "inputFields" ["...InputValue"] ++ block "interfaces" ["...TypeRef"] ++
      block "enumValues(includeDeprecated: true)"
        ["name", "description", "isDeprecated", "deprecationReason"] ++
      block "possibleTypes" ["...TypeRef"]

def inputValueLines : List String :=
  block "fragment InputValue on __InputValue" <|
    ["name", "description"] ++ block "type" ["...TypeRef"] ++ ["defaultValue"]

/-- Nine links below the outermost one are enough for three lists that are never null,
inside of each other. -/
def typeRefLines : List String := block "fragment TypeRef on __Type" (referenceLines 9)

def request : String :=
  "\n" ++
    "\n\n".intercalate
      ([operationLines, typeLines, inputValueLines, typeRefLines].map ("\n".intercalate ·)) ++ "\n"

end SchemaWalk.Introspection
