import GraphApi.Document.Basic

/-!
# Types and directives that every schema has

The five scalars, the types by which a schema describes itself, and four directives.
-/

namespace GraphApi.Builtin

def scalarNames : List Name := ["String", "Int", "Float", "Boolean", "ID"]

def member (name type : Name) (wrappers : Wrappers) : FieldDef :=
  { name, type := wrappers.wrap type }

def fullList : Wrappers := { list := true, requiredItem := true, requiredList := true }

def deprecatedArgument : ArgumentDef :=
  { name := "includeDeprecated", type := .plain "Boolean", default := some (.bool false) }

/-- A member that leaves out what is deprecated unless asked for it. -/
def filtered (name type : Name) (wrappers : Wrappers) : FieldDef :=
  { member name type wrappers with arguments := [deprecatedArgument] }

def object (name : Name) (fields : List FieldDef) : TypeDef :=
  { name, body := .object [] fields }

def enum (name : Name) (values : List Name) : TypeDef :=
  { name, body := .enum (values.map fun value => { name := value }) }

def deprecation : List FieldDef :=
  [member "isDeprecated" "Boolean" .required, member "deprecationReason" "String" {}]

def introspectionTypes : List TypeDef :=
  [object "__Schema"
    [member "description" "String" {}, member "types" "__Type" fullList,
     member "queryType" "__Type" .required,
     member "mutationType" "__Type" {}, member "subscriptionType" "__Type" {},
     member "directives" "__Directive" fullList],
   object "__Directive"
    [member "name" "String" .required, member "description" "String" {},
     member "isRepeatable" "Boolean" .required,
     member "locations" "__DirectiveLocation" fullList, filtered "args" "__InputValue" fullList],
   enum "__DirectiveLocation" (DirectivePlace.words.map (·.1)),
   object "__Type"
    [member "kind" "__TypeKind" .required, member "name" "String" {},
     member "description" "String" {},
     member "specifiedByURL" "String" {}, filtered "fields" "__Field" .listOfRequired,
     member "interfaces" "__Type" .listOfRequired, member "possibleTypes" "__Type" .listOfRequired,
     filtered "enumValues" "__EnumValue" .listOfRequired,
     filtered "inputFields" "__InputValue" .listOfRequired, member "ofType" "__Type" {}],
   object "__Field"
    ([member "name" "String" .required, member "description" "String" {},
      filtered "args" "__InputValue" fullList,
      member "type" "__Type" .required] ++ deprecation),
   object "__InputValue"
    ([member "name" "String" .required, member "description" "String" {},
      member "type" "__Type" .required,
      member "defaultValue" "String" {}] ++ deprecation),
   object "__EnumValue"
    ([member "name" "String" .required, member "description" "String" {}] ++ deprecation),
   enum "__TypeKind" ["SCALAR", "OBJECT", "INTERFACE", "UNION", "ENUM", "INPUT_OBJECT",
    "LIST", "NON_NULL"]]

def types : List TypeDef :=
  scalarNames.map (fun name => { name, body := .scalar }) ++ introspectionTypes

def type? (name : Name) : Option TypeDef :=
  types.find? (·.name == name)

def isName (name : Name) : Bool := (type? name).isSome

def conditional (name : Name) : DirectiveDef :=
  { name, arguments := [{ name := "if", type := Wrappers.required.wrap "Boolean" }],
    places := [.field, .fragmentSpread, .inlineFragment] }

def includeDirective : DirectiveDef := conditional "include"

def skipDirective : DirectiveDef := conditional "skip"

def deprecatedDirective : DirectiveDef :=
  { name := "deprecated",
    arguments := [{ name := "reason", type := .plain "String", default := some (.text "No longer supported" false) }],
    places := [.fieldDefinition, .argumentDefinition, .inputFieldDefinition, .enumValue] }

def specifiedByDirective : DirectiveDef :=
  { name := "specifiedBy",
    arguments := [{ name := "url", type := Wrappers.required.wrap "String" }], places := [.scalar] }

def directives : List DirectiveDef :=
  [includeDirective, skipDirective, deprecatedDirective, specifiedByDirective]

end GraphApi.Builtin
