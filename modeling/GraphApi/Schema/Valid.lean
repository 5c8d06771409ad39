import GraphApi.Schema.Build

/-!
# Valid schemas

What a schema has to keep to before requests are made: there is a query type, the operation types
are object types, names are not reserved, types have members, interfaces are implemented in full,
and no required members of input types refer to each other in a circle.
-/

namespace GraphApi.Schema

/-! ## Enum values in defaults -/

def isListType : TypeRef → Bool
  | .list _ _ => true
  | .named _ _ => false

variable (schema : Schema)

def holdsEnums : TypeRef → Bool
  | .list _ _ => true
  | .named name _ => schema.kind? name = some .enum || schema.kind? name = some .input

def checkEnumValue (type value : Name) : Except Fault Unit :=
  match schema.type? type with
  | some { body := .enum values, .. } => if values.any (·.name == value) then .ok ()
      else .error .unknownEnumValue
  | _ => .ok ()

/-- Checks the enum values of a literal where a type is expected. Inside a list of lists, `nested`
tells that the literal stands where an inner list is expected. -/
def checkEnums : TypeRef → Literal → Except Fault Unit :=
  visit false
where
  visit (nested : Bool) (type : TypeRef) : Literal → Except Fault Unit
    | .list items =>
      match type with
      | .list item _ => if holdsEnums schema item then visitItems item items else .ok ()
      | .named _ _ => .ok ()
    | .object fields =>
      if nested then refuse type
      else
        match schema.inputMembers? type.base with
        | some members => visitFields members fields
        | none => .ok ()
    | .enum value => if nested then refuse type else checkEnumValue schema type.base value
    | _ => if nested then refuse type else .ok ()
  /-- Refuses a literal that is no list where the items of one would be looked at. -/
  refuse : TypeRef → Except Fault Unit
    | .list item _ => if holdsEnums schema item then .error .unnestedDefault else .ok ()
    | .named _ _ => .ok ()
  visitItems (type : TypeRef) : List Literal → Except Fault Unit
    | [] => .ok ()
    | item :: rest => do
      visit (isListType type) type item
      visitItems type rest
  visitFields (members : List ArgumentDef) : List (Name × Literal) → Except Fault Unit
    | [] => .ok ()
    | (name, item) :: rest => do
      match memberType members name with
      | some type => visit false type item
      | none => .ok ()
      visitFields members rest

def checkDefault (member : ArgumentDef) : Except Fault Unit :=
  match member.default with
  | some literal => schema.checkEnums member.type literal
  | none => .ok ()

def checkDefaults (type : SchemaType) : Except Fault Unit :=
  match type.body with
  | .object _ fields | .interface _ fields => fields.forM fun field =>
      field.arguments.forM schema.checkDefault
  | .input fields => fields.forM fun field => schema.checkDefault field.toArgument
  | .scalar | .union _ | .enum _ => .ok ()

def checkAllDefaults : Except Fault Unit :=
  schema.types.values.forM schema.checkDefaults

/-- Names with two underscores in front are reserved. -/
def isFreeName (name : Name) : Bool := !Text.startsWith "__" name

def hasRoots : Bool :=
  (schema.root? .query).isSome && schema.roots.all fun entry => schema.kind? entry.2 = some .object

/-- Whether something is deprecated: it carries the directive with a reason that is not null. -/
def isDeprecated (carried : List Directive) : Bool :=
  match findDirective carried Builtin.deprecatedDirective.name with
  | some directive =>
    match (directive.arguments.filter (·.1 == "reason")).getLast? with
    | some (_, .null) => false
    | _ => true
  | none => false

def isSoundArgument (arg : ArgumentDef) : Bool :=
  isFreeName arg.name && !(schema.isNeeded arg && isDeprecated arg.directives)

def hasSoundFields (fields : List FieldDef) : Bool :=
  !fields.isEmpty && fields.all fun field =>
    isFreeName field.name && field.arguments.all (isSoundArgument schema)

/-- Whether a member implements a member of an interface: its type fits, it takes the same
arguments, and it needs no others. -/
def implementsField (field expected : FieldDef) : Bool :=
  field.type.fits schema expected.type &&
    expected.arguments.all (fun arg => field.arguments.any fun own =>
      own.name = arg.name && own.type = arg.type) &&
    field.arguments.all fun own =>
      !schema.isNeeded own || expected.arguments.any (·.name == own.name)

def implements (interfaces : List Name) (fields : List FieldDef) (interface : Name) : Bool :=
  (schema.interfacesOf interface).all interfaces.contains &&
    (schema.fieldsOf interface).all fun expected =>
      fields.any fun field => field.name = expected.name && implementsField schema field expected

def implementsAll (name : Name) (interfaces : List Name) (fields : List FieldDef) : Bool :=
  areDistinct interfaces && !interfaces.contains name &&
    interfaces.all (schema.implements interfaces fields)

def isSoundType (type : SchemaType) : Bool :=
  isFreeName type.definition.name && match type.body with
    | .scalar => true
    | .object interfaces fields | .interface interfaces fields =>
      hasSoundFields schema fields && schema.implementsAll type.definition.name interfaces fields
    | .union members => !members.isEmpty && areDistinct members
    | .enum values => !values.isEmpty && values.all fun value => isFreeName value.name
    | .input fields => !fields.isEmpty && fields.all fun field =>
        isSoundArgument schema field.toArgument

def heldTypes (name : Name) : List Name :=
  ((schema.inputMembers? name).getD []).filterMap fun member =>
    match member.type with
    | .named held true => if (schema.inputMembers? held).isSome then some held else none
    | _ => none

def heldWithin : Nat → List Name → List Name
  | 0, names => names
  | levels + 1, names =>
    heldWithin levels (distinctBy id (names ++ names.flatMap schema.heldTypes))

/-- Whether no value of an input type has to hold another one of its own type. -/
def isFinite (name : Name) : Bool :=
  !(schema.heldWithin schema.types.length (schema.heldTypes name)).contains name

def isValid : Bool :=
  schema.hasRoots &&
    schema.directives.all (fun directive =>
      isFreeName directive.name && directive.arguments.all (isSoundArgument schema)) &&
    schema.types.values.all (fun type => isSoundType schema type) &&
    schema.types.keys.all schema.isFinite

def resolvedType : Name := "Mutation"

def checkResolvers (resolved : List Name) : Except Fault Unit :=
  if schema.kind? resolvedType = some .object &&
      resolved.all fun name => (schema.fieldsOf resolvedType).any (·.name == name) then .ok ()
  else .error .unboundResolver

/-- The valid schema of a document whose definitions keep to the rules. The fields that are to be
resolved, if that is asked for, have to exist. -/
def make (doc : Document) (resolved : Option (List Name)) : Except Fault Schema := do
  let schema ← buildSound doc
  if let some names := resolved then schema.checkResolvers names
  schema.checkAllDefaults
  demand schema.isValid
  return schema

end GraphApi.Schema
