import GraphApi.Schema.Definitions
import GraphApi.Schema.Literal

/-!
# Building schemas

A schema is built from the definitions of a document. Every name has to stand for a type, of a kind
that fits: members return output types and take input types, interfaces are implemented and unions
hold object types.
-/

namespace GraphApi

namespace Schema

def demand (condition : Bool) : Except Fault Unit :=
  if condition then .ok () else .error .typeSystem

/-- The value of the one argument of a built-in directive on something, which has to be a text or
left out. Null is allowed if the argument is not required. -/
def checkNote (directive : DirectiveDef) (carried : List Directive) : Except Fault Unit :=
  match findDirective carried directive.name with
  | none => .ok ()
  | some written =>
    if directive.arguments.all fun arg =>
      match (written.arguments.filter (·.1 == arg.name)).getLast? with
      | none => !arg.isDemanded
      | some (_, .text _ _) => true
      | some (_, .null) => !arg.type.required
      | some _ => false
    then .ok () else .error .request

def checkDeprecation (carried : List Directive) : Except Fault Unit :=
  checkNote Builtin.deprecatedDirective carried

variable (schema : Schema)

/-- Enters the input types that a literal reaches where a type is expected, in the order of their
members and up to the first part that does not fit. A type with parts to select has no literals at
all. -/
def enterLiteral (enter : Name → List Name → Except Fault (List Name)) :
    TypeRef → Literal → List Name → Except Fault (List Name) :=
  visit
where
  visit (type : TypeRef) : Literal → List Name → Except Fault (List Name)
    | .null, entered => .ok entered
    | .list items, entered =>
      match type with
      | .list item _ => visitItems item items entered
      | .named name _ => do
        demand !(schema.isComposite name)
        return entered
    | .object fields, entered => do
      demand !(schema.isComposite type.base)
      match schema.inputMembers? type.base with
      | some members => visitMembers (visitFields members fields) members (← enter type.base entered)
      | none => return entered
    | _, entered => do
      demand !(schema.isComposite type.base)
      return entered
  visitItems (type : TypeRef) : List Literal → List Name → Except Fault (List Name)
    | [], entered => .ok entered
    | item :: rest, entered => do
      let entered ← visit type item entered
      if (schema.literal? [] type item).isSome then visitItems type rest entered else return entered
  /-- What is entered for each member that is given, and whether its value fits. -/
  visitFields (members : List ArgumentDef) :
      List (Name × Literal) → NameMap ((List Name → Except Fault (List Name)) × Bool)
    | [] => []
    | (name, item) :: rest =>
      match memberType members name with
      | some type => (name, visit type item, (schema.literal? [] type item).isSome) :: visitFields members rest
      | none => visitFields members rest
  visitMembers (given : NameMap ((List Name → Except Fault (List Name)) × Bool)) :
      List ArgumentDef → List Name → Except Fault (List Name)
    | [], entered => .ok entered
    | member :: rest, entered =>
      match (NameMap.ofList given).get? member.name with
      | some (step, fits) => do
        let entered ← step entered
        if fits then visitMembers given rest entered else return entered
      | none => if schema.isNeeded member then .ok entered else visitMembers given rest entered

/-- An argument or a member of an input type takes an input type. Its default makes the input types
that it reaches be looked at before anything else. Gives the input types that have been looked at so
far. -/
def checkArgument (enter : Name → List Name → Except Fault (List Name)) (arg : ArgumentDef)
    (entered : List Name) : Except Fault (List Name) := do
  demand (schema.kind? arg.type.base).isSome
  let entered ← match arg.default with
    | some literal => enterLiteral schema enter arg.type literal entered
    | none => pure entered
  checkDeprecation arg.directives
  demand (schema.isInput arg.type.base)
  return entered

/-- Looks at the members of an input type, unless that has been done. No input type can need itself
for that; `path` holds those that are being looked at, and the number of levels bounds its
length. -/
def enterInput : Nat → List Name → Name → List Name → Except Fault (List Name)
  | 0, _, _, _ => .error .typeSystem
  | levels + 1, path, name, entered => do
    if entered.contains name then return entered
    demand !(path.contains name)
    let members := ((schema.type? name).map fun type =>
      type.writtenFields.map (·.toArgument)).getD []
    let entered ← members.foldlM
      (fun entered member => checkArgument schema (enterInput levels (name :: path)) member entered)
        entered
    return name :: entered

def checkArguments (arguments : List ArgumentDef) (entered : List Name) :
    Except Fault (List Name) :=
  arguments.foldlM (fun entered arg =>
    checkArgument schema (enterInput schema (schema.types.length + 1) []) arg entered) entered

def checkField (field : FieldDef) (entered : List Name) : Except Fault (List Name) := do
  demand (schema.kind? field.type.base).isSome
  let entered ← checkArguments schema field.arguments entered
  checkDeprecation field.directives
  demand (schema.isOutput field.type.base)
  return entered

def hasFittingExtensions (type : SchemaType) : Bool :=
  type.extensions.all fun extn => extn.body.kind = type.definition.body.kind

def checkValues : TypeBody → Except Fault Unit
  | .enum values => values.forM fun value => checkDeprecation value.directives
  | _ => .error .lacksFields

def checkHead (type : SchemaType) : Except Fault Unit := do
  match type.body with
  | .scalar => checkNote Builtin.specifiedByDirective type.definition.directives
  | .enum _ => (type.definition.body :: type.extensions.map (·.body)).forM checkValues
  | _ => pure ()
  demand (hasFittingExtensions type)

def checkMembers (type : SchemaType) (entered : List Name) : Except Fault (List Name) := do
  match type.body with
  | .object interfaces _ | .interface interfaces _ =>
    demand (interfaces.all fun name => schema.kind? name = some .interface)
    type.writtenFields.foldlM (fun entered field => checkField schema field entered) entered
  | .union members =>
    demand (members.all fun name => schema.kind? name = some .object)
    return entered
  | .input _ => enterInput schema (schema.types.length + 1) [] type.definition.name entered
  | .scalar | .enum _ => return entered

/-- Checks that every name stands for a type of a fitting kind. The types come as they are declared,
also those that others of the same name replace. -/
def check (declared : List SchemaType) (operations : List Name) : Except Fault Unit := do
  declared.forM checkHead
  demand (operations.all fun name => (schema.kind? name).isSome)
  let entered ← schema.directives.foldlM
    (fun entered directive => checkArguments schema directive.arguments entered) []
  let _ ← schema.types.values.foldlM (fun entered type => checkMembers schema type entered) entered

def build (doc : Document) : Except Fault Schema := do
  let schema := assemble doc
  let defined := (doc.schemaDefs.getLast?.map (·.operations)).getD []
  schema.check (Document.declaredTypes doc) ((defined ++ doc.extendedOperations).map (·.2))
  return schema

def buildSound (doc : Document) : Except Fault Schema := do
  demand (Document.isSound doc)
  build doc

end Schema

end GraphApi
