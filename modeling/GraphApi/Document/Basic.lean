import GraphApi.NameMap

/-!
# GraphQL documents

The abstract form of a document: literals, type references, type system definitions and extensions,
operations and fragments. A type reference carries its non-null marker on the named type or on the
list, so a marker never stands on a marker.
-/

namespace GraphApi

/-- A literal as it is written; numbers keep their spelling. -/
inductive Literal where
  | int (digits : String)
  | float (digits : String)
  | text (content : String) (block : Bool)
  | bool (value : Bool)
  | null
  | enum (name : Name)
  | var (name : Name)
  | list (items : List Literal)
  | object (fields : List (Name × Literal))

instance : Inhabited Literal := ⟨.null⟩

mutual

def Literal.decEq (one other : Literal) : Decidable (one = other) :=
  if h : one.ctorIdx = other.ctorIdx then
    match one, other, h with
    | .int a, .int b, _ => decidable_of_iff (a = b) (by simp)
    | .float a, .float b, _ => decidable_of_iff (a = b) (by simp)
    | .text a x, .text b y, _ => decidable_of_iff (a = b ∧ x = y) (by simp)
    | .bool a, .bool b, _ => decidable_of_iff (a = b) (by simp)
    | .null, .null, _ => isTrue rfl
    | .enum a, .enum b, _ => decidable_of_iff (a = b) (by simp)
    | .var a, .var b, _ => decidable_of_iff (a = b) (by simp)
    | .list a, .list b, _ => have := Literal.decEqAll a b; decidable_of_iff (a = b) (by simp)
    | .object a, .object b, _ => have := Literal.decEqFields a b; decidable_of_iff (a = b) (by simp)
  else isFalse fun e => h (e ▸ rfl)

def Literal.decEqAll : (some others : List Literal) → Decidable (some = others)
  | [], [] => isTrue rfl
  | [], _ :: _ | _ :: _, [] => isFalse nofun
  | a :: rest, b :: others =>
    have := a.decEq b
    have := Literal.decEqAll rest others
    decidable_of_iff (a = b ∧ rest = others) (by simp)

def Literal.decEqFields : (some others : List (Name × Literal)) → Decidable (some = others)
  | [], [] => isTrue rfl
  | [], _ :: _ | _ :: _, [] => isFalse nofun
  | (name, a) :: rest, (key, b) :: others =>
    have := a.decEq b
    have := Literal.decEqFields rest others
    decidable_of_iff (name = key ∧ a = b ∧ rest = others) (by simp [and_assoc])

end

instance : DecidableEq Literal := Literal.decEq

/-- A reference to a type: a name or a list of references, each possibly required. -/
inductive TypeRef where
  | named (name : Name) (required : Bool)
  | list (item : TypeRef) (required : Bool)
deriving DecidableEq, Repr

structure Directive where
  name : Name
  arguments : List (Name × Literal) := []
deriving DecidableEq

structure Description where
  content : String
  block : Bool
deriving DecidableEq, Repr

structure ArgumentDef where
  description : Option Description := none
  name : Name
  type : TypeRef
  default : Option Literal := none
  directives : List Directive := []
deriving DecidableEq

/-- A member of an object, interface or input object type. Only a member of an input object type has
a default, and only a member of the other two has arguments. -/
structure FieldDef where
  description : Option Description := none
  name : Name
  arguments : List ArgumentDef := []
  type : TypeRef
  default : Option Literal := none
  directives : List Directive := []
  /-- A generated field of an operation type stays a field, even if the type is declared as an input
  type. -/
  isOperation : Bool := false
deriving DecidableEq

structure EnumValueDef where
  description : Option Description := none
  name : Name
  directives : List Directive := []
deriving DecidableEq

inductive TypeBody where
  | scalar
  | object (interfaces : List Name) (fields : List FieldDef)
  | interface (interfaces : List Name) (fields : List FieldDef)
  | union (members : List Name)
  | enum (values : List EnumValueDef)
  | input (fields : List FieldDef)
deriving DecidableEq

structure TypeDef where
  description : Option Description := none
  name : Name
  directives : List Directive := []
  body : TypeBody
deriving DecidableEq

structure TypeExt where
  name : Name
  directives : List Directive := []
  body : TypeBody

inductive OperationKind where
  | query
  | mutation
  | subscription
deriving DecidableEq, Repr

structure SchemaDef where
  description : Option Description := none
  directives : List Directive := []
  operations : List (OperationKind × Name)

inductive DirectivePlace where
  | query | mutation | subscription | field | fragmentDefinition | fragmentSpread | inlineFragment
  | variableDefinition | schema | scalar | object | fieldDefinition | argumentDefinition | interface | union
  | enum | enumValue | inputObject | inputFieldDefinition
deriving DecidableEq, Repr

structure DirectiveDef where
  description : Option Description := none
  name : Name
  arguments : List ArgumentDef := []
  repeatable : Bool := false
  places : List DirectivePlace

/-- One selection of an operation or a fragment. A field without sub-selections has none at all. -/
inductive Selection where
  | field (label : Option Name) (name : Name) (arguments : List (Name × Literal))
      (directives : List Directive) (selections : List Selection)
  | spread (fragment : Name) (directives : List Directive)
  | inline (condition : Option Name) (directives : List Directive) (selections : List Selection)

instance : Inhabited Selection := ⟨.spread "" []⟩

structure VariableDef where
  name : Name
  type : TypeRef
  default : Option Literal := none
  directives : List Directive := []

structure OperationDef where
  kind : OperationKind
  name : Option Name := none
  variableDefs : List VariableDef := []
  directives : List Directive := []
  selections : List Selection

structure FragmentDef where
  name : Name
  condition : Name
  directives : List Directive := []
  selections : List Selection

inductive Definition where
  | operation (definition : OperationDef)
  | fragment (definition : FragmentDef)
  | schema (definition : SchemaDef)
  | type (definition : TypeDef)
  | directive (definition : DirectiveDef)
  | schemaExt (directives : List Directive) (operations : List (OperationKind × Name))
  | typeExt (extension : TypeExt)

abbrev Document := List Definition

/-! ## Views -/

def TypeRef.base : TypeRef → Name
  | .named name _ => name
  | .list item _ => item.base

def TypeRef.required : TypeRef → Bool
  | .named _ required => required
  | .list _ required => required

def TypeRef.optional : TypeRef → TypeRef
  | .named name _ => .named name false
  | .list item _ => .list item false

inductive TypeKind where
  | scalar | object | interface | union | enum | input
deriving DecidableEq, Repr

def TypeBody.kind : TypeBody → TypeKind
  | .scalar => .scalar
  | .object .. => .object
  | .interface .. => .interface
  | .union _ => .union
  | .enum _ => .enum
  | .input _ => .input

/-- The members of a body; scalars, unions and enums have none. -/
def TypeBody.fields? : TypeBody → Option (List FieldDef)
  | .object _ fields | .interface _ fields | .input fields => some fields
  | .scalar | .union _ | .enum _ => none

def TypeBody.fields (body : TypeBody) : List FieldDef :=
  body.fields?.getD []

def TypeBody.interfaces : TypeBody → List Name
  | .object interfaces _ | .interface interfaces _ => interfaces
  | .scalar | .union _ | .enum _ | .input _ => []

/-- The same body with other members; a body without members stays as it is. -/
def TypeBody.withFields (body : TypeBody) (fields : List FieldDef) : TypeBody :=
  match body with
  | .object interfaces _ => .object interfaces fields
  | .interface interfaces _ => .interface interfaces fields
  | .input _ => .input fields
  | .scalar => .scalar
  | .union members => .union members
  | .enum values => .enum values

def TypeDef.fields (defn : TypeDef) : List FieldDef :=
  defn.body.fields

def TypeDef.withFields (defn : TypeDef) (fields : List FieldDef) : TypeDef :=
  { defn with body := defn.body.withFields fields }

def TypeExt.fields (extn : TypeExt) : List FieldDef :=
  extn.body.fields

def TypeExt.withFields (extn : TypeExt) (fields : List FieldDef) : TypeExt :=
  { extn with body := extn.body.withFields fields }

/-- The name of a definition; operations may lack one, schema definitions always do. -/
def Definition.name? : Definition → Option Name
  | .operation defn => defn.name
  | .fragment defn => some defn.name
  | .type defn => some defn.name
  | .directive defn => some defn.name
  | .typeExt extn => some extn.name
  | .schema _ | .schemaExt .. => none

/-- An input member as an argument, and the other way round: both are written alike. -/
def ArgumentDef.toField (arg : ArgumentDef) : FieldDef where
  description := arg.description
  name := arg.name
  type := arg.type
  default := arg.default
  directives := arg.directives

def FieldDef.toArgument (field : FieldDef) : ArgumentDef where
  description := field.description
  name := field.name
  type := field.type
  default := field.default
  directives := field.directives

def findDirective (directives : List Directive) (name : Name) : Option Directive :=
  directives.find? (·.name == name)

def hasDirective (directives : List Directive) (name : Name) : Bool :=
  directives.any (·.name == name)

def FieldDef.has (field : FieldDef) (name : Name) : Bool :=
  hasDirective field.directives name

def OperationKind.word : OperationKind → String
  | .query => "query"
  | .mutation => "mutation"
  | .subscription => "subscription"

def OperationKind.all : List OperationKind :=
  [.query, .mutation, .subscription]

def DirectivePlace.words : List (String × DirectivePlace) :=
  [("QUERY", .query), ("MUTATION", .mutation), ("SUBSCRIPTION", .subscription), ("FIELD", .field),
   ("FRAGMENT_DEFINITION", .fragmentDefinition), ("FRAGMENT_SPREAD", .fragmentSpread),
   ("INLINE_FRAGMENT", .inlineFragment), ("VARIABLE_DEFINITION", .variableDefinition),
   ("SCHEMA", .schema), ("SCALAR", .scalar), ("OBJECT", .object),
   ("FIELD_DEFINITION", .fieldDefinition), ("ARGUMENT_DEFINITION", .argumentDefinition),
   ("INTERFACE", .interface), ("UNION", .union), ("ENUM", .enum), ("ENUM_VALUE", .enumValue),
   ("INPUT_OBJECT", .inputObject), ("INPUT_FIELD_DEFINITION", .inputFieldDefinition)]

def DirectivePlace.ofWord? (word : String) : Option DirectivePlace :=
  DirectivePlace.words.lookup word

def DirectivePlace.word (place : DirectivePlace) : String :=
  ((DirectivePlace.words.find? fun entry => entry.2 == place).map (·.1)).getD ""

/-! ## Wrappers of a named type -/

/-- What is kept of a type reference. Six shapes can be rebuilt from it; deeper lists are flattened
to one. -/
structure Wrappers where
  list : Bool := false
  requiredItem : Bool := false
  requiredList : Bool := false
deriving DecidableEq, Repr

namespace Wrappers

def required : Wrappers := { requiredItem := true }

def listOfRequired : Wrappers := { list := true, requiredItem := true }

def plainList : Wrappers := { list := true }

def listOnly (wrappers : Wrappers) : Wrappers := { list := wrappers.list }

def wrap (wrappers : Wrappers) (name : Name) : TypeRef :=
  let item := TypeRef.named name wrappers.requiredItem
  if wrappers.list then .list item wrappers.requiredList else item

end Wrappers

/-- The wrappers of a reference; a marker on any of its lists counts as a marker on the list. -/
def TypeRef.wrappers : TypeRef → Wrappers
  | .named _ required => { requiredItem := required }
  | .list item required =>
    { item.wrappers with list := true, requiredList := item.wrappers.requiredList || required }

def TypeRef.plain (name : Name) : TypeRef := .named name false

@[simp] theorem Wrappers.base_wrap (wrappers : Wrappers) (name : Name) :
    (wrappers.wrap name).base = name := by
  cases h : wrappers.list <;> simp [wrap, h, TypeRef.base]

end GraphApi
