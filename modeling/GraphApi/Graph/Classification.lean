import GraphApi.Directive.Known
import GraphApi.Text.Affix

/-!
# Nodes, relationships and their fields

An object or interface type is a relationship when it carries `relation` and declares both endpoint
fields, and a node otherwise. The fields of a node are properties, relations to other nodes, or
fields of a relationship type.
-/

namespace GraphApi

/-! ## Categories of stored properties -/

inductive Category where
  | integer | float | string | boolean | enum | scalar | temporal | spatial
deriving DecidableEq, Repr

def Category.word : Category → String
  | .integer => "Integer"
  | .float => "Float"
  | .string => "String"
  | .boolean => "Boolean"
  | .enum => "Enum"
  | .scalar => "Scalar"
  | .temporal => "Temporal"
  | .spatial => "Spatial"

def storedStart : Name := "_Neo4j"

def inputEnd : Name := "Input"

def storedTypeName (kind : Name) : Name := storedStart ++ kind

def storedInputName (kind : Name) : Name := storedStart ++ kind ++ inputEnd

def isStoredTypeName (name : Name) : Bool :=
  Text.startsWith storedStart name

def isIntrospectionName (name : Name) : Bool :=
  Text.startsWith "__" name

/-- The bare name of a kind: the start and the end of a generated name are dropped. -/
def baseKind (name : Name) : Name :=
  match Text.dropStart? storedStart name with
  | some rest => (Text.dropEnd? inputEnd rest).getD rest
  | none => name

def TemporalKind.ofWord? (name : Name) : Option TemporalKind :=
  TemporalKind.all.find? (·.word == name)

def SpatialKind.ofWord? (name : Name) : Option SpatialKind :=
  SpatialKind.all.find? (·.word == name)

def builtinCategory? (name : Name) : Option Category :=
  if name = "Int" then some .integer
  else if name = "Float" then some .float
  else if name = "String" ∨ name = "ID" then some .string
  else if name = "Boolean" then some .boolean
  else if (TemporalKind.ofWord? name).isSome then some .temporal
  else if (SpatialKind.ofWord? name).isSome then some .spatial
  else none

/-- The category of a named type; a type whose values are not stored as properties has none. -/
def categoryOf (types : NameMap TypeDef) (name : Name) : Option Category :=
  match builtinCategory? (baseKind name) with
  | some category => some category
  | none =>
    match types.get? name with
    | some { body := .enum _, .. } => some .enum
    | some { body := .scalar, .. } => some .scalar
    | _ => none

inductive Classification where
  | node | relationship
deriving DecidableEq, Repr

def Classification.word : Classification → String
  | .node => "Node"
  | .relationship => "Relationship"

def endpointValues (directives : List Directive) : Value × Value :=
  let directive := relationDirective directives
  ((directiveArgument directive "from").orElse (.text "from"),
   (directiveArgument directive "to").orElse (.text "to"))

def findField (fields : List FieldDef) (name : Name) : Option FieldDef :=
  fields.find? (·.name == name)

def findFieldBy (fields : List FieldDef) (name : Value) : Option FieldDef :=
  match name with
  | .text name => findField fields name
  | _ => none

def TypeBody.isStructural : TypeBody → Bool
  | .object .. | .interface .. => true
  | _ => false

def TypeDef.endpoints? (defn : TypeDef) : Option (FieldDef × FieldDef) :=
  if defn.body.isStructural && (relationDirective defn.directives).isSome then
    let (source, target) := endpointValues defn.directives
    match findFieldBy defn.fields source, findFieldBy defn.fields target with
    | some source, some target => some (source, target)
    | _, _ => none
  else none

def TypeDef.checkEndpoints (defn : TypeDef) : Except Fault Unit :=
  if defn.body.isStructural && !isStoredTypeName defn.name && !isIntrospectionName defn.name then
    checkReadable (relationDirective defn.directives) ["from", "to"]
  else .ok ()

/-- What a type stands for: a relationship, a node, or neither. -/
def TypeDef.classification (defn : TypeDef) : Option Classification :=
  if !defn.body.isStructural || isStoredTypeName defn.name ||
    isIntrospectionName defn.name then none
  else if defn.endpoints?.isSome then some .relationship
  else some .node

def TypeDef.isNode (defn : TypeDef) : Bool :=
  defn.classification = some .node

/-- Whether a type has members and all of them are left out of the generated API. -/
def TypeDef.isIgnored (defn : TypeDef) : Bool :=
  !defn.fields.isEmpty && defn.fields.all (·.marked .ignore)

def TypeDef.isObject (defn : TypeDef) : Bool :=
  defn.body.kind = .object

inductive FieldKind where
  | property | node | relationship | other
deriving DecidableEq, Repr

def FieldKind.word : FieldKind → String
  | .property => "property"
  | .node => "node"
  | .relationship => "relationship"
  | .other => "other"

/-- A field with what the augmentation has to know of it. -/
structure FieldInfo where
  field : FieldDef
  kind : FieldKind
  category : Option Category

namespace FieldInfo

def name (info : FieldInfo) : Name := info.field.name

def type (info : FieldInfo) : Name := info.field.type.base

def wrappers (info : FieldInfo) : Wrappers := info.field.type.wrappers

def isList (info : FieldInfo) : Bool := info.wrappers.list

def isComputed (info : FieldInfo) : Bool := info.field.marked .cypher

def isIgnored (info : FieldInfo) : Bool := info.field.marked .ignore

def isRelation (info : FieldInfo) : Bool := info.field.marked .relation

/-- The name of the field for the identifier that the database assigns. -/
def systemId : Name := "_id"

def isSystemId (info : FieldInfo) : Bool := info.name = systemId

def isSpatial (info : FieldInfo) : Bool := info.category = some .spatial

def isTemporal (info : FieldInfo) : Bool := info.category = some .temporal

def isStored (info : FieldInfo) : Bool :=
  info.kind = .property && !info.isComputed && !info.isIgnored && !info.isSystemId

def isOrderable (info : FieldInfo) : Bool :=
  info.isStored && !info.isList && !info.isSpatial

end FieldInfo

def kindOf (types : NameMap TypeDef) (name : Name) : FieldKind :=
  match (types.get? name).bind TypeDef.classification with
  | some .node => .node
  | some .relationship => .relationship
  | none => .other

def FieldDef.describe (types : NameMap TypeDef) (field : FieldDef) : FieldInfo :=
  match categoryOf types field.type.base with
  | some category => { field, kind := .property, category := some category }
  | none => { field, kind := kindOf types field.type.base, category := none }

def systemIdField : FieldDef :=
  { name := FieldInfo.systemId, type := .plain "String" }

end GraphApi
