import GraphApi.Document.Parts
import GraphApi.Schema.Builtin
import GraphApi.Text.Affix

/-!
# Schemas

A schema holds the types of a document, each with what its extensions add, the directives and the
operation types. A name stands for a built-in type before any declared one.
-/

namespace GraphApi

/-- A type of a schema: its definition, its extensions, and what they declare together. -/
structure SchemaType where
  definition : TypeDef
  extensions : List TypeExt := []
  body : TypeBody

structure Schema where
  definition : Option SchemaDef := none
  types : NameMap SchemaType := []
  declared : List DirectiveDef := []
  roots : List (OperationKind × Name) := []
  redeclared : List Name := []

/-! ## From a document -/

/-- Members by name; of several members of one name the last counts, in the place of the first. -/
def distinctBy {α : Type} (name : α → Name) (items : List α) : List α :=
  (NameMap.ofList (items.map fun item => (name item, item))).values

def FieldDef.withDistinctArguments (field : FieldDef) : FieldDef :=
  { field with arguments := distinctBy (·.name) field.arguments }

def distinctFields (fields : List FieldDef) : List FieldDef :=
  distinctBy (·.name) (fields.map (·.withDistinctArguments))

def TypeBody.enumValues : TypeBody → List EnumValueDef
  | .enum values => values
  | _ => []

/-- What a body and its extensions declare together. Extensions of other kinds add nothing. -/
def TypeBody.extend (body : TypeBody) (extensions : List TypeBody) : TypeBody :=
  match body with
  | .scalar => .scalar
  | .object interfaces fields =>
    .object (interfaces ++ extensions.flatMap (·.interfaces))
      (distinctFields (fields ++ extensions.flatMap (·.fields)))
  | .interface interfaces fields =>
    .interface (interfaces ++ extensions.flatMap (·.interfaces))
      (distinctFields (fields ++ extensions.flatMap (·.fields)))
  | .union members => .union (members ++ extensions.flatMap fun
      | .union added => added
      | _ => [])
  | .enum values => .enum (distinctBy (·.name) (values ++ extensions.flatMap (·.enumValues)))
  | .input fields => .input (distinctFields (fields ++ extensions.flatMap (·.fields)))

def Document.typeDefs (doc : Document) : List TypeDef :=
  doc.filterMap fun
    | .type defn => some defn
    | _ => none

def Document.typeExts (doc : Document) : List TypeExt :=
  doc.filterMap fun
    | .typeExt extn => some extn
    | _ => none

def Document.directiveDefs (doc : Document) : List DirectiveDef :=
  doc.filterMap fun
    | .directive defn => some defn
    | _ => none

def Document.schemaDefs (doc : Document) : List SchemaDef :=
  doc.filterMap fun
    | .schema defn => some defn
    | _ => none

def Document.extendedOperations (doc : Document) : List (OperationKind × Name) :=
  doc.flatMap fun
    | .schemaExt _ operations => operations
    | _ => []

def SchemaType.ofDefinition (extensions : List TypeExt) (defn : TypeDef) : SchemaType :=
  let own := extensions.filter (·.name == defn.name)
  { definition := defn, extensions := own, body := defn.body.extend (own.map (·.body)) }

def SchemaType.writtenFields (type : SchemaType) : List FieldDef :=
  type.definition.fields ++ type.extensions.flatMap (·.fields)

def SchemaType.ofBuiltin (defn : TypeDef) : SchemaType :=
  { definition := defn, body := defn.body }

/-- The types that a document declares, in order. A definition under a built-in name declares
nothing. -/
def Document.declaredTypes (doc : Document) : List SchemaType :=
  let declared := doc.typeDefs.filter fun defn => !Builtin.isName defn.name
  declared.map (.ofDefinition (Document.typeExts doc))

def Document.schemaTypes (doc : Document) : NameMap SchemaType :=
  NameMap.ofList (doc.declaredTypes.map fun type => (type.definition.name, type))

def usualRoots : List (OperationKind × Name) :=
  [(.query, "Query"), (.mutation, "Mutation"), (.subscription, "Subscription")]

/-- The operation types that a document names, the last one for each operation. Without a schema
definition the types with the usual names count first. -/
def Document.roots (doc : Document) : List (OperationKind × Name) :=
  let defined := (doc.schemaDefs.getLast?.map (·.operations)).getD []
  let named := defined ++ doc.extendedOperations
  let declared := doc.typeDefs.map (·.name)
  let usual := if doc.schemaDefs.isEmpty then usualRoots.filter fun entry =>
    declared.contains entry.2 else []
  OperationKind.all.filterMap fun kind =>
    ((named ++ usual).filter (·.1 == kind)).getLast?

def Schema.assemble (doc : Document) : Schema where
  definition := doc.schemaDefs.getLast?
  types := doc.schemaTypes
  declared := doc.directiveDefs
  roots := doc.roots
  redeclared := (doc.typeDefs.map (·.name)).filter Builtin.isName

/-! ## Looking things up -/

namespace Schema

variable (schema : Schema)

def type? (name : Name) : Option SchemaType :=
  match Builtin.type? name with
  | some defn => some (.ofBuiltin defn)
  | none => schema.types.get? name

def kind? (name : Name) : Option TypeKind :=
  (schema.type? name).map (·.body.kind)

def fieldsOf (name : Name) : List FieldDef :=
  ((schema.type? name).map (·.body.fields)).getD []

def interfacesOf (name : Name) : List Name :=
  ((schema.type? name).map (·.body.interfaces)).getD []

def root? (kind : OperationKind) : Option Name :=
  schema.roots.lookup kind

def directives : List DirectiveDef :=
  schema.declared ++ Builtin.directives.filter fun directive =>
    !schema.declared.any (·.name == directive.name)

def directive? (name : Name) : Option DirectiveDef :=
  schema.directives.find? (·.name == name)

def isInput (name : Name) : Bool :=
  match schema.kind? name with
  | some .scalar | some .enum | some .input => true
  | _ => false

def isOutput (name : Name) : Bool :=
  match schema.kind? name with
  | some .input | none => false
  | some _ => true

def isLeaf (name : Name) : Bool :=
  match schema.kind? name with
  | some .scalar | some .enum => true
  | _ => false

def isComposite (name : Name) : Bool :=
  match schema.kind? name with
  | some .object | some .interface | some .union => true
  | _ => false

/-- Whether values of the first type are always values of the second one, which is an interface or a
union. -/
def isMember (name general : Name) : Bool :=
  match schema.type? general with
  | some { body := .union members, .. } => members.contains name
  | some { body := .interface _ _, .. } => (schema.interfacesOf name).contains general
  | _ => false

def inputMembers? (name : Name) : Option (List ArgumentDef) :=
  match schema.type? name with
  | some { body := .input fields, .. } => some (fields.map (·.toArgument))
  | _ => none

def references : List Name :=
  schema.types.values.flatMap (·.body.references) ++
    schema.directives.flatMap (fun directive => directive.arguments.map (·.type.base))

/-- The names of all types: the declared ones, the types by which the schema describes itself, and
the scalars that are in use. A scalar that the document declares again is in use, too. -/
def typeNames : List Name :=
  let used := "String" :: "Boolean" :: schema.references ++ schema.redeclared
  schema.types.keys ++ Builtin.introspectionTypes.map (·.name) ++
    Builtin.scalarNames.filter used.contains

/-! ## The definitions that a schema was built from -/

def typeDefinitions (type : SchemaType) : Document :=
  .type type.definition :: type.extensions.map .typeExt

def extract : Document :=
  (schema.definition.map Definition.schema).toList ++ schema.declared.map .directive ++
    (schema.types.values.filter fun type => !Text.startsWith "__" type.definition.name).flatMap
      typeDefinitions

end Schema

/-! ## Types of values -/

def TypeRef.fits (schema : Schema) : TypeRef → TypeRef → Bool
  | .named name required, .named expected needed =>
    (required || !needed) && (name == expected || schema.isMember name expected)
  | .list item required, .list expected needed => (required || !needed) && item.fits schema expected
  | .named .., .list .. | .list .., .named .. => false

end GraphApi
