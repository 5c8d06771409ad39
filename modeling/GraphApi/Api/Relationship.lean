import GraphApi.Api.Catalog

/-!
# Relationships

A relationship is anonymous, declared by `relation` on a field that returns nodes, or described by a
type with properties of its own and two endpoint fields. It is seen from the field through which it
is reached.
-/

namespace GraphApi

structure RelationshipType where
  name : Name
  properties : List FieldInfo

/-- A relationship as it is reached through the field `field` of the type `owner`. -/
structure Relationship where
  owner : Name
  field : Name
  name : Value
  sourceType : Name
  targetType : Name
  sourceField : Name := "from"
  targetField : Name := "to"
  described : Option RelationshipType := none
  direction : Direction := .outgoing
  /-- The name of the field for the related node, if the relationship type gives one. -/
  relatedName : Option Name := none

namespace Relationship

def isReflexive (rel : Relationship) : Bool :=
  rel.sourceType = rel.targetType

def relatedType (rel : Relationship) : Name :=
  match rel.direction with
  | .incoming => rel.sourceType
  | .outgoing => rel.targetType

def relatedField (rel : Relationship) : Name :=
  if rel.isReflexive then rel.relatedType
  else rel.relatedName.getD rel.relatedType

def suffix (rel : Relationship) : Name :=
  Text.capitalize rel.field

def properties (rel : Relationship) : List FieldInfo :=
  (rel.described.map (·.properties)).getD []

def storedProperties (rel : Relationship) : List FieldInfo :=
  rel.properties.filter fun info => !info.isComputed

/-- The name of the relationship type; an anonymous relationship has none to show. -/
def typeName (rel : Relationship) : Name :=
  (rel.described.map (·.name)).getD ""

end Relationship

def FieldInfo.isRelationshipProperty (info : FieldInfo) : Bool :=
  info.kind = .property && !info.isIgnored && !info.isSystemId

def defaultRelationshipName (name : Name) : Name := Text.macroCase name

def Value.givenText? : Value → Option String
  | .text content => if content = "" then none else some content
  | _ => none

/-- Describes a relationship type reached through a field. The relationship comes in if the type
that declares the field is its end and not its start. -/
def describeRelationshipType (cat : Catalog) (owner field : Name) (defn : TypeDef)
    (source target : FieldDef) : Relationship :=
  let directive := relationDirective defn.directives
  let sourceType := source.type.base
  let targetType := target.type.base
  let direction := if sourceType ≠ targetType ∧ owner = targetType then Direction.incoming
    else .outgoing
  let properties := (cat.fieldInfos defn.name).filter FieldInfo.isRelationshipProperty
  { owner, field
    name := (relationName directive).orElse (.text (defaultRelationshipName defn.name))
    sourceType, targetType
    sourceField := source.name
    targetField := target.name
    described := some { name := defn.name, properties }
    direction
    relatedName := (directiveArgument directive (if direction = .incoming then "from"
     else "to")).givenText? }

def describeRelation (owner : Name) (info : FieldInfo) : Relationship :=
  let directive := relationDirective info.field.directives
  let direction := relationDirection directive
  { owner
    field := info.name
    name := (relationName directive).orElse (.text (defaultRelationshipName info.name))
    sourceType := if direction = .incoming then info.type else owner
    targetType := if direction = .incoming then owner else info.type
    direction }

def definingInterface? (cat : Catalog) (defn : TypeDef) (field : Name) : Option Name :=
  let interfaces := defn.body.interfaces ++
    (cat.extensionsOf defn.name).flatMap (·.body.interfaces)
  interfaces.find? fun name =>
    match cat.types.get? name with
    | some interface => (findField interface.fields field).isSome
    | none => false

end GraphApi
