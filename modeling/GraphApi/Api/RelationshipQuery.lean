import GraphApi.Api.Filter
import GraphApi.Api.Relationship

/-!
# Querying relationships

A field of a relationship type is retyped to a generated output type that carries the properties of
the relationship and the related node. When both ends are of one type, the field leads to a type
with one field for each direction instead, and those take the arguments.
-/

namespace GraphApi

def Relationship.outputName (rel : Relationship) (naming : Name) : Name :=
  "_" ++ naming ++ rel.suffix

def directionsEnd : Name := "Directions"

def Relationship.directionsName (rel : Relationship) (naming : Name) : Name :=
  rel.outputName naming ++ directionsEnd

/-- The filter of a relationship; a reflexive one is shared by all fields that reach it. -/
def Relationship.filterName (rel : Relationship) (naming : Name) : Name :=
  if rel.isReflexive then GraphApi.filterName rel.typeName
  else GraphApi.filterName (naming ++ Text.capitalize rel.typeName)

def Relationship.directionsFilterName (rel : Relationship) : Name :=
  GraphApi.filterName (rel.typeName ++ directionsEnd)

def Relationship.orderingName (rel : Relationship) : Name :=
  GraphApi.orderingName rel.typeName

def Relationship.directive (rel : Relationship) : Directive :=
  buildRelation rel.name rel.sourceType rel.targetType none

def Relationship.outputType (rel : Relationship) (name : Name) : TypeDef where
  name := name
  directives := [rel.directive]
  body := .object [] (rel.properties.map (·.field) ++
    [systemIdField, { name := rel.relatedField, type := .plain rel.relatedType }])

def Relationship.directionsType (rel : Relationship) (naming : Name)
    (arguments : List ArgumentDef) : TypeDef :=
  let type := Wrappers.plainList.wrap (rel.outputName naming)
  { name := rel.directionsName naming
    directives := [rel.directive]
    body := .object [] [{ name := rel.sourceField, type, arguments },
      { name := rel.targetField, type, arguments }] }

def Relationship.directionsFilter (rel : Relationship) : TypeDef :=
  let type := TypeRef.plain (GraphApi.filterName rel.typeName)
  inputType rel.directionsFilterName
    [{ name := rel.sourceField, type }, { name := rel.targetField, type }]

def Relationship.inputs (settings : Settings) (rel : Relationship) (naming : Name) : TypeInputs :=
  let start : TypeInputs :=
    { filterName := rel.filterName naming, orderingName := rel.orderingName }
  let properties := rel.properties.foldl (TypeInputs.addProperty settings) start
  properties.addSystemId.addFilters
    [{ name := rel.relatedField, type := .plain (GraphApi.filterName rel.relatedType) }]

def Relationship.inputTypes (settings : Settings) (rel : Relationship) (naming : Name) :
    List TypeDef :=
  let inputs := rel.inputs settings naming
  [inputs.filterType, inputs.orderingType] ++
    if rel.isReflexive then [rel.directionsFilter] else []

def Relationship.augments (cat : Catalog) (kind : OperationKind) (rel : Relationship) :
    Pass Bool := do
  if ← Pass.augments cat kind rel.sourceType then
    Pass.augments cat kind rel.targetType
  else return false

def sharedInterface? (cat : Catalog) (defn : TypeDef) (field : Name) : Pass (Option Name) := do
  match definingInterface? cat defn field with
  | some interface =>
    if ← Pass.augments cat .query interface then return some interface
    return none
  | none => return none

def Relationship.arguments (rel : Relationship) (naming : Name) (info : FieldInfo) :
    List ArgumentDef :=
  queryArguments info.field.arguments (rel.isReflexive || info.isList)
    (some rel.orderingName) (some (rel.filterName naming))

def Relationship.retype (rel : Relationship) (naming : Name) (info : FieldInfo) : FieldDef :=
  if rel.isReflexive then
    { info.field with type := .plain (rel.directionsName naming), arguments := [] }
  else
    { info.field with
      type := info.wrappers.wrap (rel.outputName naming)
      arguments := rel.arguments naming info }

def Relationship.ownerFilter (rel : Relationship) (naming : Name) : Name :=
  if rel.isReflexive then rel.directionsFilterName else rel.filterName naming

/-- Retypes a field of a relationship type, registers its generated types and gives the filters that
its owner gets. A field that an implemented interface declares shares the types of the interface. -/
def augmentRelationshipQuery (cat : Catalog) (defn : TypeDef) (isInput : Bool) (info : FieldInfo)
    (rel : Relationship) : Pass (FieldDef × List ArgumentDef) := do
  if !(← rel.augments cat .query) then return (info.field, [])
  let interface ← sharedInterface? cat defn rel.field
  let naming := interface.getD rel.owner
  Pass.register (rel.outputType (rel.outputName naming))
  if isInput then Run.fail .lacksArguments
  if rel.isReflexive then
    Pass.register (rel.directionsType naming (rel.arguments naming info))
  if interface.isNone then
    Run.emitAll ((rel.inputTypes cat.settings naming).map (.register · false))
  return (rel.retype naming info,
    relationFilters rel.field (rel.ownerFilter naming) info.isList)

end GraphApi
