import GraphApi.Api.Catalog
import GraphApi.Api.Key

/-!
# Querying nodes

Each node type gets a list field on the query type, and fields that return nodes take the arguments
that page, order and filter them.
-/

namespace GraphApi

variable (cat : Catalog)

/-- Whether the ordering enum of a type has a value: an object type can be ordered by its assigned
identifier, an interface needs a property to be ordered by. -/
def Catalog.hasOrdering (type : Name) : Bool :=
  cat.isObject type || (cat.fieldInfos type).any FieldInfo.isOrderable

def Catalog.ordering? (type : Name) : Option Name :=
  if cat.hasOrdering type then some (orderingName type) else none

/-- The arguments of a field that returns nodes of a type with a query API. A computed field has no
filter. -/
def nodeArguments (info : FieldInfo) : List ArgumentDef :=
  queryArguments info.field.arguments info.isList (cat.ordering? info.type)
    (if info.isComputed then none else some (filterName info.type))

/-- The arguments of a field that returns nodes. Fields of the mutation and subscription types, and
fields whose nodes have no query API, keep their arguments. A member of an input type takes none. -/
def augmentNodeArguments (owner : Name) (isInput : Bool) (info : FieldInfo) :
    Pass (List ArgumentDef) := do
  if isInput then Run.fail .lacksArguments
  match cat.operationOf? owner with
  | some .mutation | some .subscription => return info.field.arguments
  | _ =>
    if ← Pass.augments cat .query info.type then return nodeArguments cat info
    return info.field.arguments

def nodeRelationFilters (info : FieldInfo) : Pass (List ArgumentDef) := do
  if !info.isRelation then return []
  if ← Pass.augments cat .query info.type then
    return relationFilters info.name (filterName info.type) info.isList
  return []

/-- One argument for each stored property, with nothing required. -/
def nodeQueryArguments (infos : List FieldInfo) : List ArgumentDef :=
  (infos.filter FieldInfo.isStored).map fun info =>
    { name := info.name, type := info.wrappers.listOnly.wrap info.type }

def nodeQueryField (type : Name) (infos : List FieldInfo) : FieldDef where
  name := type
  arguments :=
    queryArguments (nodeQueryArguments infos) true (cat.ordering? type) (some (filterName type))
  type := Wrappers.plainList.wrap type
  directives := operationDirectives cat.settings "Read" [type]
  isOperation := true

def augmentNodeQuery (type : Name) (infos : List FieldInfo) (inputs : TypeInputs) :
    Pass Unit := do
  if ← Pass.augments cat .query type then
    Pass.offer .query [nodeQueryField cat type infos]
    Pass.registerOwn inputs.filterType
    if !inputs.ordering.isEmpty then Pass.registerOwn inputs.orderingType

end GraphApi
