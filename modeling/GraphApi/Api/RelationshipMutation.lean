import GraphApi.Api.Key
import GraphApi.Api.RelationshipQuery

/-!
# Changing relationships

A relationship between two nodes that can be selected by their keys is added, removed, updated and
merged. Each mutation returns both nodes and, unless it removes the relationship, its properties.
-/

namespace GraphApi

inductive RelationshipAction where
  | add | remove | update | merge
deriving DecidableEq, Repr

namespace RelationshipAction

def word : RelationshipAction → String
  | add => "Add"
  | remove => "Remove"
  | update => "Update"
  | merge => "Merge"

def scope : RelationshipAction → String
  | add => "Create"
  | remove => "Delete"
  | update => "Update"
  | merge => "Merge"

def all : List RelationshipAction := [add, remove, update, merge]

def hasProperties (action : RelationshipAction) : Bool := action ≠ remove

end RelationshipAction

def Relationship.mutationName (rel : Relationship) (action : RelationshipAction) : Name :=
  action.word ++ rel.owner ++ rel.suffix

def payloadName (mutation : Name) : Name := "_" ++ mutation ++ "Payload"

def Relationship.inputName (rel : Relationship) : Name := "_" ++ rel.typeName ++ "Input"

variable (cat : Catalog)

/-- Whether nodes of a type can be the end of a relationship that is changed: an object type with a
mutation API and a primary key. -/
def Catalog.canMutate (type : Name) : Bool :=
  cat.augments .mutation type && cat.isObject type && (primaryKey (cat.fieldInfos type)).isSome

def Pass.canMutate (type : Name) : Pass Bool := do
  let _ ← Pass.augments cat .mutation type
  return cat.canMutate type

def Relationship.endpointArguments (settings : Settings) (rel : Relationship) : List ArgumentDef :=
  let input := if settings.experimental then whereName else selectionName
  [requiredArgument rel.sourceField (input rel.sourceType),
   requiredArgument rel.targetField (input rel.targetType)]

def Relationship.propertyInput (rel : Relationship) : TypeDef :=
  inputType rel.inputName
    (rel.storedProperties.map fun info =>
      { name := info.name, type := info.wrappers.wrap info.type })

/-- A property in the result of a mutation; a computed one loses its arguments. -/
def FieldInfo.payloadField (info : FieldInfo) : FieldDef :=
  if info.isComputed then { info.field with arguments := [] } else info.field

/-- The type that a mutation returns: both ends and, unless the relationship is removed, its
properties. -/
def Relationship.payloadType (rel : Relationship) (action : RelationshipAction) : TypeDef where
  name := payloadName (rel.mutationName action)
  directives := [rel.directive]
  body := .object []
    ([{ name := rel.sourceField, type := .plain rel.sourceType },
      { name := rel.targetField, type := .plain rel.targetType }] ++
    if action.hasProperties then rel.properties.map FieldInfo.payloadField else [])

def Relationship.mutation (settings : Settings) (rel : Relationship) (action : RelationshipAction) :
    FieldDef where
  name := rel.mutationName action
  type := .plain (payloadName (rel.mutationName action))
  arguments := rel.endpointArguments settings ++
    if action.hasProperties && !rel.storedProperties.isEmpty then
      [requiredArgument "data" rel.inputName]
    else []
  directives := buildMutationMeta rel.name rel.sourceType rel.targetType ::
    operationDirectives settings action.scope [rel.sourceType, rel.targetType]
  isOperation := true

def Relationship.actions (rel : Relationship) : List RelationshipAction :=
  RelationshipAction.all.filter fun action => action ≠ .update || !rel.storedProperties.isEmpty

def Relationship.mutationTypes (rel : Relationship) : List TypeDef :=
  (if rel.storedProperties.isEmpty then [] else [rel.propertyInput]) ++
    rel.actions.map rel.payloadType

def firstImmutable : List Name → Pass (Option Name)
  | [] => return none
  | type :: rest => do
    if ← Pass.canMutate cat type then firstImmutable rest else return some type

/-- The mutations of a relationship, with their types registered. There are none unless both ends
can be selected. -/
def augmentRelationshipMutation (rel : Relationship) : Pass (List FieldDef) := do
  if (cat.root? .mutation).isNone then return []
  match ← firstImmutable cat [rel.sourceType, rel.targetType] with
  | some type =>
    Pass.note .info
      (type ++ " has no Mutation API or no primary key, skipping the mutations of " ++
        rel.owner ++ "." ++ rel.field)
    return []
  | none =>
    Run.emitAll (rel.mutationTypes.map (.register · false))
    return rel.actions.map (rel.mutation cat.settings)

end GraphApi
