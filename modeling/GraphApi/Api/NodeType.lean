import GraphApi.Api.NodeMutation
import GraphApi.Api.NodeQuery
import GraphApi.Api.RelationshipMutation

/-!
# Augmenting node types

The fields of a node type and of its extensions are gone through one after another. Each gives the
field as it is in the augmented document and what the type gains by it: filters, orderings and
mutations. The operations of the type follow, unless all of its fields are left out of the API.
-/

namespace GraphApi

structure FieldGain where
  field : FieldDef
  filters : List ArgumentDef := []
  ordering : List Name := []
  mutations : List FieldDef := []

def propertyGain (settings : Settings) (info : FieldInfo) : FieldGain where
  field := info.field
  filters := if info.isStored then propertyFilters settings info else []
  ordering := if info.isOrderable then orderingValues info.name else []

variable (cat : Catalog)

def augmentNodeField (defn : TypeDef) (isInput : Bool) (info : FieldInfo) :
    Pass FieldGain := do
  let arguments ← augmentNodeArguments cat defn.name isInput info
  let filters ← nodeRelationFilters cat info
  let mutations ←
    if info.isRelation && !info.isComputed && defn.isObject then do
      Run.ofExcept (checkReadable (relationDirective info.field.directives) ["direction", "name"])
      augmentRelationshipMutation cat (describeRelation defn.name info)
    else pure []
  return { field := { info.field with arguments }, filters, mutations }

def augmentRelationshipField (defn : TypeDef) (isInput : Bool) (info : FieldInfo)
    (described : TypeDef) (source target : FieldDef) : Pass FieldGain := do
  Run.ofExcept ((checkRelationshipField defn.name info.field).mapError .schema)
  if info.isComputed then return { field := info.field }
  Run.ofExcept ((checkRelationshipType described.name described.fields).mapError .schema)
  Run.ofExcept (checkReadable (relationDirective described.directives) ["name"])
  let rel := describeRelationshipType cat defn.name info.name described source target
  Pass.note .debug
    (defn.name ++ "." ++ info.name ++ " reaches " ++ rel.name.display ++ " from " ++
      rel.sourceType ++ " to " ++ rel.targetType)
  let (field, filters) ← augmentRelationshipQuery cat defn isInput info rel
  let mutations ←
    if defn.isObject then augmentRelationshipMutation cat rel else pure []
  return { field, filters, mutations }

def augmentField (defn : TypeDef) (isInput : Bool) (field : FieldDef) :
    Pass FieldGain := do
  let info := field.describe cat.types
  if info.isIgnored then return { field }
  match info.kind with
  | .property => return propertyGain cat.settings info
  | .node => augmentNodeField cat defn isInput info
  | .relationship =>
    match cat.types.get? info.type with
    | some described =>
      match described.endpoints? with
      | some (source, target) => augmentRelationshipField cat defn isInput info described source target
      | none => return { field }
    | none => return { field }
  | .other => return { field }

def TypeBody.isInput (body : TypeBody) : Bool := body.kind = .input

/-- Augments the fields of a node type, or of one of its extensions. A body without members has none
to go through. -/
def augmentBody (defn : TypeDef) (body : TypeBody) : Pass (List FieldGain) := do
  match body.fields? with
  | some fields => Pass.each (augmentField cat defn body.isInput) fields
  | none => Run.fail .lacksFields

def gatherInputs (type : Name) (gains : List FieldGain) : TypeInputs :=
  gains.foldl (fun inputs gain => (inputs.addFilters gain.filters).addOrdering gain.ordering)
    (.ofType type)

def augmentNodeMutations (type : Name) (infos : List FieldInfo) (relationships : List FieldDef) :
    Pass Unit := do
  if ← Pass.augments cat .mutation type then
    let key := primaryKey infos
    match key with
    | some key =>
      Pass.note .debug (type ++ " is selected by " ++ key.name ++ " (" ++ key.strategy.word ++ ")")
      Pass.registerOwn (selectionInput type key)
    | none => pure ()
    augmentNodeMutation cat type infos key
  Pass.offer .mutation relationships

structure NodeOutcome where
  definition : TypeDef
  extensions : List TypeExt

/-- Generates the operations of a node type. An object type gets the assigned identifier unless it
declares it. -/
def augmentOperations (defn : TypeDef) (gains : List FieldGain) :
    Pass (List FieldDef) := do
  let infos := cat.fieldInfos defn.name
  let inputs := gatherInputs defn.name gains
  if defn.isObject then
    augmentNodeMutations cat defn.name infos (gains.flatMap (·.mutations))
    augmentNodeQuery cat defn.name infos inputs.addSystemId
    return if infos.any FieldInfo.isSystemId then [] else [systemIdField]
  else
    augmentNodeQuery cat defn.name infos inputs
    return []

def augmentNodeType (defn : TypeDef) : Pass NodeOutcome := do
  let declared := (cat.fieldInfos defn.name).map (·.field)
  Run.ofExcept ((checkNodeFields defn.name declared).mapError .schema)
  let own ← augmentBody cat defn defn.body
  let added ← Pass.each (fun extn => augmentBody cat defn extn.body)
    (cat.extensionsOf defn.name)
  let extensions := (cat.extensionsOf defn.name).zipWith
    (fun extn gains => extn.withFields (gains.map (·.field))) added
  let fields := own.map (·.field)
  if defn.isIgnored then
    Pass.note .info ("Every field of " ++ defn.name ++ " is ignored, skipping its generated API")
    return { definition := defn.withFields fields, extensions }
  let generated ← augmentOperations cat defn (own ++ added.flatten)
  return { definition := defn.withFields (fields ++ generated), extensions }

/-! ## Operation types -/

def augmentRootField (owner : Name) (isInput : Bool) (field : FieldDef) : Pass FieldDef := do
  let info := field.describe cat.types
  if info.kind = .node && !info.isIgnored then
    let arguments ← augmentNodeArguments cat owner (isInput && !field.isOperation) info
    return { field with arguments }
  return field

def augmentRootExtension (extn : TypeExt) : Pass TypeExt := do
  match extn.body.fields? with
  | some fields =>
    let fields ← Pass.each (augmentRootField cat extn.name extn.body.isInput) fields
    return extn.withFields fields
  | none => Run.fail .lacksFields

def augmentRoot (root : RootType) : Pass (RootType × List TypeExt) := do
  let fields ← Pass.each (augmentRootField cat root.name root.definition.body.isInput) root.fields
  let extensions ← Pass.each (augmentRootExtension cat) (cat.extensionsOf root.name)
  return ({ root with fields }, extensions)

end GraphApi
