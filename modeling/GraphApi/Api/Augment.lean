import GraphApi.Api.NodeType
import GraphApi.Api.Retarget
import GraphApi.Document.Printer
import GraphApi.Document.Reader

/-!
# Augmented documents

The augmentation of a whole document: the operation types and the node types are augmented, the
types of temporal and spatial values and the definitions of the directives are added, and everything
is put together in a fixed order.
-/

namespace GraphApi

structure Parts where
  directives : List DirectiveDef
  schema : Option SchemaDef
  types : List TypeDef
  roots : List TypeDef
  generated : List TypeDef
  extensions : List TypeExt
  others : List Definition

def Parts.body (parts : Parts) : Document :=
  parts.directives.map .directive ++ (parts.schema.map Definition.schema).toList ++
    parts.types.map .type ++ parts.roots.map .type ++ parts.generated.map .type

def Parts.tail (parts : Parts) : Document :=
  parts.extensions.map .typeExt ++ parts.others

/-- The augmented document: temporal and spatial types retargeted, and scalars for those that
stay. -/
def Parts.document (settings : Settings) (parts : Parts) : Document :=
  let body := parts.body.map (·.retarget settings)
  let tail := parts.tail.map (·.retarget settings)
  body ++ (undeclaredScalars (body ++ tail)).map .type ++ tail

/-! ## Passes -/

def Pass.finish {α : Type} (roots : Roots) (pass : Pass α) : Run Notice Fault (α × Progress) :=
  let progress := Progress.run roots pass.events
  ⟨progress.notices, pass.outcome.map (·, progress)⟩

variable (cat : Catalog)

def augmentRoots : Pass (Roots × NameMap (List TypeExt)) := do
  let outcomes ← Pass.each (fun entry => augmentRoot cat entry.2) cat.roots
  return (cat.roots.zipWith (fun entry outcome => (entry.1, outcome.1)) outcomes,
    .ofList (outcomes.map fun outcome => (outcome.1.name, outcome.2)))

def augmentType (defn : TypeDef) : Pass (TypeDef × Option (List TypeExt)) := do
  Run.ofExcept defn.checkEndpoints
  if defn.isNode then
    let outcome ← augmentNodeType cat defn
    return (outcome.definition, some outcome.extensions)
  return (defn, none)

def augmentTypes : Pass (List (TypeDef × Option (List TypeExt))) :=
  Pass.each (augmentType cat) cat.types.values

def mergeExtensions (declared augmented : NameMap (List TypeExt)) : List TypeExt :=
  declared.flatMap fun entry => (augmented.get? entry.1).getD entry.2

/-! ## Putting the parts together -/

/-- The operation types that are kept: a created one only if it has fields. -/
def keptRoots (roots : Roots) : Roots :=
  roots.filter fun entry => !(entry.2.generated && entry.2.fields.isEmpty)

def droppedRootNotices (roots : Roots) : List Notice :=
  (roots.filter fun entry => entry.2.generated && entry.2.fields.isEmpty).map fun entry =>
    { level := .debug, content := "No field was generated on " ++ entry.2.name ++
      ", leaving it out" }

def completeSchema (roots : Roots) (schema : SchemaDef) : SchemaDef :=
  let declared := schema.operations.map (·.1)
  let emitted := (keptRoots roots).map (·.2.name)
  let added := roots.filter fun entry => !declared.contains entry.1 && emitted.contains entry.2.name
  { schema with operations := schema.operations ++ added.map fun entry => (entry.1, entry.2.name) }

def sortByName (types : List TypeDef) : List TypeDef :=
  types.mergeSort fun first second => decide (first.name ≤ second.name)

def keptTypes (declared : NameMap TypeDef) (generated : NameMap TypeDef) : List TypeDef :=
  (sortByName generated.values).filter fun defn => !declared.contains defn.name

def droppedTypeNotices (declared : NameMap TypeDef) (generated : NameMap TypeDef) : List Notice :=
  ((sortByName generated.values).filter fun defn => declared.contains defn.name).map fun defn =>
    { level := .debug
      content := defn.name ++ " is declared in the type definitions, skipping the generated type" }

/-- The generated types together with those that do not depend on any type: temporal and spatial
types and the enum of directions, unless the document declares that. -/
def completeGenerated (generated : NameMap TypeDef) : NameMap TypeDef :=
  let stored := (storedTypes cat.settings).foldl (fun map defn => Progress.register map defn true)
    generated
  if cat.types.contains directionsEnum then stored
    else Progress.register stored directionsEnumDef false

def Catalog.count (classification : Classification) : Nat :=
  (cat.types.values.filter fun defn => defn.classification == some classification).length

def summary (generated : NameMap TypeDef) (doc : Document) : Notice where
  level := .info
  content := "Augmented " ++ toString (cat.count .node) ++ " node types and " ++
    toString (cat.count .relationship) ++ " relationship types, generated " ++
      toString generated.length ++
    " types (" ++ toString doc.length ++ " definitions in total)"

def Catalog.augment : Run Notice Fault Document := do
  let ((roots, rootExtensions), _) ← (augmentRoots cat).finish cat.roots
  let (outcomes, progress) ← (augmentTypes cat).finish roots
  let generated := completeGenerated cat progress.generated
  let directives ← directiveDefinitions cat.types cat.directives cat.settings
  Run.emitAll (droppedRootNotices progress.roots ++ droppedTypeNotices cat.types generated)
  let augmented := outcomes.foldl (fun map outcome =>
    match outcome.2 with
    | some extensions => map.insert outcome.1.name extensions
    | none => map) rootExtensions
  let doc := Parts.document cat.settings
    { directives := directives.values
      schema := cat.schema.map (completeSchema progress.roots)
      types := outcomes.map (·.1)
      roots := (keptRoots progress.roots).map (·.2.build)
      generated := keptTypes cat.types generated
      extensions := mergeExtensions cat.extensions augmented
      others := cat.others }
  Run.emit (summary cat generated doc)
  return doc

def Document.augment (settings : Settings) (doc : Document) : Run Notice Fault Document := do
  let cat ← Catalog.ofDocument settings doc
  cat.augment

def Document.read (text : String) : Run Notice Fault Document :=
  Run.ofExcept ((Document.parse text).mapError .malformed)

def augmentText (settings : Settings) (text : String) : Run Notice Fault String := do
  let doc ← Document.read text
  let augmented ← Document.augment settings doc
  return Document.text augmented

end GraphApi
