import GraphApi.Graph.Classification

/-!
# The definitions of a document, sorted

A catalog holds the definitions of a document by what they are. The operation types are taken out of
the types and kept apart, since the augmentation adds fields to them; a missing one is created if
some type would get fields on it.
-/

namespace GraphApi

/-- An operation type whose fields grow while the other types are augmented. -/
structure RootType where
  definition : TypeDef
  fields : List FieldDef
  generated : Bool
  extensionFields : List Name

namespace RootType

def name (root : RootType) : Name := root.definition.name

def has (root : RootType) (field : Name) : Bool :=
  root.extensionFields.contains field || root.fields.any (·.name == field)

/-- Adds a field at the end; a field that is already declared under its name is kept instead. -/
def add (root : RootType) (field : FieldDef) : RootType :=
  if root.has field.name then root else { root with fields := root.fields ++ [field] }

def build (root : RootType) : TypeDef :=
  root.definition.withFields root.fields

end RootType

abbrev Roots := List (OperationKind × RootType)

structure Catalog where
  settings : Settings
  types : NameMap TypeDef := []
  extensions : NameMap (List TypeExt) := []
  directives : NameMap DirectiveDef := []
  roots : Roots := []
  schema : Option SchemaDef := none
  others : List Definition := []

namespace Catalog

variable (cat : Catalog)

/-- Sorts one definition in. A later definition of a name takes the place of an earlier one,
extensions gather under the name of their type. -/
def sortIn : Definition → Catalog
  | .schema defn => { cat with schema := some defn }
  | .type defn => { cat with types := cat.types.insert defn.name defn }
  | .typeExt extn =>
    { cat with
      extensions := cat.extensions.insert extn.name
        ((cat.extensions.get? extn.name).getD [] ++ [extn]) }
  | .directive defn => { cat with directives := cat.directives.insert defn.name defn }
  | other => { cat with others := cat.others ++ [other] }

def extensionsOf (type : Name) : List TypeExt :=
  (cat.extensions.get? type).getD []

def usualRootName : OperationKind → Name
  | .query => "Query"
  | .mutation => "Mutation"
  | .subscription => "Subscription"

/-- The name of an operation type: the last one that the schema definition gives, else the usual
one. -/
def rootName (schema : Option SchemaDef) (kind : OperationKind) : Name :=
  match schema with
  | some defn =>
    ((defn.operations.filter (·.1 == kind)).getLast?.map (·.2)).getD (usualRootName kind)
  | none => usualRootName kind

def hasAugmentable (kind : OperationKind) : Bool :=
  cat.types.any fun entry =>
    entry.2.isNode && !entry.2.isIgnored && cat.settings.augments kind entry.1

def extensionFieldNames (type : Name) : List Name :=
  (cat.extensionsOf type).flatMap fun extn => extn.fields.map (·.name)

/-- Takes the operation types out of the types; of two operations of one name the first gets the
type. -/
def takeRoots (types : NameMap TypeDef) : List Name → List (Option TypeDef) × NameMap TypeDef
  | [] => ([], types)
  | name :: rest =>
    let (declared, left) := takeRoots (types.erase name) rest
    (types.get? name :: declared, left)

def createsRoot (kind : OperationKind) : Bool :=
  kind ≠ .subscription && cat.settings.enables kind && cat.hasAugmentable kind

def setUpRoot (kind : OperationKind) (name : Name) (declared : Option TypeDef) :
    Run Notice Fault Roots := do
  let extensionFields := cat.extensionFieldNames name
  match declared with
  | some defn =>
    match defn.body.fields? with
    | some fields => return [(kind, { definition := defn, fields, generated := false, extensionFields })]
    | none => Run.fail .lacksFields
  | none =>
    if cat.createsRoot kind then
      Run.emit { level := .debug, content := "Creating the " ++ name ++ " type" }
      return [(kind, { definition := { name, body := .object [] [] }, fields := [], generated := true,
                       extensionFields })]
    return []

def setUpRoots (cat : Catalog) : List (OperationKind × Name × Option TypeDef) →
    Run Notice Fault Roots
  | [] => return []
  | (kind, name, declared) :: rest => do
    let first ← cat.setUpRoot kind name declared
    let others ← cat.setUpRoots rest
    return first ++ others

def ofDocument (settings : Settings) (doc : Document) : Run Notice Fault Catalog := do
  let sorted := doc.foldl sortIn { settings }
  let names := OperationKind.all.map (rootName sorted.schema)
  let (declared, types) := takeRoots sorted.types names
  let catalog := { sorted with types }
  let roots ← catalog.setUpRoots (OperationKind.all.zip (names.zip declared))
  return { catalog with roots }

/-! ## What can be asked of a catalog -/

def root? (kind : OperationKind) : Option RootType :=
  cat.roots.lookup kind

def operationOf? (type : Name) : Option OperationKind :=
  (cat.roots.find? fun entry => entry.2.name == type).map (·.1)

/-- Whether a type is known only through extensions, because another service owns it. -/
def isExternal (type : Name) : Bool :=
  !cat.types.contains type && cat.extensions.contains type

def isObject (type : Name) : Bool :=
  ((cat.types.get? type).map TypeDef.isObject).getD false

def augments (kind : OperationKind) (type : Name) : Bool :=
  (cat.root? kind).isSome && !cat.isExternal type &&
    match cat.types.get? type with
    | some defn => defn.isNode && !defn.isIgnored && cat.settings.augments kind type
    | none => false

def fieldInfos (type : Name) : List FieldInfo :=
  let own := ((cat.types.get? type).map TypeDef.fields).getD []
  let added := (cat.extensionsOf type).flatMap TypeExt.fields
  (own ++ added).map (·.describe cat.types)

end Catalog

/-! ## What an augmentation reports -/

/-- A step of an augmentation: a notice, a generated type, or a generated field of an operation
type. -/
inductive Event where
  | note (notice : Notice)
  | register (definition : TypeDef) (owner : Bool)
  | offer (kind : OperationKind) (field : FieldDef)

abbrev Pass := Run Event Fault

namespace Pass

def note (level : Level) (content : String) : Pass Unit :=
  Run.emit (.note { level, content })

def register (defn : TypeDef) : Pass Unit :=
  Run.emit (.register defn false)

def registerOwn (defn : TypeDef) : Pass Unit :=
  Run.emit (.register defn true)

def offer (kind : OperationKind) (fields : List FieldDef) : Pass Unit :=
  Run.emitAll (fields.map (.offer kind))

def each {α β : Type} (step : α → Pass β) : List α → Pass (List β)
  | [] => return []
  | item :: rest => do
    let first ← step item
    let others ← each step rest
    return first :: others

/-- Whether generated fields of an operation may refer to a type; a type of another service is
reported. -/
def augments (cat : Catalog) (kind : OperationKind) (type : Name) : Pass Bool := do
  if (cat.root? kind).isSome && cat.isExternal type then
    note .debug (type ++ " is an external type, skipping its generated " ++ kind.word ++ " API")
  return cat.augments kind type

end Pass

structure Progress where
  roots : Roots
  generated : NameMap TypeDef := []
  notices : List Notice := []

namespace Progress

/-- Registers a generated type: the first one of a name stays unless its owner registers it. -/
def register (generated : NameMap TypeDef) (defn : TypeDef) (owner : Bool) : NameMap TypeDef :=
  if generated.contains defn.name && !owner then generated else generated.insert defn.name defn

def offerNotice (root : RootType) (field : FieldDef) : Notice where
  level := .debug
  content :=
    if root.has field.name then
      root.name ++ "." ++ field.name ++ " is already defined, skipping the generated field"
    else "Adding " ++ root.name ++ "." ++ field.name

/-- Takes one step. A field offered to an operation type that does not exist is dropped. -/
def step (progress : Progress) : Event → Progress
  | .note notice => { progress with notices := progress.notices ++ [notice] }
  | .register defn owner =>
    { progress with generated := register progress.generated defn owner }
  | .offer kind field =>
    match progress.roots.lookup kind with
    | some root =>
      { progress with
        roots := progress.roots.map fun entry => if entry.1 = kind then (kind, entry.2.add field) else entry
        notices := progress.notices ++ [offerNotice root field] }
    | none => progress

def run (roots : Roots) (events : List Event) : Progress :=
  events.foldl step { roots }

end Progress

end GraphApi
