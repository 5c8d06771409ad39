import GraphApi.Nested.Translate
import GraphApi.Request.Collect
import GraphApi.Request.Merge
import GraphApi.Schema.Definitions

/-!
# Translating requests

A valid request with one mutation is translated by its first field, with the values that its
literals and the given variables make up.
-/

namespace GraphApi

/-! ## Valid requests -/

def namesOperations (operations : List OperationDef) : Bool :=
  areDistinct (operations.filterMap (·.name)) &&
    (operations.length ≤ 1 || operations.all (·.name.isSome))

variable (schema : Schema)

/-- A subscription selects one field, and none of those by which a schema describes itself. -/
def Schema.isSingle (fragments : List FragmentDef) (operation : OperationDef) : Bool :=
  match operation.kind, schema.root? .subscription with
  | .subscription, some root =>
    match schema.collect fragments [] (some root) operation.selections with
    | .ok fields =>
      fields.length ≤ 1 && fields.all fun entry => entry.2.head?.all fun field =>
        !Text.startsWith "__" field.name
    | .error _ => false
  | _, _ => true

def Schema.fitsOperation (fragments : List FragmentDef) (levels : Nat) (operation : OperationDef) :
    Bool :=
  let root := schema.root? operation.kind
  schema.acceptsDirectives operation.directives &&
    schema.fitAll fragments root operation.selections &&
    schema.fitsVariables fragments operation &&
      schema.merges fragments levels root operation.selections &&
    schema.isSingle fragments operation

def Schema.fitsFragment (fragments : List FragmentDef) (levels : Nat) (fragment : FragmentDef) :
    Bool :=
  schema.isComposite fragment.condition && schema.acceptsDirectives fragment.directives &&
    schema.fitAll fragments (some fragment.condition) fragment.selections &&
    schema.merges fragments levels (some fragment.condition) fragment.selections

def usesFragments (operations : List OperationDef) (fragments : List FragmentDef) : Bool :=
  let used := reach fragments (operations.flatMap fun operation => spreadNames operation.selections)
  areDistinct (fragments.map (·.name)) && areAcyclic fragments && fragments.all fun fragment =>
    used.contains fragment.name

def Schema.validates (doc : Document) : Bool :=
  let operations := doc.operations
  let fragments := doc.fragments
  let levels := (doc.flatMap Definition.selections).length + 1
  let known := schema.typeNames
  doc.all (fun defn => !defn.isSystem) && namesOperations operations &&
    doc.all (fun defn => defn.references.all known.contains) &&
    usesFragments operations fragments &&
      Document.usesDirectives schema.isNeeded schema.directives doc &&
    doc.all Definition.writesOnce &&
    fragments.all (schema.fitsFragment fragments levels) &&
      operations.all (schema.fitsOperation fragments levels)

def Document.operation? (doc : Document) : Option OperationDef :=
  match doc.operations with
  | [operation] => some operation
  | _ => none

def Schema.prepare (doc : Document) (operation : OperationDef) (given : NameMap Value) :
    Except Fault (NameMap Value) :=
  if schema.validates doc then schema.variableValues given operation else .error .request

def Schema.rootFields (doc : Document) (operation : OperationDef) (assigned : NameMap Value) :
    Except Fault (NameMap (List SelectedField)) :=
  schema.collect (Document.fragments doc) assigned (schema.root? operation.kind)
    operation.selections

def Schema.firstField (fields : NameMap (List SelectedField)) :
    Except Fault (SelectedField × FieldDef) :=
  match fields.values.flatten with
  | [] => .error (.translation .noField)
  | field :: _ =>
    match schema.root? .mutation with
    | none => .error .lacksFields
    | some _ =>
      match Nested.mutation? schema field.name with
      | some member => .ok (field, member)
      | none => .error .undeclaredField

def Schema.mutationOf (doc : Document) : Except Fault OperationDef :=
  match doc.operation? with
  | some operation =>
    if operation.kind ≠ .mutation then .error (.translation .noMutation)
    else if schema.validates doc then .ok operation
    else .error .request
  | none => .error (.translation .noMutation)

def Schema.requested (doc : Document) (given : NameMap Value) :
    Except Fault (Name × NameMap Value) := do
  let operation ← schema.mutationOf doc
  let assigned ← schema.variableValues given operation
  let (field, member) ← schema.firstField (← schema.rootFields doc operation assigned)
  return (field.name, ← schema.argumentValues assigned member.arguments field.arguments)

def translateRequest (doc : Document) (given : NameMap Value) :
    Run Notice Fault Nested.Translation := do
  let (field, values) ← Run.ofExcept (schema.requested doc given)
  Nested.translate schema field values

end GraphApi
