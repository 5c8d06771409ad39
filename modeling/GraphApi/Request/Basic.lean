import GraphApi.Schema.Literal

/-!
# Requests

A request is a document of operations and fragments. Here is what its parts refer to in a schema:
the members that fields select, the types that fragments apply to, and whether two of them can apply
to the same value.
-/

namespace GraphApi

namespace Document

def operations (doc : Document) : List OperationDef :=
  doc.filterMap fun
    | .operation defn => some defn
    | _ => none

def fragments (doc : Document) : List FragmentDef :=
  doc.filterMap fun
    | .fragment defn => some defn
    | _ => none

end Document

def findFragment (fragments : List FragmentDef) (name : Name) : Option FragmentDef :=
  (fragments.filter (·.name == name)).getLast?

def typeNameField : FieldDef := { name := "__typename", type := Wrappers.required.wrap "String" }

def schemaField : FieldDef := { name := "__schema", type := Wrappers.required.wrap "__Schema" }

def typeField : FieldDef :=
  { name := "__type", type := .plain "__Type",
    arguments := [{ name := "name", type := Wrappers.required.wrap "String" }] }

namespace Schema

def selected? (schema : Schema) (parent name : Name) : Option FieldDef :=
  if name = schemaField.name && schema.root? .query = some parent then some schemaField
  else if name = typeField.name && schema.root? .query = some parent then some typeField
  else if name = typeNameField.name && schema.isComposite parent then some typeNameField
  else
    match schema.type? parent with
    | some { body := .object _ fields, .. } | some { body := .interface _ fields, .. } =>
        fields.find? (·.name == name)
    | _ => none

def possibleTypes (schema : Schema) (name : Name) : List Name :=
  match schema.type? name with
  | some { body := .object _ _, .. } => [name]
  | some { body := .union members, .. } => members
  | some { body := .interface _ _, .. } =>
    schema.types.keys.filter fun type => schema.kind? type = some .object &&
      schema.isMember type name
  | _ => []

def overlap (schema : Schema) (first second : Name) : Bool :=
  first = second || (schema.possibleTypes first).any (schema.possibleTypes second).contains

end Schema

def findArgument (arguments : List (Name × Literal)) (name : Name) : Option Literal :=
  ((arguments.filter (·.1 == name)).getLast?).map (·.2)

/-! ## Fragments inside each other -/

def spreadNames (selections : List Selection) : List Name :=
  (Selection.withinAll selections).filterMap fun
    | .spread fragment _ => some fragment
    | .field .. | .inline .. => none

def spreadsOf (fragments : List FragmentDef) (name : Name) : List Name :=
  ((findFragment fragments name).map fun fragment => spreadNames fragment.selections).getD []

def reachFrom (next : Name → List Name) : Nat → List Name → List Name → List Name
  | 0, _, known => known
  | steps + 1, new, known =>
    let found := (distinctBy id (new.flatMap next)).filter fun name => !known.contains name
    if found.isEmpty then known else reachFrom next steps found (known ++ found)

/-- Names together with all that they lead to. No way to a fragment is longer than there are
fragments. -/
def reachBy (fragments : List FragmentDef) (next : Name → List Name) (names : List Name) :
    List Name :=
  reachFrom next (fragments.length + 1) (distinctBy id names) (distinctBy id names)

def reach (fragments : List FragmentDef) (names : List Name) : List Name :=
  reachBy fragments (spreadsOf fragments) names

def areAcyclic (fragments : List FragmentDef) : Bool :=
  fragments.all fun fragment => !(reach fragments (spreadNames fragment.selections)).contains
    fragment.name

def OperationDef.fragments (operation : OperationDef) (fragments : List FragmentDef) :
    List FragmentDef :=
  (reach fragments (spreadNames operation.selections)).filterMap (findFragment fragments)

end GraphApi
