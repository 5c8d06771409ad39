import GraphApi.Request.Coerce

/-!
# Collecting fields

The fields that selections come down to for a value of an object type, by the key under which they
answer. Selections can be left out by directives, and a fragment counts once.
-/

namespace GraphApi

structure SelectedField where
  name : Name
  arguments : List (Name × Literal)
  selections : List Selection

/-- What has been collected: the fields by key, and the fragments that have been used. -/
structure Collected where
  fields : NameMap (List SelectedField) := []
  used : List Name := []

variable (schema : Schema)

def Schema.condition? (assigned : NameMap Value) (defn : DirectiveDef)
    (directives : List Directive) : Except Fault (Option Value) := do
  match findDirective directives defn.name with
  | some directive =>
    let values ← schema.argumentValues assigned defn.arguments directive.arguments
    return values.get? "if"
  | none => return none

def Schema.isIncluded (assigned : NameMap Value) (directives : List Directive) :
    Except Fault Bool := do
  let skipped ← schema.condition? assigned Builtin.skipDirective directives
  if let some (.bool true) := skipped then return false
  let included ← schema.condition? assigned Builtin.includeDirective directives
  if let some (.bool false) := included then return false
  return true

def Schema.applies (type : Option Name) (condition : Name) : Bool :=
  match type with
  | some type => type = condition || schema.isMember type condition
  | none => false

mutual

def Selection.collect (schema : Schema) (assigned : NameMap Value) (type : Option Name)
    (ofFragment : Name → Collected → Except Fault Collected) (collected : Collected) :
    Selection → Except Fault Collected
  | .field label name arguments directives selections => do
    if !(← schema.isIncluded assigned directives) then return collected
    let key := label.getD name
    let earlier := (collected.fields.get? key).getD []
    return { collected with
      fields := collected.fields.insert key (earlier ++ [{ name, arguments, selections }]) }
  | .spread fragment directives => do
    if collected.used.contains fragment then return collected
    if !(← schema.isIncluded assigned directives) then return collected
    ofFragment fragment { collected with used := fragment :: collected.used }
  | .inline condition directives nested => do
    if !(← schema.isIncluded assigned directives) then return collected
    if condition.all (schema.applies type) then
      Selection.collectAll schema assigned type ofFragment collected nested
    else return collected

def Selection.collectAll (schema : Schema) (assigned : NameMap Value) (type : Option Name)
    (ofFragment : Name → Collected → Except Fault Collected) (collected : Collected) :
    List Selection → Except Fault Collected
  | [] => return collected
  | head :: rest => do
    let next ← head.collect schema assigned type ofFragment collected
    Selection.collectAll schema assigned type ofFragment next rest

end

def collectFragment (fragments : List FragmentDef) (assigned : NameMap Value) (type : Option Name) :
    Nat → Name → Collected → Except Fault Collected
  | 0, _, collected => return collected
  | levels + 1, name, collected =>
    match findFragment fragments name with
    | some fragment =>
      if schema.applies type fragment.condition then
        Selection.collectAll schema assigned type
        (collectFragment fragments assigned type levels) collected fragment.selections
      else return collected
    | none => return collected

def Schema.collect (fragments : List FragmentDef) (assigned : NameMap Value) (type : Option Name)
    (selections : List Selection) : Except Fault (NameMap (List SelectedField)) := do
  let collected ← Selection.collectAll schema assigned type
    (collectFragment schema fragments assigned type fragments.length) {} selections
  return collected.fields

end GraphApi
