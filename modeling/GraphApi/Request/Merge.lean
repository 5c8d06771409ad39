import GraphApi.Document.Printer
import GraphApi.Request.Selection

/-!
# Fields under one key

Fields that answer under the same key have to be merged: they select the same member with the same
arguments, unless they never apply to the same value, and what they return has the same shape.

The fields of a selection are compared sheet by sheet: a sheet holds the fields that are written in
one place, among the selections themselves or in a fragment. The fields of one fragment are compared
where the fragment is defined, and those of two fragments once.
-/

namespace GraphApi

mutual

def Literal.ordered : Literal → Literal
  | .list items => .list (Literal.orderedItems items)
  | .object fields => .object ((Literal.orderedFields fields).mergeSort fun a b =>
    decide (a.1 ≤ b.1))
  | other => other

def Literal.orderedItems : List Literal → List Literal
  | [] => []
  | item :: rest => item.ordered :: Literal.orderedItems rest

def Literal.orderedFields : List (Name × Literal) → List (Name × Literal)
  | [] => []
  | (name, item) :: rest => (name, item.ordered) :: Literal.orderedFields rest

end

def argumentsKey (arguments : List (Name × Literal)) : String :=
  Printer.literal (Literal.object arguments).ordered

structure KeyedField where
  parent : Option Name
  key : Name
  name : Name
  arguments : List (Name × Literal)
  member : Option FieldDef
  nested : List Selection

variable (schema : Schema)

def KeyedField.ofField (parent : Option Name) (label : Option Name) (name : Name)
    (arguments : List (Name × Literal)) (nested : List Selection) : KeyedField where
  parent := parent
  key := label.getD name
  name := name
  arguments := arguments
  member := parent.bind fun parent => (schema.fieldsOf parent).find? (·.name == name)
  nested := nested

mutual

def Selection.ownFields (schema : Schema) (parent : Option Name) : Selection → List KeyedField
  | .field label name arguments _ nested => [.ofField schema parent label name arguments nested]
  | .spread _ _ => []
  | .inline condition _ nested => Selection.allOwnFields schema (condition.or parent) nested

def Selection.allOwnFields (schema : Schema) (parent : Option Name) :
    List Selection → List KeyedField
  | [] => []
  | head :: rest => head.ownFields schema parent ++ Selection.allOwnFields schema parent rest

end

mutual

def Selection.ownSpreads : Selection → List Name
  | .field .. => []
  | .spread fragment _ => [fragment]
  | .inline _ _ nested => Selection.allOwnSpreads nested

def Selection.allOwnSpreads : List Selection → List Name
  | [] => []
  | head :: rest => head.ownSpreads ++ Selection.allOwnSpreads rest

end

/-- Fields that are written in one place: a fragment, or else selections. -/
structure Sheet where
  fragment : Option Name
  fields : List KeyedField

def sheetsOf (fragments : List FragmentDef) (parent : Option Name) (selections : List Selection) :
    List Sheet :=
  let next := fun name =>
    ((findFragment fragments name).map fun fragment =>
      Selection.allOwnSpreads fragment.selections).getD []
  let used := (reachBy fragments next (Selection.allOwnSpreads selections)).filterMap
    (findFragment fragments)
  { fragment := none, fields := Selection.allOwnFields schema parent selections } ::
    used.map fun fragment =>
      { fragment := some fragment.name
        fields := Selection.allOwnFields schema (some fragment.condition) fragment.selections }

def sameShape : TypeRef → TypeRef → Bool
  | .list first needed, .list second required => needed = required && sameShape first second
  | .named first needed, .named second required =>
    needed = required && (!(schema.isLeaf first || schema.isLeaf second) || first = second)
  | .named .., .list .. | .list .., .named .. => false

/-- Whether two fields never apply to the same value: they select from different object types. -/
def areExclusive (first second : KeyedField) : Bool :=
  match first.parent, second.parent with
  | some a, some b => a ≠ b && schema.kind? a = some .object && schema.kind? b = some .object
  | _, _ => false

def returnSameShape (first second : KeyedField) : Bool :=
  match first.member, second.member with
  | some a, some b => sameShape schema a.type b.type
  | _, _ => true

def KeyedField.returned? (field : KeyedField) : Option Name := field.member.map (·.type.base)

/-- The pairs of fragments that have been compared, and whether as such that never apply to the same
value. -/
abbrev Compared := List (Name × Name × Bool)

abbrev Comparison := StateM Compared Bool

def compareFields (compare : KeyedField → KeyedField → Comparison)
    (first second : List KeyedField) : Comparison :=
  first.allM fun a => second.allM fun b => if a.key = b.key then compare a b else return true

def Sheet.compare (compare : KeyedField → KeyedField → Comparison) (exclusive : Bool)
    (first second : Sheet) : Comparison := do
  match first.fragment, second.fragment with
  | some a, some b =>
    if a = b || (← get).contains (a, b, exclusive) then return true
    modify ((a, b, exclusive) :: ·)
    compareFields compare first.fields second.fields
  | _, _ => compareFields compare first.fields second.fields

def canMerge (fragments : List FragmentDef) : Nat → Bool → KeyedField → KeyedField → Comparison
  | 0, _, _, _ => return true
  | levels + 1, excluded, first, second =>
    let exclusive := excluded || areExclusive schema first second
    let isSame := first.name = second.name && argumentsKey first.arguments =
      argumentsKey second.arguments
    if (exclusive || isSame) && returnSameShape schema first second then
      (sheetsOf schema fragments first.returned? first.nested).allM fun a =>
        (sheetsOf schema fragments second.returned? second.nested).allM fun b =>
          a.compare (canMerge fragments levels exclusive) exclusive b
    else return false

def allPairs {α : Type} (compare : α → α → Comparison) : List α → Comparison
  | [] => return true
  | first :: rest => do
    if ← rest.allM (compare first) then allPairs compare rest else return false

def areMergeable (fragments : List FragmentDef) (levels : Nat) (parent : Option Name)
    (selections : List Selection) : Bool :=
  let compare := canMerge schema fragments levels false
  let sheets := sheetsOf schema fragments parent selections
  let comparison : Comparison := do
    let own := Selection.allOwnFields schema parent selections
    if ← allPairs (fun a b => if a.key = b.key then compare a b else return true) own then
      allPairs (Sheet.compare compare false) sheets
    else return false
  (comparison.run []).1

mutual

def Schema.mergesInside (schema : Schema) (fragments : List FragmentDef) (levels : Nat)
    (parent : Option Name) : Selection → Bool
  | .field _ name _ _ nested =>
    let returned := schema.returned? parent name
    areMergeable schema fragments levels returned nested &&
      Schema.mergesInsideAll schema fragments levels returned nested
  | .spread .. => true
  | .inline condition _ nested => Schema.mergesInsideAll schema fragments levels
      (condition.or parent) nested

def Schema.mergesInsideAll (schema : Schema) (fragments : List FragmentDef) (levels : Nat)
    (parent : Option Name) : List Selection → Bool
  | [] => true
  | head :: rest =>
    Schema.mergesInside schema fragments levels parent head &&
      Schema.mergesInsideAll schema fragments levels parent rest

end

def Schema.merges (fragments : List FragmentDef) (levels : Nat) (parent : Option Name)
    (selections : List Selection) : Bool :=
  areMergeable schema fragments levels parent selections &&
    schema.mergesInsideAll fragments levels parent selections

end GraphApi
