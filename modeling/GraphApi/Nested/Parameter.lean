import GraphApi.Fault
import GraphApi.Value.Basic

/-!
# Which fields are given objects

The values of a mutation are reduced to the keys of their objects. The keys of a list of objects are
those of all of its items together.
-/

namespace GraphApi.Nested

mutual

/-- Merges entries into a map: objects under one key are merged, anything else is replaced. -/
def mergeEntries (target : NameMap Value) : Entries → NameMap Value
  | [] => target
  | (key, value) :: rest => mergeEntries
    (target.insert key (mergeValue (target.get? key) value)) rest

def mergeValue (old : Option Value) : Value → Value
  | .object entries =>
    match old with
    | some (.object target) => .object (mergeEntries target entries)
    | _ => .object entries
  | value => value

end

mutual

/-- The keys of the objects that a value holds. Other values hold none. -/
def keysOfValue : Value → Except Fault (Option (NameMap Value))
  | .object entries => do return some (← keysOfEntries entries)
  | .list (.object entries :: rest) => do
    let first ← keysOfEntries entries
    return some (← mergeItems (mergeEntries [] first) rest)
  | _ => return none

def keysOfEntries : Entries → Except Fault (NameMap Value)
  | [] => return []
  | (name, value) :: rest => do
    let below ← keysOfValue value
    let others ← keysOfEntries rest
    match below with
    | some keys => return (name, .object keys) :: others
    | none => return others

def mergeItems (merged : NameMap Value) : List Value → Except Fault (NameMap Value)
  | [] => return merged
  | .object entries :: rest => do
    let keys ← keysOfEntries entries
    mergeItems (mergeEntries merged keys) rest
  | _ :: _ => throw .mixedItems

end

def keysUnder (keys : NameMap Value) (field : Name) : Option (NameMap Value) :=
  match keys.get? field with
  | some (.object below) => some below
  | _ => none

end GraphApi.Nested
