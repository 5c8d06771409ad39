import GraphApi.NameMap
import GraphApi.Number.Binary64

/-!
# Values

Argument values, settings and everything else that is read from outside are trees of scalars, lists
and objects.
-/

namespace GraphApi

/-- A value: a leaf, a list of values or an object with values under distinct names. -/
inductive Value where
  | null
  | bool (value : Bool)
  | int (value : Int)
  | float (value : Binary64)
  | text (content : String)
  | list (items : List Value)
  | object (entries : List (Name × Value))

/-- The entries of an object. -/
abbrev Entries := List (Name × Value)

/-- The greatest number of digits that an integer is read from. -/
def digitLimit : Nat := 4300

namespace Value

instance : Inhabited Value := ⟨.null⟩

def field? (value : Value) (name : Name) : Option Value :=
  match value with
  | .object entries => NameMap.get? entries name
  | _ => none

def isObject : Value → Bool
  | .object _ => true
  | _ => false

def entries? : Value → Option Entries
  | .object entries => some entries
  | _ => none

def text? : Value → Option String
  | .text content => some content
  | _ => none

def items? : Value → Option (List Value)
  | .list items => some items
  | _ => none

end Value

end GraphApi
