import GraphApi.NameMap

/-!
# Scopes and blocks

A scope says how the values of the fields under translation are reached. A nested statement runs in
a block of its own: a subquery that unwinds the values of its field, runs the statement and the
blocks nested in it, and returns a count.
-/

namespace GraphApi.Nested

/-- Where the fields under translation are reached. -/
structure Scope where
  expression : String := ""
  parentField : Name := ""
  /-- Whether the enclosing field is a list that the fields are reached through without entering a
  block. -/
  parentIsList : Bool := false
  /-- Whether the fields are reached without entering a block. -/
  isRoot : Bool := true
  /-- Whether the root statement unwinds the argument through which the fields are reached. -/
  usesListVariable : Bool := false
  path : List Name := []
deriving DecidableEq, Repr

/-- The expression for the values of a field. The variable of an enclosing block is handed on under
a name with an underscore in front. -/
def Scope.parameter (scope : Scope) (field type : Name) (isComputed usesListVariable : Bool) :
    String :=
  if scope.expression = "" then
    if usesListVariable then type else field
  else if !isComputed then scope.expression ++ "." ++ field
  else if scope.isRoot then
    if usesListVariable then scope.expression else "$" ++ scope.expression
  else "_" ++ scope.expression ++ "." ++ field

/-- The clauses that unwind the values of a field. A list argument is unwound first, unless the root
statement unwinds it. -/
def Scope.unwindClause (scope : Scope) (parameter : String) (field type : Name)
    (usesListVariable : Bool) : String :=
  if !scope.isRoot then "UNWIND " ++ parameter ++ " AS " ++ type
  else if scope.parentIsList && !usesListVariable then
    "UNWIND " ++ parameter ++ " AS _" ++ scope.parentField ++ "\n  UNWIND _" ++ scope.parentField ++
      "." ++ field ++
      " as " ++ type
  else "UNWIND " ++ parameter ++ "." ++ field ++ " AS " ++ type

def Scope.resultName (scope : Scope) (field : Name) : Name :=
  "_" ++ (if scope.parentField = "" then "" else scope.parentField ++ "_") ++ field ++ "_"

/-- A subquery: its unwind clauses, its statement, the name of its result and the blocks nested in
it. -/
inductive Block where
  | subquery (unwinding statement : String) (result : Name) (inner : List Block)

instance : Inhabited Block := ⟨.subquery "" "" "" []⟩

def bodyText (unwinding statement nested : String) (result : Name) : String :=
  "\n  WITH *\n  " ++ unwinding ++ "\n  " ++ statement ++ nested ++ "\n  RETURN COUNT(*) AS " ++
    result ++ "\n"

def subqueryText (body : String) : String :=
  "\nCALL \x7b" ++ body ++ "\x7d"

mutual

def Block.text : Block → String
  | .subquery unwinding statement result inner =>
    subqueryText (bodyText unwinding statement (Block.texts inner) result)

def Block.texts : List Block → String
  | [] => ""
  | [block] => block.text
  | block :: next :: rest => block.text ++ "\n" ++ Block.texts (next :: rest)

end

end GraphApi.Nested
