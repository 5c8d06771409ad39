import GraphApi.Cypher.Projection
import GraphApi.Directive.Known
import GraphApi.Nested.Block
import GraphApi.Nested.Parameter
import GraphApi.Schema.Basic

/-!
# Blocks for nested statements

Members of input types may carry statements of their own. For each of them that is given objects
there is one block, nested in the block of the closest enclosing member with a statement.
-/

namespace GraphApi.Nested

/-- What the blocks depend on besides the values: the members of input types, and the statement of
the mutation. -/
structure Setting where
  members : Name → Option (List ArgumentDef)
  root : Value := .text ""

def levelLimit : Nat := 32

/-- The texts that open a quoted part when they are items of a list: every run of quotation marks in
their order. -/
def quoteRuns : List String := ["", "'", "\"", "`", "'\"", "\"`", "'\"`"]

/-- Reads a list as a statement, item by item, inside a quoted part that `quote` opened or outside
of one. Outside every item has to open a quoted part. Inside a backslash protects the next item,
except between back quotes. -/
def readItems (quote : Option String) : List Value → Except Fault Unit
  | [] => .ok ()
  | item :: rest =>
    match quote, item with
    | none, .text content =>
      if quoteRuns.contains content then readItems (some content) rest
      else .error (.strayStatement .list)
    | none, _ => .error (.strayStatement .scalar)
    | some mark, .text content =>
      if content = "\\" && mark ≠ "`" then
        match rest with
        | [] => .ok ()
        | _ :: others => readItems quote others
      else readItems (if content = mark then none else quote) rest
    | some _, _ => readItems quote rest

/-- A statement that is read for its clauses: a text, or something without clauses, which a list of
quoted parts and an empty object are. -/
def readStatement : Value → Except Fault (Option String)
  | .text content => .ok (some content)
  | .list items => (readItems none items).map fun _ => none
  | .object [] => .ok none
  | .object _ => .error (.strayStatement .object)
  | _ => .error (.strayStatement .scalar)

/-- The statement of a member, empty if there is none. It has to be a text. -/
def memberStatement (member : ArgumentDef) : Except Fault String := do
  let value := cypherStatement member.directives
  if value.isGiven then
    match ← readStatement value with
    | some content => .ok content
    | none => .error (.strayStatement .quotedList)
  else .ok ""

def memberIsComputed (member : ArgumentDef) : Bool :=
  hasDirective member.directives Mark.cypher.word

def Setting.unwinds (setting : Setting) (arg type : Name) : Except Fault Bool := do
  match ← readStatement setting.root with
  | some root => return Cypher.unwinds root.toList arg.toList type.toList
  | none => return false

def Setting.usesListVariable (setting : Setting) (scope : Scope) (member : Name) (type : Name) :
    Except Fault Bool :=
  if scope.isRoot && scope.expression = "" then setting.unwinds member type
    else .ok scope.usesListVariable

def blockStatement (statement : String) (type : Name) (hasNested : Bool) :
    Run Notice Fault String := do
  let threaded ← Run.ofExcept (Cypher.threadName statement.toList type.toList hasNested)
  if Cypher.needsExport statement.toList hasNested then
    Run.emit { level := .debug, content := "No WITH clause exports " ++ type ++ ", appending one" }
  return String.ofList threaded

def eachJoined {α β : Type} (step : α → Run Notice Fault (List β)) :
    List α → Run Notice Fault (List β)
  | [] => return []
  | item :: rest => do
    let first ← step item
    let others ← eachJoined step rest
    return first ++ others

def Scope.enterBlock (scope : Scope) (member type : Name) (isList : Bool) : Scope where
  expression := type
  parentField := member
  parentIsList := isList
  isRoot := false
  path := scope.path ++ [member]

def Scope.enterField (scope : Scope) (member : Name) (expression : String)
    (isList usesListVariable : Bool) : Scope :=
  { scope with
    expression
    parentField := member
    parentIsList := isList
    usesListVariable
    path := scope.path ++ [member] }

/-- The blocks for one member, by `within` for the members below it. A member without keys below it
has none. -/
def memberBlocks (setting : Setting)
    (within : List ArgumentDef → NameMap Value → Scope → Run Notice Fault (List Block))
    (keys : NameMap Value) (scope : Scope) (member : ArgumentDef) :
    Run Notice Fault (List Block) := do
  match setting.members member.type.base, keysUnder keys member.name with
  | some below, some keysBelow =>
    let type := member.type.base
    let isList := scope.isRoot && member.type.wrappers.list
    let usesListVariable ← Run.ofExcept (setting.usesListVariable scope member.name type)
    let parameter := scope.parameter member.name type (memberIsComputed member) usesListVariable
    if memberIsComputed member then
      Run.ofExcept (checkStatement member.directives)
      let inner ← within below keysBelow (scope.enterBlock member.name type isList)
      let statement ← Run.ofExcept (memberStatement member)
      let threaded ← blockStatement statement type (!inner.isEmpty)
      return [.subquery (scope.unwindClause parameter member.name type usesListVariable) threaded
        (scope.resultName member.name) inner]
    else within below keysBelow (scope.enterField member.name parameter isList usesListVariable)
  | _, _ => return []

def blocksWithin (setting : Setting) :
    Nat → List ArgumentDef → NameMap Value → Scope → Run Notice Fault (List Block)
  | 0, _, _, scope => Run.fail (.translation (.tooDeep levelLimit scope.path))
  | levels + 1, members, keys, scope =>
    eachJoined (memberBlocks setting (blocksWithin setting levels) keys scope) members

def blocks (setting : Setting) (arguments : List ArgumentDef) (values : Entries)
    (expression : String) : Run Notice Fault (List Block) := do
  let keys ← Run.ofExcept (keysOfEntries values)
  blocksWithin setting (levelLimit + 1) arguments keys { expression }

def blocksText (setting : Setting) (arguments : List ArgumentDef) (values : Entries)
    (expression : String) : Run Notice Fault String := do
  return Block.texts (← blocks setting arguments values expression)

/-! ## Mutations -/

/-- Puts nested blocks into the statement of a mutation. It stays as it is if there are none, or no
place for them. -/
def withBlocks (root : Value) (nested : String) : Run Notice Fault Value := do
  if nested = "" then return root
  let content ← Run.ofExcept (readStatement root)
  match content.bind fun content => Cypher.insertBlocks? content.toList nested.toList with
  | some statement => return .text (String.ofList statement)
  | none =>
    Run.emit
      { level := .warning
        content := "The mutation statement does not end with a RETURN clause, skipping its nested @cypher input" }
    return root

def mutationStatement (members : Name → Option (List ArgumentDef)) (root : Value)
    (arguments : List ArgumentDef) (values : Entries) : Run Notice Fault Value := do
  let nested ← blocksText { members, root } arguments values ""
  withBlocks root nested

/-! ## Mutations with statements -/

structure Translation where
  statement : Value
  parameters : Entries

def mutation? (schema : Schema) (field : Name) : Option FieldDef :=
  (schema.root? .mutation).bind fun root => (schema.fieldsOf root).find? (·.name == field)

def translate (schema : Schema) (field : Name) (values : Entries) :
    Run Notice Fault Translation := do
  match mutation? schema field with
  | none => Run.fail (.translation (.unknownMutation field))
  | some defn =>
    Run.ofExcept (checkStatement defn.directives)
    let root := cypherStatement defn.directives
    match root with
    | .null => Run.fail (.translation (.noStatement field))
    | _ =>
      let statement ← mutationStatement schema.inputMembers? root defn.arguments values
      Run.emit { level := .debug, content := "Translated " ++ field ++ ":\n" ++ statement.display }
      return { statement, parameters := values }

end GraphApi.Nested
