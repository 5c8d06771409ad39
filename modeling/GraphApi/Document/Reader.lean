import GraphApi.Document.Basic
import GraphApi.Document.Token

/-!
# Reading documents

A reader consumes tokens from the front. Every repetition and every nested construct takes a bound,
which the number of tokens in the whole text supplies, so that all readers end.
-/

namespace GraphApi

/-- A reader consumes tokens and gives a result, or finds the text malformed. It knows a bound that
is greater than the number of tokens. -/
abbrev Reader := ReaderT Nat (StateT (List Token) (Except Malformed))

namespace Reader

variable {α : Type}

def refuse : Reader α :=
  throw .token

def peek : Reader (Option Token) := do
  return (← get).head?

def next : Reader Token := do
  match ← get with
  | token :: rest =>
    set rest
    return token
  | [] => refuse

def accept (token : Token) : Reader Bool := do
  match ← get with
  | head :: rest =>
    if head = token then
      set rest
      return true
    return false
  | [] => return false

def mark (c : Char) : Reader Unit := do
  unless ← accept (.mark c) do refuse

def keyword (word : String) : Reader Unit := do
  unless ← accept (.word word) do refuse

def name : Reader Name := do
  match ← next with
  | .word name => return name
  | _ => refuse

def itemsUntil (close : Char) (item : Reader α) : Nat → Reader (List α)
  | 0 => refuse
  | bound + 1 => do
    let first ← item
    if ← accept (.mark close) then return [first]
    return first :: (← itemsUntil close item bound)

def items (close : Char) (item : Reader α) : Reader (List α) := do
  itemsUntil close item (← read)

def optionalItems (opening close : Char) (item : Reader α) : Reader (List α) := do
  if ← accept (.mark opening) then items close item else return []

def separatedBy (separator : Char) (item : Reader α) : Nat → Reader (List α)
  | 0 => refuse
  | bound + 1 => do
    let first ← item
    if ← accept (.mark separator) then return first :: (← separatedBy separator item bound)
    return [first]

def separated (separator : Char) (item : Reader α) : Reader (List α) := do
  let _ ← accept (.mark separator)
  separatedBy separator item (← read)

/-! ## Literals, types, directives -/

/-- A literal of so many levels; variables are read only where they may stand. -/
def literal (allowsVariables : Bool) : Nat → Reader Literal
  | 0 => refuse
  | bound + 1 => do
    match ← next with
    | .int digits => return .int digits
    | .float digits => return .float digits
    | .text content block => return .text content block
    | .word "true" => return .bool true
    | .word "false" => return .bool false
    | .word "null" => return .null
    | .word name => return .enum name
    | .mark '$' => if allowsVariables then return .var (← name) else refuse
    | .mark '[' =>
      if ← accept (.mark ']') then return .list []
      return .list (← items ']' (literal allowsVariables bound))
    | .mark '\x7b' =>
      if ← accept (.mark '\x7d') then return .object []
      return .object (← items '\x7d' (do
        let key ← name
        mark ':'
        return (key, ← literal allowsVariables bound)))
    | _ => refuse

def value (allowsVariables : Bool) : Reader Literal := do
  literal allowsVariables (← read)

def typeRef : Nat → Reader TypeRef
  | 0 => refuse
  | bound + 1 => do
    match ← next with
    | .mark '[' =>
      let item ← typeRef bound
      mark ']'
      return .list item (← accept (.mark '!'))
    | .word name => return .named name (← accept (.mark '!'))
    | _ => refuse

def type : Reader TypeRef := do
  typeRef (← read)

def argument (allowsVariables : Bool) : Reader (Name × Literal) := do
  let key ← name
  mark ':'
  return (key, ← value allowsVariables)

def directivesUpTo (allowsVariables : Bool) : Nat → Reader (List Directive)
  | 0 => return []
  | bound + 1 => do
    if ← accept (.mark '@') then
      let head ← name
      let arguments ← optionalItems '(' ')' (argument allowsVariables)
      return { name := head, arguments } :: (← directivesUpTo allowsVariables bound)
    return []

def directives (allowsVariables : Bool) : Reader (List Directive) := do
  directivesUpTo allowsVariables (← read)

/-! ## Operations and fragments -/

def fragmentName : Reader Name := do
  let head ← name
  if head = "on" then refuse
  return head

def selection : Nat → Reader Selection
  | 0 => refuse
  | bound + 1 => do
    let nested := optionalItems '\x7b' '\x7d' (selection bound)
    if ← accept .ellipsis then
      match ← peek with
      | some (.word "on") =>
        keyword "on"
        let condition ← name
        let carried ← directives true
        mark '\x7b'
        return .inline (some condition) carried (← items '\x7d' (selection bound))
      | some (.word _) =>
        let fragment ← fragmentName
        return .spread fragment (← directives true)
      | _ =>
        let carried ← directives true
        mark '\x7b'
        return .inline none carried (← items '\x7d' (selection bound))
    else
      let first ← name
      let second ← if ← accept (.mark ':') then some <$> name else pure none
      let arguments ← optionalItems '(' ')' (argument true)
      let carried ← directives true
      let selections ← nested
      match second with
      | some head => return .field (some first) head arguments carried selections
      | none => return .field none first arguments carried selections

def selectionSet : Reader (List Selection) := do
  mark '\x7b'
  items '\x7d' (selection (← read))

def variableDef : Reader VariableDef := do
  mark '$'
  let head ← name
  mark ':'
  let type ← type
  let default ← if ← accept (.mark '=') then some <$> value false else pure none
  return { name := head, type, default, directives := ← directives false }

def operationKind? (word : String) : Option OperationKind :=
  OperationKind.all.find? (·.word == word)

def operationKind : Reader OperationKind := do
  match operationKind? (← name) with
  | some kind => return kind
  | none => refuse

def operation : Reader OperationDef := do
  if (← peek) = some (.mark '\x7b') then
    return { kind := .query, selections := ← selectionSet }
  let kind ← operationKind
  let head ← match ← peek with
    | some (.word head) => do
      let _ ← next
      pure (some head)
    | _ => pure none
  let variableDefs ← optionalItems '(' ')' variableDef
  let carried ← directives true
  return { kind, name := head, variableDefs, directives := carried, selections := ← selectionSet }

def fragment : Reader FragmentDef := do
  keyword "fragment"
  let head ← fragmentName
  keyword "on"
  let condition ← name
  let carried ← directives true
  return { name := head, condition, directives := carried, selections := ← selectionSet }

/-! ## The type system -/

def description : Reader (Option Description) := do
  match ← peek with
  | some (.text content block) =>
    let _ ← next
    return some { content, block }
  | _ => return none

def argumentDef : Reader ArgumentDef := do
  let description ← description
  let head ← name
  mark ':'
  let type ← type
  let default ← if ← accept (.mark '=') then some <$> value false else pure none
  return { description, name := head, type, default, directives := ← directives false }

def fieldDef : Reader FieldDef := do
  let description ← description
  let head ← name
  let arguments ← optionalItems '(' ')' argumentDef
  mark ':'
  let type ← type
  return { description, name := head, arguments, type, directives := ← directives false }

def inputFieldDef : Reader FieldDef := do
  return (← argumentDef).toField

def enumValueDef : Reader EnumValueDef := do
  let description ← description
  let head ← name
  if head = "true" ∨ head = "false" ∨ head = "null" then refuse
  return { description, name := head, directives := ← directives false }

def interfaces : Reader (List Name) := do
  if ← accept (.word "implements") then separated '&' name else return []

def operationType : Reader (OperationKind × Name) := do
  let kind ← operationKind
  mark ':'
  return (kind, ← name)

def directivePlace : Reader DirectivePlace := do
  match DirectivePlace.ofWord? (← name) with
  | some place => return place
  | none => refuse

def typeTail (word : String) : Reader (Name × List Directive × TypeBody) := do
  let head ← name
  match word with
  | "scalar" => return (head, ← directives false, .scalar)
  | "type" =>
    let implemented ← interfaces
    let carried ← directives false
    return (head, carried, .object implemented (← optionalItems '\x7b' '\x7d' fieldDef))
  | "interface" =>
    let implemented ← interfaces
    let carried ← directives false
    return (head, carried, .interface implemented (← optionalItems '\x7b' '\x7d' fieldDef))
  | "union" =>
    let carried ← directives false
    let members ← if ← accept (.mark '=') then separated '|' name else pure []
    return (head, carried, .union members)
  | "enum" =>
    let carried ← directives false
    return (head, carried, .enum (← optionalItems '\x7b' '\x7d' enumValueDef))
  | "input" =>
    let carried ← directives false
    return (head, carried, .input (← optionalItems '\x7b' '\x7d' inputFieldDef))
  | _ => refuse

def bodyIsEmpty : TypeBody → Bool
  | .scalar => true
  | .object interfaces fields | .interface interfaces fields => interfaces.isEmpty && fields.isEmpty
  | .union members => members.isEmpty
  | .enum values => values.isEmpty
  | .input fields => fields.isEmpty

def extension : Reader Definition := do
  keyword "extend"
  let word ← name
  if word = "schema" then
    let carried ← directives false
    let operations ← optionalItems '\x7b' '\x7d' operationType
    if carried.isEmpty && operations.isEmpty then refuse
    return .schemaExt carried operations
  let (head, carried, body) ← typeTail word
  if carried.isEmpty && bodyIsEmpty body then refuse
  return .typeExt { name := head, directives := carried, body }

def systemDefinition (description : Option Description) (word : String) : Reader Definition := do
  match word with
  | "schema" =>
    let carried ← directives false
    mark '\x7b'
    return .schema { description, directives := carried, operations := ← items '\x7d' operationType }
  | "directive" =>
    mark '@'
    let head ← name
    let arguments ← optionalItems '(' ')' argumentDef
    let repeatable ← accept (.word "repeatable")
    keyword "on"
    return .directive { description, name := head, arguments, repeatable, places := ← separated '|' directivePlace }
  | _ =>
    let (head, carried, body) ← typeTail word
    return .type { description, name := head, directives := carried, body }

/-- One definition of a document. Only a definition of the type system may be described. -/
def definition : Reader Definition := do
  if (← peek) = some (.mark '\x7b') then return .operation (← operation)
  let described ← description
  match ← peek with
  | some (.word word) =>
    if ["schema", "scalar", "type", "interface", "union", "enum", "input",
      "directive"].contains word then
      let _ ← next
      systemDefinition described word
    else if described.isSome then refuse
    else if word = "fragment" then return .fragment (← fragment)
    else if word = "extend" then extension
    else return .operation (← operation)
  | _ => refuse

def definitionsUpTo : Nat → Reader (List Definition)
  | 0 => refuse
  | bound + 1 => do
    let first ← definition
    if (← get).isEmpty then return [first]
    return first :: (← definitionsUpTo bound)

def run (reader : Reader α) (text : String) : Except Malformed α := do
  let tokens ← Token.ofText text
  match ← StateT.run (ReaderT.run reader (tokens.length + 1)) tokens with
  | (result, []) => return result
  | _ => throw .token

end Reader

def Document.parse (text : String) : Except Malformed Document :=
  Reader.run (do Reader.definitionsUpTo (← read)) text

def TypeRef.parse (text : String) : Except Malformed TypeRef :=
  Reader.run Reader.type text

end GraphApi
