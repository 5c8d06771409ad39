import GraphApi.Request.Basic

/-!
# Values of variables and arguments

Values that come with a request are brought into the form that the declared types ask for: a value
that is no list becomes a list of one, missing members take their defaults, and members come in the
order of their declarations.
-/

namespace GraphApi

/-- A given value as a value of a built-in scalar. An integer that is written as a fraction is
one. -/
def builtinInput? (scalar : Name) (value : Value) : Option Value :=
  match scalar, value with
  | "Int", .int n => if isInt32 n then some (.int n) else none
  | "Int", .float x =>
    match x.toInt? with
    | some n => if isInt32 n then some (.int n) else none
    | none => none
  | "Float", .int n =>
    let x := Binary64.ofInt n
    if x.isFinite then some (.float x) else none
  | "Float", .float x => if x.isFinite then some (.float x) else none
  | "String", .text content => some (.text content)
  | "Boolean", .bool value => some (.bool value)
  | "ID", .text content => some (.text content)
  | "ID", .int n => some (.text (toString n))
  | "ID", .float x => x.toInt?.map fun n => .text (toString n)
  | _, _ => none

variable (schema : Schema)

/-- A given value as a value of a type without parts. A scalar of the document takes any value. -/
def Schema.leafInput? (type : Name) (value : Value) : Option Value :=
  if Builtin.scalarNames.contains type then builtinInput? type value
  else
    match schema.type? type with
    | some { body := .scalar, .. } => some value
    | some { body := .enum values, .. } =>
      match value with
      | .text name => if values.any (·.name == name) then some (.text name) else none
      | _ => none
    | _ => none

def Schema.input? (type : TypeRef) (value : Value) : Option Value :=
  read type value
where
  read (type : TypeRef) : Value → Option Value
    | .null => if type.required then none else some .null
    | .list items =>
      match type with
      | .list item _ => (readItems item items).map .list
      | .named name _ => schema.leafInput? name (.list items)
    | .object entries =>
      match schema.inputMembers? type.base with
      | some members =>
        if entries.all fun entry => members.any (·.name == entry.1) then
          (completeMembers schema.default? (readEntries members entries) members).map
            fun complete =>
            type.nest (.object complete)
        else none
      | none => (schema.leafInput? type.base (.object entries)).map type.nest
    | other => (schema.leafInput? type.base other).map type.nest
  readItems (type : TypeRef) : List Value → Option (List Value)
    | [] => some []
    | item :: rest =>
      match read type item with
      | some value => (readItems type rest).map (value :: ·)
      | none => none
  readEntries (members : List ArgumentDef) : Entries → List (Name × Option Value)
    | [] => []
    | (name, item) :: rest =>
      match memberType members name with
      | some type => (name, read type item) :: readEntries members rest
      | none => readEntries members rest

def Schema.variable (given : NameMap Value) (declared : VariableDef) :
    Except Fault (NameMap Value) :=
  if !schema.isInput declared.type.base then .error .request
  else
    match given.get? declared.name with
    | some value =>
      match schema.input? declared.type value with
      | some value => .ok [(declared.name, value)]
      | none => .error .request
    | none =>
      match declared.default with
      | some literal => .ok ((schema.literal? [] declared.type literal).map
          (declared.name, ·)).toList
      | none => if declared.type.required then .error .request else .ok []

def Schema.variableValues (given : NameMap Value) (operation : OperationDef) :
    Except Fault (NameMap Value) := do
  return (← operation.variableDefs.mapM (schema.variable given)).flatten

def Schema.argumentValue (assigned : NameMap Value) (arguments : List (Name × Literal))
    (declared : ArgumentDef) : Except Fault (NameMap Value) :=
  let missing : Except Fault (NameMap Value) :=
    match schema.default? declared with
    | some value => .ok [(declared.name, value)]
    | none => if declared.type.required then .error .request else .ok []
  match findArgument arguments declared.name with
  | none => missing
  | some literal =>
    if literal.isMissing assigned then missing
    else
      match schema.literal? assigned declared.type literal with
      | some value => .ok [(declared.name, value)]
      | none => .error .request

def Schema.argumentValues (assigned : NameMap Value) (declared : List ArgumentDef)
    (arguments : List (Name × Literal)) : Except Fault (NameMap Value) := do
  return (← declared.mapM (schema.argumentValue assigned arguments)).flatten

end GraphApi
