import GraphApi.Directive.Argument
import GraphApi.Schema.Basic

/-!
# Values of literals

The value that a literal stands for where a type is expected, if it fits. A value that is no list
stands for a list of one, missing members of input types take their defaults, and a scalar of the
document takes any literal.
-/

namespace GraphApi

def isInt32 (n : Int) : Bool := -2147483648 ≤ n && n ≤ 2147483647

def TypeRef.nest : TypeRef → Value → Value
  | .named .., value => value
  | .list item _, value => .list [item.nest value]

def missingWord : String := "Undefined"

/-- The value of a literal with the values of its variables, whatever its type. A word stands for a
missing variable, and an integer with too many digits is no number. -/
def Literal.freeValue (assigned : NameMap Value) (literal : Literal) : Value :=
  free literal
where
  free : Literal → Value
    | .var name => (assigned.get? name).getD (.text missingWord)
    | .list items => .list (freeItems items)
    | .object fields => .object (NameMap.ofList (freeFields fields))
    | .int digits => if isReadableInt digits then .int (Literal.intValue digits) else .float .nan
    | other => other.value
  freeItems : List Literal → List Value
    | [] => []
    | item :: rest => free item :: freeItems rest
  freeFields : List (Name × Literal) → Entries
    | [] => []
    | (name, item) :: rest => (name, free item) :: freeFields rest

def builtinLiteral? (scalar : Name) (literal : Literal) : Option Value :=
  match scalar, literal with
  | "Int", .int digits =>
    let n := Literal.intValue digits
    if isInt32 n then some (.int n) else none
  | "Float", .int digits => some (.float (Literal.floatValue digits))
  | "Float", .float digits => some (.float (Literal.floatValue digits))
  | "String", .text content _ => some (.text content)
  | "Boolean", .bool value => some (.bool value)
  | "ID", .text content _ => some (.text content)
  | "ID", .int digits => some (.text digits)
  | _, _ => none

def Schema.leafLiteral? (schema : Schema) (assigned : NameMap Value) (type : Name)
    (literal : Literal) : Option Value :=
  if Builtin.scalarNames.contains type then builtinLiteral? type literal
  else
    match schema.type? type with
    | some { body := .scalar, .. } => some (literal.freeValue assigned)
    | some { body := .enum values, .. } =>
      match literal with
      | .enum name => if values.any (·.name == name) then some (.text name) else none
      | _ => none
    | _ => none

def Literal.isMissing (assigned : NameMap Value) : Literal → Bool
  | .var name => !assigned.contains name
  | _ => false

/-- The members of an object: those that are given, and the defaults of those that are not. A
required member without either makes the object invalid. -/
def completeMembers (default : ArgumentDef → Option Value) (given : NameMap (Option Value)) :
    List ArgumentDef → Option (NameMap Value)
  | [] => some []
  | member :: rest =>
    match given.get? member.name with
    | some (some value) => (completeMembers default given rest).map ((member.name, value) :: ·)
    | some none => none
    | none =>
      match default member with
      | some value => (completeMembers default given rest).map ((member.name, value) :: ·)
      | none => if member.type.required then none else completeMembers default given rest

def memberType (members : List ArgumentDef) (name : Name) : Option TypeRef :=
  (members.find? (·.name == name)).map (·.type)

/-- The value that a literal stands for where a type is expected, with the given defaults of members
of input types. A literal that is no list is read as a value of the named type and then put into as
many lists as expected. -/
def Schema.literalWith? (schema : Schema) (default : ArgumentDef → Option Value)
    (assigned : NameMap Value) : TypeRef → Literal → Option Value :=
  read
where
  read (type : TypeRef) : Literal → Option Value
    | .var name =>
      match assigned.get? name with
      | some .null => if type.required then none else some .null
      | other => other
    | .null => if type.required then none else some .null
    | .list items =>
      match type with
      | .list item _ => (readItems item items).map .list
      | .named name _ => schema.leafLiteral? assigned name (.list items)
    | .object fields =>
      match schema.inputMembers? type.base with
      | some members =>
        (completeMembers default (NameMap.ofList (readFields members fields)) members).map
          fun entries =>
          type.nest (.object entries)
      | none => (schema.leafLiteral? assigned type.base (.object fields)).map type.nest
    | other => (schema.leafLiteral? assigned type.base other).map type.nest
  /-- The values of list items. A missing variable is null where that is allowed. -/
  readItems (type : TypeRef) : List Literal → Option (List Value)
    | [] => some []
    | item :: rest =>
      let value := if item.isMissing assigned then (if type.required then none else some .null)
        else read type item
      match value with
      | some value => (readItems type rest).map (value :: ·)
      | none => none
  /-- The values of the members that are given; a missing variable gives none. -/
  readFields (members : List ArgumentDef) : List (Name × Literal) → List (Name × Option Value)
    | [] => []
    | (name, item) :: rest =>
      let others := readFields members rest
      match memberType members name with
      | some type => if item.isMissing assigned then others else (name, read type item) :: others
      | none => others

def Schema.defaultWithin? (schema : Schema) : Nat → ArgumentDef → Option Value
  | 0, _ => none
  | levels + 1, member =>
    member.default.bind fun literal => schema.literalWith? (schema.defaultWithin? levels) []
      member.type literal

/-- The default of an argument or member. Defaults inside defaults go through different input types,
so their number bounds the depth. -/
def Schema.default? (schema : Schema) (member : ArgumentDef) : Option Value :=
  schema.defaultWithin? (schema.types.length + 1) member

def Schema.literal? (schema : Schema) (assigned : NameMap Value) (type : TypeRef)
    (literal : Literal) : Option Value :=
  schema.literalWith? schema.default? assigned type literal

def Schema.isNeeded (schema : Schema) (member : ArgumentDef) : Bool :=
  member.type.required && (schema.default? member).isNone

end GraphApi

/-! ## Defaults that can be written as literals -/

namespace GraphApi.Schema

/-- Whether there is a literal for a value of a type. A value of a scalar of the document is any
value, and there are no literals for lists, objects and what is no finite number. -/
def isWritable (schema : Schema) : TypeRef → Value → Bool :=
  write
where
  write (type : TypeRef) : Value → Bool
    | .null => true
    | .list items =>
      match type with
      | .list item _ => writeItems item items
      | .named _ _ => false
    | .object entries =>
      match schema.inputMembers? type.base with
      | some members => writeEntries members entries
      | none => false
    | .float x => x.isFinite
    | .bool _ | .int _ | .text _ => true
  writeItems (type : TypeRef) : List Value → Bool
    | [] => true
    | item :: rest => write type item && writeItems type rest
  writeEntries (members : List ArgumentDef) : Entries → Bool
    | [] => true
    | (name, item) :: rest =>
      let isWritten := match memberType members name with
        | some type => write type item
        | none => true
      isWritten && writeEntries members rest

def showsDefault (schema : Schema) (arg : ArgumentDef) : Bool :=
  match schema.default? arg with
  | some value => schema.isWritable arg.type value
  | none => true

def inputsOf (type : SchemaType) : List ArgumentDef :=
  match type.body with
  | .object _ fields | .interface _ fields => fields.flatMap (·.arguments)
  | .input fields => fields.map (·.toArgument)
  | .scalar | .union _ | .enum _ => []

def showsAllDefaults (schema : Schema) : Bool :=
  (schema.declared.flatMap (·.arguments) ++ schema.types.values.flatMap inputsOf).all
    schema.showsDefault

end GraphApi.Schema
