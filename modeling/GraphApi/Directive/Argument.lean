import GraphApi.Document.Basic
import GraphApi.Fault
import GraphApi.Text.Printable
import GraphApi.Value.Basic

/-!
# Arguments of directives

Directive arguments are literals. Numbers, truth values, texts, enum names and lists are read as
values; a null, an object or a variable is read as no value. Values are written back as literals.
-/

namespace GraphApi

def Literal.intValue (digits : String) : Int :=
  match digits.toList with
  | '-' :: rest => -(Binary64.digitsValue rest : Int)
  | cs => Binary64.digitsValue cs

def Literal.floatValue (digits : String) : Binary64 :=
  (Binary64.ofText? digits).getD .nan

mutual

def Literal.value : Literal → Value
  | .int digits => .int (Literal.intValue digits)
  | .float digits => .float (Literal.floatValue digits)
  | .bool value => .bool value
  | .text content _ => .text content
  | .enum name => .text name
  | .list items => .list (Literal.values items)
  | .null | .object _ | .var _ => .null

def Literal.values : List Literal → List Value
  | [] => []
  | item :: rest => item.value :: Literal.values rest

end

mutual

def Value.display : Value → String
  | .text content => content
  | .null => "None"
  | .bool true => "True"
  | .bool false => "False"
  | .int n => toString n
  | .float x => x.text
  | .list items => "[" ++ ", ".intercalate (Value.displayItems items) ++ "]"
  | .object entries => "\x7b" ++ ", ".intercalate (Value.displayEntries entries) ++ "\x7d"

def Value.displayItems : List Value → List String
  | [] => []
  | .text content :: rest => Text.shown content :: Value.displayItems rest
  | item :: rest => item.display :: Value.displayItems rest

def Value.displayEntries : Entries → List String
  | [] => []
  | (name, .text content) :: rest =>
    (Text.shown name ++ ": " ++ Text.shown content) :: Value.displayEntries rest
  | (name, value) :: rest => (Text.shown name ++ ": " ++ value.display) :: Value.displayEntries rest

end

mutual

/-- The literal of a value. An object is no literal of its own and is written as a text. An integer
is written with all its digits; if they are too many, it is refused when the literal is read. -/
def Literal.ofValue : Value → Literal
  | .null => .null
  | .bool value => .bool value
  | .int n => .int (toString n)
  | .float x => .float x.text
  | .text content => .text content false
  | .list items => .list (Literal.ofValues items)
  | .object entries => .text (Value.object entries).display false

def Literal.ofValues : List Value → List Literal
  | [] => []
  | item :: rest => Literal.ofValue item :: Literal.ofValues rest

end

/-- Whether a value counts as given: not null, not false, not zero and not empty. -/
def Value.isGiven : Value → Bool
  | .null => false
  | .bool value => value
  | .int n => n ≠ 0
  | .float (.finite _ mantissa _) => mantissa ≠ 0
  | .float _ => true
  | .text content => content ≠ ""
  | .list items => !items.isEmpty
  | .object entries => !entries.isEmpty

def Value.orElse (value other : Value) : Value :=
  if value.isGiven then value else other

def Directive.argument (directive : Directive) (name : Name) : Value :=
  match directive.arguments.find? (·.1 == name) with
  | some entry => entry.2.value
  | none => .null

def directiveArgument (directive : Option Directive) (name : Name) : Value :=
  match directive with
  | some directive => directive.argument name
  | none => .null

/-- Whether a run of digits with a sign is short enough to be read as an integer. -/
def isReadableInt (digits : String) : Bool :=
  (digits.toList.filter Char.isDigit).length ≤ digitLimit

mutual

/-- Whether all integers of a literal can be read. Those inside objects are not looked at. -/
def Literal.isReadable : Literal → Bool
  | .int digits => isReadableInt digits
  | .list items => Literal.areReadable items
  | _ => true

def Literal.areReadable : List Literal → Bool
  | [] => true
  | item :: rest => item.isReadable && Literal.areReadable rest

end

def checkReadable (directive : Option Directive) (names : List Name) : Except Fault Unit :=
  let arguments := (directive.map (·.arguments)).getD []
  let literals := names.filterMap fun name => (arguments.find? (·.1 == name)).map (·.2)
  if literals.all Literal.isReadable then .ok () else .error .longNumber

def checkAllReadable (directive : Option Directive) : Except Fault Unit :=
  let arguments := (directive.map (·.arguments)).getD []
  if arguments.all fun entry => entry.2.isReadable then .ok () else .error .longNumber

/-- All arguments of the first directive called `name`; of several arguments of one name the last
counts. -/
def directiveArguments (directives : List Directive) (name : Name) : NameMap Value :=
  match findDirective directives name with
  | some directive => NameMap.ofList (directive.arguments.map fun entry => (entry.1, entry.2.value))
  | none => []

end GraphApi
