import GraphApi.Document.Basic
import GraphApi.Document.Quoted

/-!
# Writing documents

Definitions stand apart by a blank line, members stand one on a line and two blanks further in, and
parts that are absent leave nothing behind. Arguments stand in one line unless one of them takes
several lines.
-/

namespace GraphApi.Printer

def join (separator : String) (parts : List String) : String :=
  separator.intercalate (parts.filter (· ≠ ""))

def wrap (before part after : String) : String :=
  if part = "" then "" else before ++ part ++ after

def indent (part : String) : String :=
  wrap "  " (part.replace "\n" "\n  ") ""

def braces (members : List String) : String :=
  wrap "\x7b\n" (indent (join "\n" members)) "\n\x7d"

mutual

def literal : Literal → String
  | .int digits => digits
  | .float digits => digits
  | .text content true => Quoted.block content
  | .text content false => Quoted.plain content
  | .bool true => "true"
  | .bool false => "false"
  | .null => "null"
  | .enum name => name
  | .var name => "$" ++ name
  | .list items => "[" ++ join ", " (literals items) ++ "]"
  | .object fields => "\x7b" ++ join ", " (literalFields fields) ++ "\x7d"

def literals : List Literal → List String
  | [] => []
  | item :: rest => literal item :: literals rest

def literalFields : List (Name × Literal) → List String
  | [] => []
  | (name, value) :: rest => (name ++ ": " ++ literal value) :: literalFields rest

end

def argument (entry : Name × Literal) : String :=
  entry.1 ++ ": " ++ literal entry.2

def directive (directive : Directive) : String :=
  "@" ++ directive.name ++ wrap "(" (join ", " (directive.arguments.map argument)) ")"

def directives (carried : List Directive) : String :=
  join " " (carried.map directive)

def requiredMark (required : Bool) : String :=
  if required then "!" else ""

def typeRef : TypeRef → String
  | .named name required => name ++ requiredMark required
  | .list item required => "[" ++ typeRef item ++ "]" ++ requiredMark required

def description : Option Description → String
  | some { content, block := true } => Quoted.block content ++ "\n"
  | some { content, block := false } => Quoted.plain content ++ "\n"
  | none => ""

def argumentDef (definition : ArgumentDef) : String :=
  description definition.description ++
    join " " [definition.name ++ ": " ++ typeRef definition.type,
      wrap "= " ((definition.default.map literal).getD "") "", directives definition.directives]

def argumentDefs (definitions : List ArgumentDef) : String :=
  let parts := definitions.map argumentDef
  if parts.any (·.contains '\n') then wrap "(\n" (indent (join "\n" parts)) "\n)"
  else wrap "(" (join ", " parts) ")"

def fieldDef (definition : FieldDef) : String :=
  description definition.description ++
    join " " [definition.name ++ argumentDefs definition.arguments ++ ": " ++
      typeRef definition.type,
      wrap "= " ((definition.default.map literal).getD "") "", directives definition.directives]

def enumValueDef (definition : EnumValueDef) : String :=
  description definition.description ++ join " " [definition.name, directives definition.directives]

def operationType (entry : OperationKind × Name) : String :=
  entry.1.word ++ ": " ++ entry.2

def typeTail (name : Name) (carried : List Directive) (body : TypeBody) : String :=
  let marks := directives carried
  match body with
  | .scalar => join " " ["scalar", name, marks]
  | .object interfaces fields =>
    join " " ["type", name, wrap "implements " (join " & " interfaces) "", marks,
      braces (fields.map fieldDef)]
  | .interface interfaces fields =>
    join " " ["interface", name, wrap "implements " (join " & " interfaces) "", marks,
      braces (fields.map fieldDef)]
  | .union members => join " " ["union", name, marks, wrap "= " (join " | " members) ""]
  | .enum values => join " " ["enum", name, marks, braces (values.map enumValueDef)]
  | .input fields => join " " ["input", name, marks, braces (fields.map fieldDef)]

def typeDef (definition : TypeDef) : String :=
  description definition.description ++
    typeTail definition.name definition.directives definition.body

def typeExt (extension : TypeExt) : String :=
  "extend " ++ typeTail extension.name extension.directives extension.body

def directiveDef (definition : DirectiveDef) : String :=
  description definition.description ++ "directive @" ++ definition.name ++
    argumentDefs definition.arguments ++
    (if definition.repeatable then " repeatable" else "") ++ " on " ++
    join " | " (definition.places.map (·.word))

def schemaTail (carried : List Directive) (operations : List (OperationKind × Name)) : String :=
  join " " ["schema", directives carried, braces (operations.map operationType)]

/-- The longest line that a field with its arguments may take before the arguments get lines of
their own. -/
def lineLimit : Nat := 80

def fieldHead (label : Option Name) (name : Name) (arguments : List (Name × Literal)) : String :=
  let head := wrap "" (label.getD "") ": " ++ name
  let parts := arguments.map argument
  let line := head ++ wrap "(" (join ", " parts) ")"
  if line.length > lineLimit then head ++ wrap "(\n" (indent (join "\n" parts)) "\n)" else line

mutual

def selection : Selection → String
  | .field label name arguments carried nested =>
    join " " [fieldHead label name arguments, directives carried, braces (selections nested)]
  | .spread fragment carried => "..." ++ fragment ++ wrap " " (directives carried) ""
  | .inline condition carried nested =>
    join " " ["...", wrap "on " (condition.getD "") "", directives carried,
      braces (selections nested)]

def selections : List Selection → List String
  | [] => []
  | head :: rest => selection head :: selections rest

end

def variableDef (definition : VariableDef) : String :=
  "$" ++ definition.name ++ ": " ++ typeRef definition.type ++
    wrap " = " ((definition.default.map literal).getD "") "" ++
      wrap " " (directives definition.directives) ""

def operationDef (definition : OperationDef) : String :=
  let head := join " " [definition.kind.word,
    definition.name.getD "" ++ wrap "(" (join ", " (definition.variableDefs.map variableDef)) ")",
    directives definition.directives]
  (if head = "query" then "" else head ++ " ") ++ braces (selections definition.selections)

def fragmentDef (definition : FragmentDef) : String :=
  "fragment " ++ definition.name ++ " on " ++ definition.condition ++ " " ++
    wrap "" (directives definition.directives) " " ++ braces (selections definition.selections)

end GraphApi.Printer

namespace GraphApi

def Definition.text : Definition → String
  | .operation definition => Printer.operationDef definition
  | .fragment definition => Printer.fragmentDef definition
  | .schema definition =>
    Printer.description definition.description ++
      Printer.schemaTail definition.directives definition.operations
  | .type definition => Printer.typeDef definition
  | .directive definition => Printer.directiveDef definition
  | .schemaExt carried operations => "extend " ++ Printer.schemaTail carried operations
  | .typeExt extension => Printer.typeExt extension

def Document.text (document : Document) : String :=
  Printer.join "\n\n" (document.map Definition.text)

end GraphApi
