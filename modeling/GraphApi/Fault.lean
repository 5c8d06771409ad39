import GraphApi.CommandLine.Style
import GraphApi.Document.Token
import GraphApi.Files.Tree
import GraphApi.NameMap
import GraphApi.Yaml.Cursor

/-!
# What can go wrong

One type of causes for the whole library, and one function that words them.
-/

namespace GraphApi

inductive SchemaFault where
  | severalIds (type : Name) (fields : List Name)
  | keyedComputed (type field directive : Name)
  | redundant (type field first second : Name)
  | keyedRelationshipType (directive type field : Name)
  | keyedRelationshipField (directive type field : Name)
deriving DecidableEq, Repr

inductive SettingsFault where
  | missingRole
  | roleNotEnum (kind : String)
  | invalid
  | notMapping (kind : String)
deriving DecidableEq, Repr

inductive TranslationFault where
  | tooDeep (limit : Nat) (path : List Name)
  | unknownMutation (field : Name)
  | noStatement (field : Name)
  | noMutation
  | noField
deriving DecidableEq, Repr

/-- The shapes of values that are no texts: without parts, a list that holds something else than
quoted parts, a list of quoted parts, and an object. -/
inductive Shape where
  | scalar | list | quotedList | object
deriving DecidableEq, Repr

inductive Fault where
  | malformed (cause : Malformed)
  | malformedFile
  | schema (cause : SchemaFault)
  | settings (cause : SettingsFault)
  | translation (cause : TranslationFault)
  | typeSystem
  | unknownEnumValue
  | unnestedDefault
  | unboundResolver
  /-- A request does not fit the schema, or its variables do not fit the request. -/
  | request
  | yaml (defect : Yaml.Defect)
  | file (cause : Files.FileFault)
  | markup (cause : CommandLine.MarkupFault)
  | json
  | longNumber
  | unpairedVariables
  /-- A definition that has to have members has none by its kind. -/
  | lacksFields
  | lacksArguments
  /-- A list of objects holds something else further on. -/
  | mixedItems
  | strayStatement (shape : Shape)
  /-- A character is looked for beyond the end of a text. -/
  | shortText
  | undeclaredField
deriving DecidableEq, Repr

def SchemaFault.message : SchemaFault → String
  | .severalIds type fields =>
    s!"The @id directive can only be used once per node type: {type} has @id on " ++
      ", ".intercalate fields ++ "."
  | .keyedComputed type field directive =>
    s!"The {type}.{field} field cannot combine @{directive} with @cypher " ++
      "because computed fields are not stored as properties."
  | .redundant type field first second =>
    s!"The {type}.{field} field combines @{first} with @{second}, which is redundant."
  | .keyedRelationshipType directive type field =>
    s!"The @{directive} directive cannot be used on {type}.{field} because " ++
      s!"{type} is a relationship type."
  | .keyedRelationshipField directive type field =>
    s!"The @{directive} directive cannot be used on {type}.{field} because " ++
      "the field is typed as a relationship type."

def SettingsFault.message : SettingsFault → String
  | .missingRole => "A Role enum type is required for the @hasRole auth directive."
  | .roleNotEnum kind => s!"The Role type must be an Enum type, found a {kind} definition."
  | .invalid => "Invalid augmentation config"
  | .notMapping kind => s!"Augmentation config root must be a mapping (YAML object), got {kind}"

def TranslationFault.message : TranslationFault → String
  | .tooDeep limit path =>
    s!"Nested mutation input exceeds the maximum depth of {limit} at " ++
      ".".intercalate path ++ "."
  | .unknownMutation field => s!"The schema has no mutation field named {field}."
  | .noStatement field => s!"The {field} mutation has no @cypher statement to augment."
  | .noMutation => "The document has no mutation operation to translate."
  | .noField => "The mutation operation selects no field to translate."

def Fault.message : Fault → String
  | .malformed _ => "Syntax Error"
  | .malformedFile => "Could not load schema file"
  | .schema cause => cause.message
  | .settings cause => cause.message
  | .translation cause => cause.message
  | .typeSystem => "The definitions do not make up a valid schema."
  | .unknownEnumValue => "A default names an unknown enum value."
  | .unnestedDefault => "A default is not nested as deep as its type."
  | .unboundResolver => "A resolver has no field."
  | .request => "The request does not fit the schema."
  | .yaml _ => "The text is not YAML."
  | .file _ => "The file cannot be read or written."
  | .markup _ => "The tags of the message do not fit together."
  | .json => "The text is not JSON."
  | .longNumber => "An integer has too many digits."
  | .unpairedVariables => "The variables are not pairs."
  | .lacksFields => "The definition has no fields."
  | .lacksArguments => "The member takes no arguments."
  | .mixedItems => "The list mixes objects with other values."
  | .strayStatement _ => "The statement is not a text."
  | .shortText => "The text ends too soon."
  | .undeclaredField => "The selected field is not declared."

end GraphApi
