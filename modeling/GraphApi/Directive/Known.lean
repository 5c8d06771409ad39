import GraphApi.Directive.Argument
import GraphApi.Run
import GraphApi.Settings.Basic

/-!
# The directives that the augmentation knows

Their names, the definitions that are generated for them, how they are read off fields and types and
how the generated ones are built.
-/

namespace GraphApi

inductive Mark where
  | cypher | relation | mutationMeta | ignore | id | unique | index | additionalLabels
  | auth (kind : AuthKind)
deriving DecidableEq, Repr

def Mark.word : Mark → Name
  | .cypher => "cypher"
  | .relation => "relation"
  | .mutationMeta => "MutationMeta"
  | .ignore => "neo4j_ignore"
  | .id => "id"
  | .unique => "unique"
  | .index => "index"
  | .additionalLabels => "additionalLabels"
  | .auth kind => kind.word

def Mark.keys : List Mark := [.id, .unique, .index]

def directionsEnum : Name := "_RelationDirections"

def roleType : Name := "Role"

inductive Direction where
  | incoming | outgoing
deriving DecidableEq, Repr

def Direction.word : Direction → Name
  | .incoming => "IN"
  | .outgoing => "OUT"

/-! ## Reading -/

def FieldDef.marked (field : FieldDef) (mark : Mark) : Bool :=
  field.has mark.word

def cypherStatement (directives : List Directive) : Value :=
  directiveArgument (findDirective directives Mark.cypher.word) "statement"

def checkStatement (directives : List Directive) : Except Fault Unit :=
  checkReadable (findDirective directives Mark.cypher.word) ["statement"]

def relationDirective (directives : List Directive) : Option Directive :=
  findDirective directives Mark.relation.word

def relationName (directive : Option Directive) : Value :=
  directiveArgument directive "name"

/-- The direction that a `relation` directive gives; anything but the word for incoming means
outgoing. -/
def relationDirection (directive : Option Directive) : Direction :=
  match directiveArgument directive "direction" with
  | .text word => if Text.upper word = Direction.incoming.word then .incoming else .outgoing
  | _ => .outgoing

/-! ## Building -/

def buildRelation (name : Value) (source target : Name) (direction : Option Direction) :
    Directive where
  name := Mark.relation.word
  arguments :=
    [("name", Literal.ofValue name)] ++
    (match direction with
      | some direction => [("direction", Literal.enum direction.word)]
      | none => []) ++
    [("from", Literal.ofValue (.text source)), ("to", Literal.ofValue (.text target))]

def buildMutationMeta (rel : Value) (source target : Name) : Directive where
  name := Mark.mutationMeta.word
  arguments := [("relationship", Literal.ofValue rel), ("from", Literal.ofValue (.text source)),
    ("to", Literal.ofValue (.text target))]

def scopesOf (action : String) (type : Name) : List String :=
  [type ++ ": " ++ action, Text.lower action ++ ":" ++ Text.lower type]

def operationDirectives (settings : Settings) (action : String) (types : List Name) :
    List Directive :=
  if settings.enablesAuth .hasScope then
    let scopes := (NameMap.ofList (types.map (·, ()))).keys.flatMap (scopesOf action)
    [{ name := AuthKind.hasScope.word,
       arguments := [("scopes", Literal.ofValue (.list (scopes.map Value.text)))] }]
  else []

/-! ## Definitions -/

def markArgument (name type : Name) (wrappers : Wrappers) : ArgumentDef :=
  { name, type := wrappers.wrap type }

def Mark.definition (mark : Mark) : DirectiveDef :=
  let onFields := [DirectivePlace.fieldDefinition]
  let onTypesAndFields := [DirectivePlace.object, DirectivePlace.fieldDefinition]
  let arg := fun name type => markArgument name type {}
  let (places, arguments) := match mark with
    | .cypher => ([.fieldDefinition, .inputFieldDefinition], [arg "statement" "String"])
    | .relation => ([.fieldDefinition, .object],
        [arg "name" "String", arg "direction" directionsEnum, arg "from" "String",
         arg "to" "String"])
    | .mutationMeta => (onFields,
        [arg "relationship" "String", arg "from" "String", arg "to" "String"])
    | .ignore | .id | .unique | .index => (onFields, [])
    | .additionalLabels => ([.object], [markArgument "labels" "String" .plainList])
    | .auth .isAuthenticated => (onTypesAndFields, [])
    | .auth .hasRole => (onTypesAndFields, [markArgument "roles" roleType .plainList])
    | .auth .hasScope => (onTypesAndFields, [markArgument "scopes" "String" .plainList])
  { name := mark.word, arguments, places }

def Mark.all : List Mark :=
  [.cypher, .relation, .mutationMeta, .ignore, .id, .unique, .index, .additionalLabels,
   .auth .isAuthenticated, .auth .hasRole, .auth .hasScope]

def Mark.isWanted (settings : Settings) : Mark → Bool
  | .auth kind => settings.enablesAuth kind
  | _ => true

def directionsEnumDef : TypeDef where
  name := directionsEnum
  body := .enum [{ name := Direction.incoming.word }, { name := Direction.outgoing.word }]

def TypeKind.definitionWord : TypeKind → String
  | .scalar => "scalar_type_definition"
  | .object => "object_type_definition"
  | .interface => "interface_type_definition"
  | .union => "union_type_definition"
  | .enum => "enum_type_definition"
  | .input => "input_object_type_definition"

def checkRoleType (types : NameMap TypeDef) : Except Fault Unit :=
  match types.get? roleType with
  | none => .error (.settings .missingRole)
  | some defn =>
    match defn.body with
    | .enum _ => .ok ()
    | body => .error (.settings (.roleNotEnum body.kind.definitionWord))

/-- The definition of one known directive: the declared one, or a generated one if it is wanted. -/
def markDefinition (types : NameMap TypeDef) (declared : NameMap DirectiveDef) (settings : Settings)
    (mark : Mark) : Run Notice Fault (List DirectiveDef) := do
  match declared.get? mark.word with
  | some defn => return [defn]
  | none =>
    if !mark.isWanted settings then return []
    if mark = .auth .hasRole then Run.ofExcept (checkRoleType types)
    Run.emit { level := .debug, content := "Adding the @" ++ mark.word ++ " directive definition" }
    return [mark.definition]

def markDefinitions (types : NameMap TypeDef) (declared : NameMap DirectiveDef)
    (settings : Settings) : List Mark → Run Notice Fault (List DirectiveDef)
  | [] => return []
  | mark :: rest => do
    let first ← markDefinition types declared settings mark
    let others ← markDefinitions types declared settings rest
    return first ++ others

/-- All directive definitions of the augmented document: the known ones first, then the other
declared ones. -/
def directiveDefinitions (types : NameMap TypeDef) (declared : NameMap DirectiveDef)
    (settings : Settings) : Run Notice Fault (NameMap DirectiveDef) := do
  let known ← markDefinitions types declared settings Mark.all
  let words := Mark.all.map Mark.word
  let others := declared.filter fun entry => !words.contains entry.1
  return known.map (fun defn => (defn.name, defn)) ++ others

/-! ## Directives that cannot be combined -/

def FieldDef.keyMarks (field : FieldDef) : List Mark :=
  Mark.keys.filter field.marked

def checkKeyMarks (type : Name) (field : FieldDef) : Except SchemaFault Unit :=
  match field.keyMarks with
  | [] => .ok ()
  | first :: others =>
    if field.marked .cypher then .error (.keyedComputed type field.name first.word)
    else match others with
      | [] => .ok ()
      | second :: _ => .error (.redundant type field.name first.word second.word)

def checkNodeFields (type : Name) (fields : List FieldDef) : Except SchemaFault Unit :=
  let ids := (fields.filter (·.marked .id)).map (·.name)
  if ids.length > 1 then .error (.severalIds type ids) else fields.forM (checkKeyMarks type)

def checkRelationshipTypeField (type : Name) (field : FieldDef) : Except SchemaFault Unit :=
  match field.keyMarks with
  | [] => .ok ()
  | mark :: _ => .error (.keyedRelationshipType mark.word type field.name)

def checkRelationshipType (type : Name) (fields : List FieldDef) : Except SchemaFault Unit :=
  fields.forM (checkRelationshipTypeField type)

def checkRelationshipField (type : Name) (field : FieldDef) : Except SchemaFault Unit :=
  match field.keyMarks with
  | [] => .ok ()
  | mark :: _ => .error (.keyedRelationshipField mark.word type field.name)

end GraphApi
