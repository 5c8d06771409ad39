import GraphApi.Request.Basic

/-!
# Selections and literals in requests

Whether a literal can stand where a type is expected, whether selections fit the type that they
select from, and which variables they use. Where no type is known, because the schema has none for
the operation, nothing is demanded of fields.
-/

namespace GraphApi

/-! ## Literals -/

variable (schema : Schema)

/-- Whether a literal of a request can stand where a type is expected. Variables are judged by their
own types. -/
def Schema.accepts (type : TypeRef) (literal : Literal) : Bool :=
  accept type literal
where
  accept (type : TypeRef) : Literal → Bool
    | .var _ => true
    | .null => !type.required
    | .list items =>
      match type with
      | .list item _ => acceptItems item items
      | .named name _ => (schema.leafLiteral? [] name (.list items)).isSome
    | .object fields =>
      match schema.inputMembers? type.base with
      | some members =>
        acceptFields members fields &&
          members.all fun member => !schema.isNeeded member || fields.any (·.1 == member.name)
      | none => (schema.leafLiteral? [] type.base (.object fields)).isSome
    | other => (schema.leafLiteral? [] type.base other).isSome
  acceptItems (type : TypeRef) : List Literal → Bool
    | [] => true
    | item :: rest => accept type item && acceptItems type rest
  acceptFields (members : List ArgumentDef) : List (Name × Literal) → Bool
    | [] => true
    | (name, item) :: rest =>
      (match memberType members name with
        | some type => accept type item
        | none => false) && acceptFields members rest

/-- A use of a variable: where it stands, as far as that is known, and whether something stands
there by default. -/
structure VariableUse where
  name : Name
  type : Option TypeRef
  hasDefault : Bool
deriving DecidableEq, Repr

/-- The type of the items of a list literal. A list where none is expected has items of the expected
type itself. -/
def itemType : TypeRef → TypeRef
  | .list item _ => item
  | .named name _ => .named name false

def Schema.uses (type : Option TypeRef) (hasDefault : Bool) (literal : Literal) :
    List VariableUse :=
  find type hasDefault literal
where
  find (type : Option TypeRef) (hasDefault : Bool) : Literal → List VariableUse
    | .var name => [{ name, type, hasDefault }]
    | .list items => findItems (type.map itemType) items
    | .object fields => findFields ((type.bind fun type => schema.inputMembers? type.base).getD [])
        fields
    | _ => []
  findItems (type : Option TypeRef) : List Literal → List VariableUse
    | [] => []
    | item :: rest => find type false item ++ findItems type rest
  findFields (members : List ArgumentDef) : List (Name × Literal) → List VariableUse
    | [] => []
    | (name, item) :: rest =>
      (match members.find? (·.name == name) with
        | some member => find (some member.type) (schema.default? member).isSome item
        | none => find none false item) ++ findFields members rest

def Schema.argumentUses (declared : List ArgumentDef) (arguments : List (Name × Literal)) :
    List VariableUse :=
  arguments.flatMap fun entry =>
    match declared.find? (·.name == entry.1) with
    | some arg => schema.uses (some arg.type) (schema.default? arg).isSome entry.2
    | none => schema.uses none false entry.2

def Schema.directiveUses (directives : List Directive) : List VariableUse :=
  directives.flatMap fun directive =>
    schema.argumentUses (((schema.directive? directive.name).map (·.arguments)).getD [])
      directive.arguments

def Schema.acceptsArguments (declared : List ArgumentDef) (arguments : List (Name × Literal)) :
    Bool :=
  arguments.all fun entry =>
    match declared.find? (·.name == entry.1) with
    | some arg => schema.accepts arg.type entry.2
    | none => false

def Schema.hasNeeded (declared : List ArgumentDef) (arguments : List (Name × Literal)) : Bool :=
  declared.all fun arg => !schema.isNeeded arg || arguments.any (·.1 == arg.name)

def Schema.acceptsDirectives (directives : List Directive) : Bool :=
  directives.all fun directive =>
    schema.acceptsArguments (((schema.directive? directive.name).map (·.arguments)).getD [])
      directive.arguments

def Schema.returned? (parent : Option Name) (name : Name) : Option Name :=
  (parent.bind fun parent => schema.selected? parent name).map (·.type.base)

def Schema.canSpread (parent : Option Name) (condition : Name) : Bool :=
  schema.isComposite condition && match parent with
    | some parent => schema.overlap parent condition
    | none => true

def Schema.fitsMember (member : FieldDef) (arguments : List (Name × Literal)) (isSelected : Bool) :
    Bool :=
  schema.acceptsArguments member.arguments arguments &&
    schema.hasNeeded member.arguments arguments &&
    (if schema.isLeaf member.type.base then !isSelected else isSelected)

def Schema.fitsField (parent : Option Name) (name : Name) (arguments : List (Name × Literal))
    (isSelected : Bool) : Bool :=
  match parent with
  | some parent =>
    match schema.selected? parent name with
    | some member => schema.fitsMember member arguments isSelected
    | none => false
  | none => true

mutual

def Schema.fits (schema : Schema) (fragments : List FragmentDef) (parent : Option Name) :
    Selection → Bool
  | .field _ name arguments directives nested =>
    schema.acceptsDirectives directives && schema.fitsField parent name arguments
      (!nested.isEmpty) && Schema.fitAll schema fragments (schema.returned? parent name) nested
  | .spread fragment directives =>
    schema.acceptsDirectives directives && match findFragment fragments fragment with
      | some defn => schema.canSpread parent defn.condition
      | none => false
  | .inline (some condition) directives nested =>
    schema.acceptsDirectives directives && schema.canSpread parent condition &&
      Schema.fitAll schema fragments (some condition) nested
  | .inline none directives nested =>
    schema.acceptsDirectives directives && Schema.fitAll schema fragments parent nested

def Schema.fitAll (schema : Schema) (fragments : List FragmentDef) (parent : Option Name) :
    List Selection → Bool
  | [] => true
  | head :: rest => Schema.fits schema fragments parent head &&
    Schema.fitAll schema fragments parent rest

end

mutual

def Schema.selectionUses (schema : Schema) (parent : Option Name) : Selection → List VariableUse
  | .field _ name arguments directives nested =>
    let declared := ((parent.bind fun parent => schema.selected? parent name).map
      (·.arguments)).getD []
    schema.argumentUses declared arguments ++ schema.directiveUses directives ++
      Schema.selectionsUses schema (schema.returned? parent name) nested
  | .spread _ directives => schema.directiveUses directives
  | .inline condition directives nested =>
    schema.directiveUses directives ++ Schema.selectionsUses schema (condition.or parent) nested

def Schema.selectionsUses (schema : Schema) (parent : Option Name) :
    List Selection → List VariableUse
  | [] => []
  | head :: rest => Schema.selectionUses schema parent head ++
    Schema.selectionsUses schema parent rest

end

def Schema.fragmentUses (fragment : FragmentDef) : List VariableUse :=
  schema.directiveUses fragment.directives ++ schema.selectionsUses (some fragment.condition)
    fragment.selections

def Schema.operationUses (fragments : List FragmentDef) (operation : OperationDef) :
    List VariableUse :=
  schema.directiveUses operation.directives ++
    schema.selectionsUses (schema.root? operation.kind) operation.selections ++
    (operation.fragments fragments).flatMap schema.fragmentUses

/-- Whether a variable can stand where it is used. A default, of the variable or of the place, makes
up for a missing value. -/
def Schema.allows (declared : VariableDef) (use : VariableUse) : Bool :=
  match use.type with
  | none => true
  | some expected =>
    if expected.required && !declared.type.required then
      let hasDefault := match declared.default with
        | none | some .null => false
        | some _ => true
      (hasDefault || use.hasDefault) && declared.type.fits schema expected.optional
    else declared.type.fits schema expected

def Schema.fitsVariables (fragments : List FragmentDef) (operation : OperationDef) : Bool :=
  let uses := schema.operationUses fragments operation
  areDistinct (operation.variableDefs.map (·.name)) &&
    operation.variableDefs.all (fun declared =>
      schema.isInput declared.type.base && uses.any (·.name == declared.name) &&
        schema.acceptsDirectives declared.directives &&
        (match declared.default with
          | some literal => schema.accepts declared.type literal
          | none => true)) &&
    uses.all fun use =>
      match operation.variableDefs.find? (·.name == use.name) with
      | some declared => schema.allows declared use
      | none => false

end GraphApi
