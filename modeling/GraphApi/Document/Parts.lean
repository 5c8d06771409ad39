import GraphApi.Document.Basic

/-!
# What a document consists of

The types that definitions refer to, the places where directives stand, and the literals that are
written in them.
-/

namespace GraphApi

/-! ## Selections -/

mutual

def Selection.within : Selection → List Selection
  | .field label name arguments directives nested =>
    .field label name arguments directives nested :: Selection.withinAll nested
  | .spread fragment directives => [.spread fragment directives]
  | .inline condition directives nested =>
    .inline condition directives nested :: Selection.withinAll nested

def Selection.withinAll : List Selection → List Selection
  | [] => []
  | head :: rest => head.within ++ Selection.withinAll rest

end

def Selection.directives : Selection → List Directive
  | .field _ _ _ directives _ => directives
  | .spread _ directives => directives
  | .inline _ directives _ => directives

def Definition.selections : Definition → List Selection
  | .operation defn => Selection.withinAll defn.selections
  | .fragment defn => Selection.withinAll defn.selections
  | .schema _ | .type _ | .directive _ | .schemaExt .. | .typeExt _ => []

def Definition.isSystem : Definition → Bool
  | .operation _ | .fragment _ => false
  | .schema _ | .type _ | .directive _ | .schemaExt .. | .typeExt _ => true

/-! ## References to types -/

def FieldDef.references (field : FieldDef) : List Name :=
  field.type.base :: field.arguments.map (·.type.base)

def TypeBody.references : TypeBody → List Name
  | .object interfaces fields | .interface interfaces fields =>
    interfaces ++ fields.flatMap FieldDef.references
  | .input fields => fields.flatMap FieldDef.references
  | .union members => members
  | .scalar | .enum _ => []

def Selection.reference? : Selection → Option Name
  | .inline condition _ _ => condition
  | .field .. | .spread .. => none

def Definition.references : Definition → List Name
  | .type defn => defn.body.references
  | .typeExt extn => extn.body.references
  | .directive defn => defn.arguments.map (·.type.base)
  | .schema defn => defn.operations.map (·.2)
  | .schemaExt _ operations => operations.map (·.2)
  | .operation defn =>
    defn.variableDefs.map (·.type.base) ++
      (Selection.withinAll defn.selections).filterMap Selection.reference?
  | .fragment defn =>
    defn.condition :: (Selection.withinAll defn.selections).filterMap Selection.reference?

/-! ## Places of directives -/

/-- What a group of directives belongs to: a type with all of its extensions, the schema with its
extensions, or nothing else. -/
inductive DirectiveOwner where
  | alone
  | schema
  | type (name : Name)
deriving DecidableEq, Repr

structure DirectiveSite where
  place : DirectivePlace
  owner : DirectiveOwner := .alone
  directives : List Directive

def TypeKind.place : TypeKind → DirectivePlace
  | .scalar => .scalar
  | .object => .object
  | .interface => .interface
  | .union => .union
  | .enum => .enum
  | .input => .inputObject

def ArgumentDef.site (arg : ArgumentDef) : DirectiveSite :=
  { place := .argumentDefinition, directives := arg.directives }

def FieldDef.sites (place : DirectivePlace) (field : FieldDef) : List DirectiveSite :=
  { place, directives := field.directives } :: field.arguments.map ArgumentDef.site

def TypeBody.sites (inputPlace : DirectivePlace) : TypeBody → List DirectiveSite
  | .object _ fields | .interface _ fields => fields.flatMap (FieldDef.sites .fieldDefinition)
  | .input fields => fields.flatMap (FieldDef.sites inputPlace)
  | .enum values => values.map fun value => { place := .enumValue, directives := value.directives }
  | .scalar | .union _ => []

def OperationKind.place : OperationKind → DirectivePlace
  | .query => .query
  | .mutation => .mutation
  | .subscription => .subscription

def Selection.site : Selection → DirectiveSite
  | .field _ _ _ directives _ => { place := .field, directives }
  | .spread _ directives => { place := .fragmentSpread, directives }
  | .inline _ directives _ => { place := .inlineFragment, directives }

/-- The sites of a definition. Members of an input extension count as arguments. -/
def Definition.sites : Definition → List DirectiveSite
  | .operation defn =>
    [{ place := defn.kind.place, directives := defn.directives }] ++
      defn.variableDefs.map (fun declared =>
        { place := .variableDefinition, directives := declared.directives }) ++
      (Selection.withinAll defn.selections).map Selection.site
  | .fragment defn =>
    { place := .fragmentDefinition, directives := defn.directives } ::
      (Selection.withinAll defn.selections).map Selection.site
  | .schema defn => [{ place := .schema, owner := .schema, directives := defn.directives }]
  | .schemaExt directives _ => [{ place := .schema, owner := .schema, directives }]
  | .type defn =>
    { place := defn.body.kind.place, owner := .type defn.name, directives := defn.directives } ::
      defn.body.sites .inputFieldDefinition
  | .typeExt extn =>
    { place := extn.body.kind.place, owner := .type extn.name, directives := extn.directives } ::
      extn.body.sites .argumentDefinition
  | .directive defn => defn.arguments.map ArgumentDef.site

def Document.sites (doc : Document) : List DirectiveSite :=
  doc.flatMap Definition.sites

def Document.directives (doc : Document) : List Directive :=
  doc.sites.flatMap (·.directives)

/-! ## Arguments and literals -/

def Definition.argumentLists (defn : Definition) : List (List (Name × Literal)) :=
  (defn.sites.flatMap (·.directives)).map (·.arguments) ++
    defn.selections.filterMap fun
      | .field _ _ arguments _ _ => some arguments
      | .spread .. | .inline .. => none

def TypeBody.defaults (body : TypeBody) : List Literal :=
  body.fields.flatMap fun field => field.default.toList ++ field.arguments.filterMap (·.default)

def Definition.defaults : Definition → List Literal
  | .operation defn => defn.variableDefs.filterMap (·.default)
  | .type defn => defn.body.defaults
  | .typeExt extn => extn.body.defaults
  | .directive defn => defn.arguments.filterMap (·.default)
  | .fragment _ | .schema _ | .schemaExt .. => []

def Definition.literals (defn : Definition) : List Literal :=
  defn.argumentLists.flatMap (·.map (·.2)) ++ defn.defaults

/-! ## Names that are written once -/

def areDistinct : List Name → Bool
  | [] => true
  | name :: rest => !rest.contains name && areDistinct rest

mutual

def Literal.hasDistinctFields : Literal → Bool
  | .list items => Literal.allHaveDistinctFields items
  | .object fields => areDistinct (fields.map (·.1)) && Literal.fieldsHaveDistinctFields fields
  | _ => true

def Literal.allHaveDistinctFields : List Literal → Bool
  | [] => true
  | item :: rest => item.hasDistinctFields && Literal.allHaveDistinctFields rest

def Literal.fieldsHaveDistinctFields : List (Name × Literal) → Bool
  | [] => true
  | (_, item) :: rest => item.hasDistinctFields && Literal.fieldsHaveDistinctFields rest

end

def Definition.writesOnce (defn : Definition) : Bool :=
  defn.argumentLists.all (fun arguments => areDistinct (arguments.map (·.1))) &&
    defn.literals.all Literal.hasDistinctFields

end GraphApi
