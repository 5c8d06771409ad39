import GraphApi.Request.Collect
import GraphApi.Schema.Valid

/-!
# Schemas that describe themselves

A request can ask a schema for its types, their members and its directives. Only two things can go
wrong with that: a selection depends on a condition without a value, and a default has no literal. A
failure makes the closest member null that may be null.
-/

namespace GraphApi

inductive Described where
  | schema
  | type (type : TypeRef)
  | field (field : FieldDef)
  | argument (argument : ArgumentDef)
  | value (value : EnumValueDef)
  | directive (directive : DirectiveDef)

def Described.typeName : Described → Name
  | .schema => "__Schema"
  | .type _ => "__Type"
  | .field _ => "__Field"
  | .argument _ => "__InputValue"
  | .value _ => "__EnumValue"
  | .directive _ => "__Directive"

inductive Part where
  /-- A value without parts, which there may be none of although it is asked for. -/
  | leaf (isThere : Bool)
  | described (parts : List Described)

namespace Schema

def currentItems {α : Type} (values : NameMap Value) (directives : α → List Directive)
    (items : List α) : List α :=
  match values.get? "includeDeprecated" with
  | some (.bool true) => items
  | _ => items.filter fun item => !isDeprecated (directives item)

def describeType (schema : Schema) (values : NameMap Value) (type : TypeRef) (member : Name) :
    Part :=
  let body : TypeBody := match type with
    | .named name false => ((schema.type? name).map SchemaType.body).getD .scalar
    | _ => .scalar
  match member with
  | "fields" =>
    match body with
    | .object _ fields | .interface _ fields =>
        .described ((currentItems values (·.directives) fields).map .field)
    | _ => .described []
  | "interfaces" => .described (body.interfaces.map fun name => .type (.named name false))
  | "possibleTypes" =>
    match type, body with
    | .named name false, .union _ | .named name false, .interface _ _ =>
      .described ((schema.possibleTypes name).map fun name => .type (.named name false))
    | _, _ => .described []
  | "enumValues" =>
    match body with
    | .enum enumValues => .described ((currentItems values (·.directives) enumValues).map .value)
    | _ => .described []
  | "inputFields" =>
    match body with
    | .input fields =>
      .described ((currentItems values (·.directives) (fields.map (·.toArgument))).map .argument)
    | _ => .described []
  | "ofType" =>
    match type with
    | .named name true => .described [.type (.named name false)]
    | .list item true => .described [.type (.list item false)]
    | .list item false => .described [.type item]
    | .named _ false => .described []
  | _ => .leaf true

def describe (schema : Schema) (values : NameMap Value) : Described → Name → Part
  | .schema, "types" => .described (schema.typeNames.map fun name => .type (.named name false))
  | .schema, "queryType" => .described ((schema.root? .query).map fun name =>
    .type (.named name false)).toList
  | .schema, "mutationType" => .described ((schema.root? .mutation).map fun name =>
    .type (.named name false)).toList
  | .schema, "subscriptionType" =>
    .described ((schema.root? .subscription).map fun name => .type (.named name false)).toList
  | .schema, "directives" => .described (schema.directives.map .directive)
  | .type type, member => schema.describeType values type member
  | .field field, "args" => .described
    ((currentItems values (·.directives) field.arguments).map .argument)
  | .field field, "type" => .described [.type field.type]
  | .argument arg, "type" => .described [.type arg.type]
  | .argument arg, "defaultValue" => .leaf (schema.showsDefault arg)
  | .directive directive, "args" =>
    .described ((currentItems values (·.directives) directive.arguments).map .argument)
  | _, _ => .leaf true

end Schema

inductive Described.Ending where
  | done
  | flawed
  | lost
deriving DecidableEq, Repr

def Described.Ending.next (first : Described.Ending) (second : Unit → Described.Ending) :
    Described.Ending :=
  match first with
  | .lost => .lost
  | .done => second ()
  | .flawed => if second () = .lost then .lost else .flawed

/-- The ending for a member of some type: one that may be null keeps a failure to itself. -/
def Described.Ending.within (ending : Described.Ending) (required : Bool) : Described.Ending :=
  if ending = .lost && !required then .flawed else ending

def Described.Ending.all {α : Type} (step : α → Described.Ending) : List α → Described.Ending
  | [] => .done
  | item :: rest => (step item).next fun _ => Described.Ending.all step rest

def Schema.describeWithin (schema : Schema) (fragments : List FragmentDef)
    (assigned : NameMap Value) : Nat → List Selection → Described → Described.Ending
  | 0, _, _ => .done
  | levels + 1, selections, described =>
    match schema.collect fragments assigned (some described.typeName) selections with
    | .error _ => .lost
    | .ok fields =>
      Described.Ending.all (fun (selected : List SelectedField) =>
        match selected.head?.bind fun field =>
          (schema.selected? described.typeName field.name).map (field, ·) with
        | none => .done
        | some (field, member) =>
          let ending : Described.Ending :=
            match schema.argumentValues assigned member.arguments field.arguments with
            | .error _ => .lost
            | .ok values =>
              match schema.describe values described field.name with
              | .leaf isThere => if isThere then .done else .lost
              | .described parts =>
                Described.Ending.all
                  (schema.describeWithin fragments assigned levels
                  (selected.flatMap SelectedField.selections)) parts
          ending.within member.type.required) fields.values

end GraphApi
