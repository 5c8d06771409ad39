import GraphApi.Api.Filter
import GraphApi.Document.Parts

/-!
# Retargeting temporal and spatial types

Members of output types that hold temporal or spatial values refer to the generated output types,
arguments and members of input types to the generated input types. Kinds that are switched off and
members that are left out of the API keep their types.
-/

namespace GraphApi

/-! ## The types of temporal and spatial values -/

def dateParts : List Name := ["year", "month", "day"]

def timeParts : List Name := ["hour", "minute", "second", "millisecond",
    "microsecond", "nanosecond"]

def TemporalKind.parts : TemporalKind → List Name
  | .time => timeParts ++ ["timezone"]
  | .date => dateParts
  | .dateTime => dateParts ++ timeParts ++ ["timezone"]
  | .localTime => timeParts
  | .localDateTime => dateParts ++ timeParts

def TemporalKind.members (kind : TemporalKind) : List ArgumentDef :=
  (kind.parts ++ ["formatted"]).map fun name =>
    { name, type := .plain (if name = "timezone" ∨ name = "formatted" then "String" else "Int") }

def SpatialKind.members : SpatialKind → List ArgumentDef
  | .point =>
    [("x", "Float"), ("y", "Float"), ("z", "Float"), ("longitude", "Float"), ("latitude", "Float"),
     ("height", "Float"), ("crs", "String"), ("srid", "Int"), ("formatted", "String")].map
      fun (name, type) => { name, type := .plain type }

def storedTypePair (kind : Name) (members : List ArgumentDef) : List TypeDef :=
  [{ name := storedTypeName kind, body := .object [] (members.map ArgumentDef.toField) },
   inputType (storedInputName kind) members]

def temporalTypes (settings : Settings) : List TypeDef :=
  (TemporalKind.all.filter settings.enablesTemporal).flatMap fun kind =>
    storedTypePair kind.word kind.members

def pointDistanceType : TypeDef :=
  inputType pointDistanceFilter
    [{ name := "point", type := Wrappers.required.wrap (storedInputName SpatialKind.point.word) },
     { name := "distance", type := Wrappers.required.wrap "Float" }]

def spatialTypes (settings : Settings) : List TypeDef :=
  (SpatialKind.all.filter settings.enablesSpatial).flatMap fun kind =>
    storedTypePair kind.word kind.members ++ match kind with
      | .point => [pointDistanceType]

def storedTypes (settings : Settings) : List TypeDef :=
  temporalTypes settings ++ spatialTypes settings

def enabledKind? (settings : Settings) (type : Name) : Option Name :=
  let base := baseKind type
  match TemporalKind.ofWord? base with
  | some kind => if settings.enablesTemporal kind then some base else none
  | none =>
    match SpatialKind.ofWord? base with
    | some kind => if settings.enablesSpatial kind then some base else none
    | none => none

/-- A reference with the type of its kind in place of its name. Other references stay as they
are. -/
def retargetRef (settings : Settings) (typeName : Name → Name) (type : TypeRef) : TypeRef :=
  match enabledKind? settings type.base with
  | some kind =>
    if typeName kind = type.base then type else type.wrappers.wrap (typeName kind)
  | none => type

def ArgumentDef.retarget (settings : Settings) (arg : ArgumentDef) : ArgumentDef :=
  { arg with type := retargetRef settings storedInputName arg.type }

def FieldDef.retarget (settings : Settings) (field : FieldDef) : FieldDef :=
  { field with
    type := if field.marked .ignore then field.type else retargetRef settings storedTypeName field.type
    arguments := field.arguments.map (·.retarget settings) }

def FieldDef.retargetInput (settings : Settings) (field : FieldDef) : FieldDef :=
  { field with
    type :=
      if field.isOperation then (field.retarget settings).type
      else retargetRef settings storedInputName field.type
    arguments := field.arguments.map (·.retarget settings) }

def TypeBody.retarget (settings : Settings) : TypeBody → TypeBody
  | .object interfaces fields => .object interfaces (fields.map (·.retarget settings))
  | .interface interfaces fields => .interface interfaces (fields.map (·.retarget settings))
  | .input fields => .input (fields.map (·.retargetInput settings))
  | .scalar => .scalar
  | .union members => .union members
  | .enum values => .enum values

def Definition.retarget (settings : Settings) : Definition → Definition
  | .type defn => .type { defn with body := defn.body.retarget settings }
  | .typeExt extn => .typeExt { extn with body := extn.body.retarget settings }
  | .directive defn =>
    .directive { defn with arguments := defn.arguments.map (·.retarget settings) }
  | .operation defn => .operation defn
  | .fragment defn => .fragment defn
  | .schema defn => .schema defn
  | .schemaExt directives operations => .schemaExt directives operations

/-! ## Names that stay -/

def kindNames : List Name :=
  ["Date", "DateTime", "LocalDateTime", "LocalTime", "Point", "Time"]

def scalarType (name : Name) : TypeDef := { name, body := .scalar }

def undeclaredScalars (doc : Document) : List TypeDef :=
  let referenced := doc.flatMap Definition.references
  let declared := doc.filterMap fun
    | .type defn => some defn.name
    | _ => none
  (kindNames.filter fun name => referenced.contains name && !declared.contains name).map scalarType

end GraphApi
