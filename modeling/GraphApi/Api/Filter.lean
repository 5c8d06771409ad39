import GraphApi.Graph.Classification

/-!
# Filters, orderings and pages

A filter input carries `AND` and `OR` and one input value for every operator of each property. An
ordering enum has two values for each property that nodes can be ordered by. Fields that return
nodes take both as arguments, and list fields take the bounds of a page.
-/

namespace GraphApi

/-- The operators of filters. The bare field name stands for equality and is no operator. -/
inductive FilterOp where
  | isNot | isIn | isNotIn
  | lt | lte | gt | gte
  | contains | notContains | startsWith | notStartsWith | endsWith | notEndsWith
  | distance | distanceLt | distanceLte | distanceGt | distanceGte
  | some | none | single | every
deriving DecidableEq, Repr

namespace FilterOp

def word : FilterOp → String
  | isNot => "not"
  | isIn => "in"
  | isNotIn => "not_in"
  | lt => "lt"
  | lte => "lte"
  | gt => "gt"
  | gte => "gte"
  | contains => "contains"
  | notContains => "not_contains"
  | startsWith => "starts_with"
  | notStartsWith => "not_starts_with"
  | endsWith => "ends_with"
  | notEndsWith => "not_ends_with"
  | distance => "distance"
  | distanceLt => "distance_lt"
  | distanceLte => "distance_lte"
  | distanceGt => "distance_gt"
  | distanceGte => "distance_gte"
  | some => "some"
  | none => "none"
  | single => "single"
  | every => "every"

def isMembership : FilterOp → Bool
  | isIn | isNotIn => true
  | _ => false

def isDistance : FilterOp → Bool
  | distance | distanceLt | distanceLte | distanceGt | distanceGte => true
  | _ => false

def ofCategory : Category → List FilterOp
  | .integer | .float | .temporal => [isNot, isIn, isNotIn, lt, lte, gt, gte]
  | .boolean => [isNot]
  | .string =>
    [isNot, isIn, isNotIn, contains, notContains, startsWith, notStartsWith, endsWith, notEndsWith]
  | .enum | .scalar => [isNot, isIn, isNotIn]
  | .spatial => [isNot, distance, distanceLt, distanceLte, distanceGt, distanceGte]

def ofRelation (isList : Bool) : List FilterOp :=
  [isNot, isIn, isNotIn] ++ if isList then [some, none, single, every] else []

end FilterOp

def filterName (type : Name) : Name := "_" ++ type ++ "Filter"

def orderingName (type : Name) : Name := "_" ++ type ++ "Ordering"

def pointDistanceFilter : Name := "_Neo4jPointDistanceFilter"

def operatorName (field : Name) (op : FilterOp) : Name := field ++ "_" ++ op.word

def logicalFilters (filter : Name) : List ArgumentDef :=
  ["AND", "OR"].map fun name => { name, type := Wrappers.listOfRequired.wrap filter }

def FilterOp.operand (op : FilterOp) (info : FieldInfo) : TypeRef :=
  if op.isDistance then .plain pointDistanceFilter
  else if op.isMembership then Wrappers.listOfRequired.wrap info.type
  else if op = .isNot then info.wrappers.listOnly.wrap info.type
  else .plain info.type

/-- Whether an operator applies to a property: membership is undefined for lists, and distances need
points. -/
def FilterOp.applies (settings : Settings) (info : FieldInfo) (op : FilterOp) : Bool :=
  !(info.isList && op.isMembership) && (!op.isDistance || settings.enablesSpatial .point)

def propertyFilters (settings : Settings) (info : FieldInfo) : List ArgumentDef :=
  match info.category with
  | .none => []
  | .some category =>
    { name := info.name, type := info.wrappers.listOnly.wrap info.type } ::
      ((FilterOp.ofCategory category).filter (·.applies settings info)).map fun op =>
        { name := operatorName info.name op, type := op.operand info }

def relationFilters (field filter : Name) (isList : Bool) : List ArgumentDef :=
  { name := field, type := .plain filter } ::
    (FilterOp.ofRelation isList).map fun op =>
      { name := operatorName field op,
        type := if op.isMembership then Wrappers.listOfRequired.wrap filter else .plain filter }

def orderingValues (field : Name) : List Name := [field ++ "_asc", field ++ "_desc"]

/-- The filter and the ordering of a type while its fields are gone through. -/
structure TypeInputs where
  filterName : Name
  orderingName : Name
  filters : List ArgumentDef := []
  ordering : List Name := []

namespace TypeInputs

def ofType (type : Name) : TypeInputs :=
  { filterName := GraphApi.filterName type, orderingName := GraphApi.orderingName type }

def named (type : Name) (filter ordering : Option Name) : TypeInputs :=
  { filterName := (filter.filter (· ≠ "")).getD (GraphApi.filterName type)
    orderingName := (ordering.filter (· ≠ "")).getD (GraphApi.orderingName type) }

def addFilters (inputs : TypeInputs) (filters : List ArgumentDef) : TypeInputs :=
  { inputs with filters := inputs.filters ++ filters }

def addValue (values : List Name) (value : Name) : List Name :=
  if values.contains value then values else values ++ [value]

def addOrdering (inputs : TypeInputs) (values : List Name) : TypeInputs :=
  { inputs with ordering := values.foldl addValue inputs.ordering }

def addProperty (settings : Settings) (inputs : TypeInputs) (info : FieldInfo) : TypeInputs :=
  let inputs := if info.isStored then inputs.addFilters (propertyFilters settings info) else inputs
  if info.isOrderable then inputs.addOrdering (orderingValues info.name) else inputs

def addSystemId (inputs : TypeInputs) : TypeInputs :=
  inputs.addOrdering (orderingValues FieldInfo.systemId)

end TypeInputs

def inputType (name : Name) (members : List ArgumentDef) : TypeDef :=
  { name, body := .input (members.map ArgumentDef.toField) }

@[simp] theorem inputType_name (name : Name) (members : List ArgumentDef) :
    (inputType name members).name = name := rfl

@[simp] theorem names_inputType (name : Name) (members : List ArgumentDef) :
    (inputType name members).fields.map (·.name) = members.map (·.name) := by
  simp [inputType, TypeDef.fields, TypeBody.fields, TypeBody.fields?, ArgumentDef.toField]

def filterType (name : Name) (filters : List ArgumentDef) : TypeDef :=
  inputType name (logicalFilters name ++ filters)

def enumType (name : Name) (values : List Name) : TypeDef :=
  { name, body := .enum (values.map fun value => { name := value }) }

def TypeInputs.filterType (inputs : TypeInputs) : TypeDef :=
  GraphApi.filterType inputs.filterName inputs.filters

def TypeInputs.orderingType (inputs : TypeInputs) : TypeDef :=
  enumType inputs.orderingName inputs.ordering

/-! ## Arguments -/

/-- Puts each replacement in the place of the argument of its name; those left over come at the
end. -/
def upsertInto (left : NameMap ArgumentDef) : List ArgumentDef → List ArgumentDef
  | [] => left.values
  | arg :: rest =>
    match left.get? arg.name with
    | some replacement => replacement :: upsertInto (left.erase arg.name) rest
    | none => arg :: upsertInto left rest

def upsertArguments (arguments replacements : List ArgumentDef) : List ArgumentDef :=
  upsertInto (NameMap.ofList (replacements.map fun arg => (arg.name, arg))) arguments

def pageArguments : List ArgumentDef :=
  ["first", "offset"].map fun name => { name, type := .plain "Int" }

def orderingArgument (ordering : Name) : ArgumentDef :=
  { name := "orderBy", type := Wrappers.plainList.wrap ordering }

def filterArgument (filter : Name) : ArgumentDef :=
  { name := "filter", type := .plain filter }

def addPage (arguments : List ArgumentDef) : List ArgumentDef :=
  let declared := arguments.map (·.name)
  arguments ++ pageArguments.filter fun arg => !declared.contains arg.name

def setArgument (build : Name → ArgumentDef) (name : Option Name) (arguments : List ArgumentDef) :
    List ArgumentDef :=
  match name with
  | some name => if name = "" then arguments else upsertArguments arguments [build name]
  | none => arguments

/-- The arguments of a field that returns nodes: the declared ones, on a list the page and the
ordering, and the filter. Declared bounds of a page stay, a declared ordering or filter is
replaced. -/
def queryArguments (arguments : List ArgumentDef) (isList : Bool) (ordering filter : Option Name) :
    List ArgumentDef :=
  let paged := if isList then setArgument orderingArgument ordering (addPage arguments)
    else arguments
  setArgument filterArgument filter paged

end GraphApi
