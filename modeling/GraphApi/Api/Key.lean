import GraphApi.Api.Filter

/-!
# Keys of nodes

A node is selected by its primary key: the field marked `id`, else the first marked `unique`, else
the first marked `index`, else one inferred from the types of its fields.
-/

namespace GraphApi

inductive KeyStrategy where
  | id | unique | index | inferred
deriving DecidableEq, Repr

def KeyStrategy.word : KeyStrategy → String
  | .id => "@id"
  | .unique => "@unique"
  | .index => "@index"
  | .inferred => "inferred"

structure PrimaryKey where
  info : FieldInfo
  strategy : KeyStrategy

def PrimaryKey.name (key : PrimaryKey) : Name := key.info.name

def PrimaryKey.type (key : PrimaryKey) : Name := key.info.type

def isIdType (type : Name) : Bool := type = "ID"

/-- Only stored properties of a single scalar can identify a node. -/
def FieldInfo.isKey (info : FieldInfo) : Bool :=
  info.isStored && !info.isRelation && !info.isTemporal && !info.isSpatial && !info.isList

def keyFields (infos : List FieldInfo) : List FieldInfo :=
  infos.filter FieldInfo.isKey

def FieldInfo.isRequired (info : FieldInfo) : Bool := info.wrappers.requiredItem

/-- The best unmarked key: a required identifier, any identifier, a required field, the first
field. -/
def inferKey (fields : List FieldInfo) : Option FieldInfo :=
  (fields.find? fun info => isIdType info.type && info.isRequired).or
    ((fields.find? fun info => isIdType info.type).or
      ((fields.find? FieldInfo.isRequired).or fields.head?))

def firstMarked (mark : Mark) (fields : List FieldInfo) : Option FieldInfo :=
  fields.find? (·.field.marked mark)

def primaryKey (infos : List FieldInfo) : Option PrimaryKey :=
  let fields := keyFields infos
  ((firstMarked .id fields).map (⟨·, .id⟩)).or
    (((firstMarked .unique fields).map (⟨·, .unique⟩)).or
      (((firstMarked .index fields).map (⟨·, .index⟩)).or ((inferKey fields).map (⟨·, .inferred⟩))))

def FieldInfo.isMarkedKey (info : FieldInfo) : Bool :=
  Mark.keys.any info.field.marked

def uniqueKeyFields (infos : List FieldInfo) (key : Option PrimaryKey) : List FieldInfo :=
  let marked := (keyFields infos).filter FieldInfo.isMarkedKey
  if marked.isEmpty then (key.map (·.info)).toList else marked

def selectionName (type : Name) : Name := "_" ++ type ++ "Input"

def whereName (type : Name) : Name := "_" ++ type ++ "Where"

def keysName (type : Name) : Name := "_" ++ type ++ "Keys"

def requiredArgument (name type : Name) : ArgumentDef :=
  { name, type := Wrappers.required.wrap type }

def selectionInput (type : Name) (key : PrimaryKey) : TypeDef :=
  inputType (selectionName type) [requiredArgument key.name key.type]

def whereInput (settings : Settings) (type : Name) (keys : List FieldInfo) : TypeDef :=
  filterType (whereName type) (keys.flatMap (propertyFilters settings))

def keysInput (type : Name) (keys : List FieldInfo) : TypeDef :=
  inputType (keysName type) (keys.map fun info => { name := info.name, type := .plain info.type })

end GraphApi
