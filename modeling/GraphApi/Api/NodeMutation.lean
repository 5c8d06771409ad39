import GraphApi.Api.Catalog
import GraphApi.Api.Key

/-!
# Changing nodes

Each node type gets mutations that create, update, delete and merge its nodes. They take the
properties as flat arguments, or in experimental mode as input objects.
-/

namespace GraphApi

inductive NodeAction where
  | create | update | delete | merge
deriving DecidableEq, Repr

def NodeAction.word : NodeAction → String
  | .create => "Create"
  | .update => "Update"
  | .delete => "Delete"
  | .merge => "Merge"

@[simp] theorem NodeAction.word_inj {first second : NodeAction} :
    first.word = second.word ↔ first = second := by
  cases first <;> cases second <;> decide

def createName (type : Name) : Name := "_" ++ type ++ "Create"

def updateName (type : Name) : Name := "_" ++ type ++ "Update"

/-- The type of a property of a new node: as declared, but an identifier that is the primary key can
be generated and is optional. -/
def createType (key : Option PrimaryKey) (info : FieldInfo) : TypeRef :=
  let generated := match key with
    | some key => info.name = key.name && isIdType info.type
    | none => false
  if generated then .plain info.type else info.wrappers.wrap info.type

def createArguments (infos : List FieldInfo) (key : Option PrimaryKey) : List ArgumentDef :=
  (infos.filter FieldInfo.isStored).map fun info =>
    { name := info.name, type := createType key info }

def optionalArgument (info : FieldInfo) : ArgumentDef :=
  { name := info.name, type := info.wrappers.listOnly.wrap info.type }

def updateArguments (infos : List FieldInfo) (key : PrimaryKey) : List ArgumentDef :=
  requiredArgument key.name key.type ::
    (infos.filter fun info => info.isStored && info.name ≠ key.name).map optionalArgument

def deleteArguments (key : PrimaryKey) : List ArgumentDef :=
  [requiredArgument key.name key.type]

def nodeMutation (settings : Settings) (action : NodeAction) (type : Name)
    (arguments : List ArgumentDef) : FieldDef where
  name := action.word ++ type
  arguments := arguments
  type := .plain type
  directives := operationDirectives settings action.word [type]
  isOperation := true

def noteWithoutKey (type : Name) : Pass Unit :=
  Pass.note .info
    (type ++ " has no field usable as a primary key, skipping its Update, Delete and Merge mutations")

/-- The mutations with flat arguments. Update is left out if it would take the primary key only. -/
def flatMutations (settings : Settings) (type : Name) (infos : List FieldInfo)
    (key : Option PrimaryKey) : List FieldDef :=
  let create := nodeMutation settings .create type (createArguments infos key)
  match key with
  | none => [create]
  | some key =>
    let update := updateArguments infos key
    [create] ++
    (if update.length > 1 then [nodeMutation settings .update type update] else []) ++
    [nodeMutation settings .delete type (deleteArguments key),
      nodeMutation settings .merge type update]

structure InputMutations where
  types : List TypeDef
  fields : List FieldDef

def inputMutations (settings : Settings) (type : Name) (infos : List FieldInfo)
    (key : Option PrimaryKey) : InputMutations :=
  let create := createArguments infos key
  let createTypes := if create.isEmpty then [] else [inputType (createName type) create]
  let createFields :=
    if create.isEmpty then []
    else [nodeMutation settings .create type [requiredArgument "data" (createName type)]]
  let keys := uniqueKeyFields infos key
  if key.isNone || keys.isEmpty then { types := createTypes, fields := createFields }
  else
    let keyNames := keys.map FieldInfo.name
    let update := (infos.filter fun info => info.isStored && !keyNames.contains info.name).map
      optionalArgument
    let condition := requiredArgument "where" (whereName type)
    { types := createTypes ++ [whereInput settings type keys, keysInput type keys] ++
        (if update.isEmpty then [] else [inputType (updateName type) update])
      fields := createFields ++
        (if update.isEmpty then []
         else [nodeMutation settings .update type [condition,
          requiredArgument "data" (updateName type)]]) ++
        [nodeMutation settings .delete type [condition]] ++
        (if create.isEmpty then []
         else [nodeMutation settings .merge type
           [requiredArgument "where" (keysName type), requiredArgument "data" (createName type)]]) }

def lacksKey (settings : Settings) (infos : List FieldInfo) (key : Option PrimaryKey) : Bool :=
  key.isNone || (settings.experimental && (uniqueKeyFields infos key).isEmpty)

def augmentNodeMutation (cat : Catalog) (type : Name) (infos : List FieldInfo)
    (key : Option PrimaryKey) : Pass Unit := do
  if lacksKey cat.settings infos key then noteWithoutKey type
  if cat.settings.experimental then
    let mutations := inputMutations cat.settings type infos key
    Run.emitAll (mutations.types.map (.register · false))
    Pass.offer .mutation mutations.fields
  else
    Pass.offer .mutation (flatMutations cat.settings type infos key)

end GraphApi
