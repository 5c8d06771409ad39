import GraphApi.Document.Basic
import GraphApi.Fault
import GraphApi.Value.Basic

/-!
# Settings of the augmentation

Which operations are generated for which types, which temporal and spatial types are added, and
which authorization directives are in use.
-/

namespace GraphApi

inductive TemporalKind where
  | time | date | dateTime | localTime | localDateTime
deriving DecidableEq, Repr

def TemporalKind.all : List TemporalKind :=
  [.time, .date, .dateTime, .localTime, .localDateTime]

def TemporalKind.word : TemporalKind → Name
  | .time => "Time"
  | .date => "Date"
  | .dateTime => "DateTime"
  | .localTime => "LocalTime"
  | .localDateTime => "LocalDateTime"

inductive SpatialKind where
  | point
deriving DecidableEq, Repr

def SpatialKind.all : List SpatialKind := [.point]

def SpatialKind.word : SpatialKind → Name
  | .point => "Point"

inductive AuthKind where
  | isAuthenticated | hasRole | hasScope
deriving DecidableEq, Repr

def AuthKind.all : List AuthKind := [.isAuthenticated, .hasRole, .hasScope]

def AuthKind.word : AuthKind → Name
  | .isAuthenticated => "isAuthenticated"
  | .hasRole => "hasRole"
  | .hasScope => "hasScope"

/-- Either one switch for everything or a choice in detail. -/
inductive Choice (α : Type) where
  | all (enabled : Bool)
  | only (detail : α)
deriving DecidableEq, Repr

/-- The settings of an augmentation. The details of the first two are the excluded types, of the
others the kinds that are switched on. -/
structure Settings where
  query : Choice (List Name) := .all true
  mutation : Choice (List Name) := .all true
  auth : Choice (List AuthKind) := .all false
  temporal : Choice (List TemporalKind) := .all true
  spatial : Choice (List SpatialKind) := .all true
  experimental : Bool := false
deriving DecidableEq, Repr

namespace Settings

/-- The setting of an operation; subscriptions are never generated. -/
def operation (settings : Settings) : OperationKind → Choice (List Name)
  | .query => settings.query
  | .mutation => settings.mutation
  | .subscription => .all false

def enables (settings : Settings) (kind : OperationKind) : Bool :=
  match settings.operation kind with
  | .all enabled => enabled
  | .only _ => true

def augments (settings : Settings) (kind : OperationKind) (type : Name) : Bool :=
  match settings.operation kind with
  | .all enabled => enabled
  | .only excluded => !excluded.contains type

def enablesTemporal (settings : Settings) (kind : TemporalKind) : Bool :=
  match settings.temporal with
  | .all enabled => enabled
  | .only kinds => kinds.contains kind

def enablesSpatial (settings : Settings) (kind : SpatialKind) : Bool :=
  match settings.spatial with
  | .all enabled => enabled
  | .only kinds => kinds.contains kind

def enablesAuth (settings : Settings) (kind : AuthKind) : Bool :=
  match settings.auth with
  | .all enabled => enabled
  | .only kinds => kinds.contains kind

/-- Whether the authorization directive of some name is in use; one switch for everything holds for
any name. -/
def enablesAuthNamed (settings : Settings) (name : Name) : Bool :=
  match settings.auth with
  | .all enabled => enabled
  | .only kinds => kinds.any (·.word == name)

end Settings

end GraphApi

/-! ## Reading settings -/

namespace GraphApi.Settings

def offWords : List String := ["0", "off", "f", "false", "n", "no"]

def onWords : List String := ["1", "on", "t", "true", "y", "yes"]

def readSwitch? : Value → Option Bool
  | .bool enabled => some enabled
  | .int 0 => some false
  | .int 1 => some true
  | .float x =>
    match x.toInt? with
    | some 0 => some false
    | some 1 => some true
    | _ => none
  | .text content =>
    let word := String.ofList (content.toList.map Char.toLower)
    if offWords.contains word then some false else if onWords.contains word then some true else none
  | _ => none

def readNames? (value : Value) : Option (List Name) :=
  match value with
  | .list items => items.mapM Value.text?
  | _ => none

def readChoice? {α : Type} (readDetail : Entries → Option α) (value : Value) : Option (Choice α) :=
  match value with
  | .object entries => (readDetail entries).map .only
  | _ => (readSwitch? value).map .all

def keysAmong (keys : List Name) (entries : Entries) : Bool :=
  entries.all fun entry => keys.contains entry.1

def readExclusion? (entries : Entries) : Option (List Name) :=
  if keysAmong ["exclude"] entries then
    match NameMap.get? entries "exclude" with
    | some value => readNames? value
    | none => some []
  else none

def readFlag? (entries : Entries) (key : Name) (default : Bool) : Option Bool :=
  match NameMap.get? entries key with
  | some value => readSwitch? value
  | none => some default

/-- The kinds whose flags are on. Each kind has one key, and stands at `default` if its key is
absent. -/
def readFlags? {α : Type} (kinds : List (Name × α)) (default : Bool) (entries : Entries) :
    Option (List α) :=
  if keysAmong (kinds.map (·.1)) entries then do
    let flags ← kinds.mapM fun (key, kind) => (readFlag? entries key default).map (kind, ·)
    return (flags.filter (·.2)).map (·.1)
  else none

def temporalKeys : List (Name × TemporalKind) :=
  [("time", .time), ("date", .date), ("datetime", .dateTime), ("localtime", .localTime),
   ("localdatetime", .localDateTime)]

def spatialKeys : List (Name × SpatialKind) := [("point", .point)]

def authKeys : List (Name × Name × AuthKind) :=
  [("isAuthenticated", "is_authenticated", .isAuthenticated), ("hasRole", "has_role", .hasRole),
   ("hasScope", "has_scope", .hasScope)]

/-- The authorization directives in use; a key may have either spelling, but not both. -/
def readAuth? (entries : Entries) : Option (List AuthKind) :=
  let both := authKeys.any fun (camel, snake, _) =>
    NameMap.contains entries camel && NameMap.contains entries snake
  if both || !keysAmong (authKeys.flatMap fun (camel, snake, _) => [camel, snake]) entries then none
  else do
    let flags ← authKeys.mapM fun (camel, snake, kind) =>
      (readFlag? entries (if NameMap.contains entries camel then camel
        else snake) false).map (kind, ·)
    return (flags.filter (·.2)).map (·.1)

def readEntry? {α : Type} (entries : Entries) (key : Name) (default : α)
    (read : Value → Option α) : Option α :=
  match NameMap.get? entries key with
  | some value => read value
  | none => some default

def readEntries? (entries : Entries) : Option Settings :=
  let standard : Settings := {}
  if keysAmong ["query", "mutation", "auth", "temporal", "spatial", "experimental"] entries then do
    let query ← readEntry? entries "query" standard.query (readChoice? readExclusion?)
    let mutation ← readEntry? entries "mutation" standard.mutation (readChoice? readExclusion?)
    let auth ← readEntry? entries "auth" standard.auth (readChoice? readAuth?)
    let temporal ← readEntry? entries "temporal" standard.temporal
      (readChoice? (readFlags? temporalKeys true))
    let spatial ← readEntry? entries "spatial" standard.spatial
      (readChoice? (readFlags? spatialKeys true))
    let experimental ← readEntry? entries "experimental" standard.experimental readSwitch?
    return { query, mutation, auth, temporal, spatial, experimental }
  else none

def kindWord : Value → String
  | .null => "NoneType"
  | .bool _ => "bool"
  | .int _ => "int"
  | .float _ => "float"
  | .text _ => "str"
  | .list _ => "list"
  | .object _ => "dict"

/-- Reads settings: an object with the settings that differ from the standard, or nothing at all. -/
def ofValue (value : Value) : Except Fault Settings :=
  match value with
  | .null => .ok {}
  | .object entries =>
    match readEntries? entries with
    | some settings => .ok settings
    | none => .error (.settings .invalid)
  | other => .error (.settings (.notMapping (kindWord other)))

end GraphApi.Settings
