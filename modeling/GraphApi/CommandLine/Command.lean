import GraphApi.Api.Executable
import GraphApi.CommandLine.Arguments
import GraphApi.CommandLine.Console
import GraphApi.Files.Definitions
import GraphApi.Request.Translate
import GraphApi.Settings.Yaml
import GraphApi.Value.Json

/-!
# Commands

The commands of the program: to augment type definitions, and to translate a mutation. A command
works on a tree of files, and its report tells all that it shows and writes.
-/

namespace GraphApi.CommandLine

open Files

def version : String := "cli, version 0.3.0"

inductive Ending where
  | done
  | failed
  | broken (cause : Fault)
  | misused
deriving DecidableEq, Repr

def Ending.code : Ending → Nat
  | .done => 0
  | .failed | .broken _ => 1
  | .misused => 2

/-- Where a text is shown: results are printed plainly, all else is laid out for the console. -/
inductive Channel where
  | output | console
deriving DecidableEq, Repr

structure Report where
  ending : Ending
  shown : List (Channel × String) := []
  /-- The files that are written; a record of the notices has a content of its own. -/
  written : List (Path × Option String) := []
  notices : List Notice := []

def Report.textOn (report : Report) (channel : Channel) : String :=
  String.join ((report.shown.filter (·.1 == channel)).map (·.2))

/-! ## Options -/

inductive ProgramOption where
  | level | record | version | help
deriving DecidableEq, Repr

inductive CommandOption where
  | schema | settings | output | mutation | assignment | help
deriving DecidableEq, Repr

def programChoices : List (Choice ProgramOption) :=
  [{ key := .level, short := some 'l', long := "log-level" }, { key := .record, long := "log-file" },
   { key := .version, long := "version", takesValue := false }, { key := .help, long := "help", takesValue := false }]

def commonChoices : List (Choice CommandOption) :=
  [{ key := .schema, short := some 's', long := "schema" }, { key := .settings, short := some 'c', long := "config" },
   { key := .help, long := "help", takesValue := false }]

def augmentChoices : List (Choice CommandOption) :=
  commonChoices ++ [{ key := .output, short := some 'o', long := "output" }]

def translateChoices : List (Choice CommandOption) :=
  commonChoices ++
    [{ key := .mutation, short := some 'q', long := "mutation" },
     { key := .assignment, long := "variables" }]

def level? (word : String) : Option Level :=
  [.debug, .info, .warning, .error, .critical].find? fun level =>
    level.word = String.ofList (word.toList.map Char.toUpper)

/-! ## Paths among the arguments -/

/-- Whether there is something under a path as it is written. A separator at the end, also with a
dot behind it, asks for a directory. -/
def isThere (tree : Tree) (text : String) : Bool :=
  let path := Path.ofText text
  let last := ((text.toList.splitOn Path.separator).getLast?.map String.ofList).getD ""
  text ≠ "" && if last = "" || last = "." then tree.isDirectory path else tree.has path

def isFileThere (tree : Tree) (text : String) : Bool :=
  isThere tree text && tree.isFile (Path.ofText text)

def canWrite (tree : Tree) (text : String) : Bool :=
  text = "" || !tree.isDirectory (Path.ofText text)

/-- Checks a path as it is written. A path with a null character in it cannot even be looked up. -/
def checkPath (isRight : String → Bool) (text : String) : Except Ending Unit :=
  if text.toList.contains '\x00' then .error (.broken (.file .badName))
  else if isRight text then .ok ()
  else .error .misused

/-! ## What the commands share -/

structure Task where
  schemas : List Path
  settings : Option Path
  output : Option Path
  mutation : Option Path
  assignment : Option Path

/-- Checks the values of an option. Of an option that is given once the last value counts. -/
def checkOption (tree : Tree) (arguments : Arguments CommandOption) (key : CommandOption) :
    Except Ending Unit :=
  match key with
  | .schema => (arguments.values key).forM (checkPath (isThere tree))
  | .output => (arguments.value? key).toList.forM (checkPath (canWrite tree))
  | .settings | .mutation | .assignment =>
      (arguments.value? key).toList.forM (checkPath (isFileThere tree))
  | .help => .ok ()

def Task.ofArguments (tree : Tree) (needsMutation : Bool) (arguments : Arguments CommandOption) :
    Except Ending Task := do
  arguments.keys.forM (checkOption tree arguments)
  if !arguments.has .schema || (needsMutation && !arguments.has .mutation) ||
    !arguments.words.isEmpty then
    throw .misused
  let path := fun key => (arguments.value? key).map Path.ofText
  return { schemas := definitionFiles tree ((arguments.values .schema).map Path.ofText)
           settings := path .settings, output := path .output
           mutation := path .mutation, assignment := path .assignment }

def readText (tree : Tree) (path : Path) : Run Notice Fault String :=
  Run.ofExcept ((tree.content path).mapError .file)

def readSettings (tree : Tree) (path : Option Path) : Run Notice Fault Settings := do
  match path with
  | none =>
    Run.emit { level := .debug, content := "No augmentation config provided, using defaults" }
    return {}
  | some path =>
    let datum ← Run.ofExcept ((Yaml.Datum.ofText (← readText tree path)).mapError .yaml)
    Run.emit { level := .debug, content := "Loaded augmentation config from " ++ path.text }
    Run.ofExcept (Settings.ofDatum datum)

/-- A report of what a command did. Where it went wrong, `explain` gives the words for the causes
that are reported. -/
def Report.ofRun (explain : Fault → Option String) (run : Run Notice Fault Report) : Report :=
  match run.outcome with
  | .ok report => { report with notices := run.events ++ report.notices }
  | .error cause =>
    match explain cause with
    | some words =>
      let notice : Notice := { level := .error, content := words ++ ": " ++ cause.message }
      { ending := .failed, notices := run.events ++ [notice] }
    | none => { ending := .broken cause, notices := run.events }

/-! ## Augmenting -/

def explainAugment : Fault → Option String
  | .file .badName => none
  | .file _ => some "File I/O error"
  | .yaml .form => some "Invalid config file"
  | .settings _ => some "Invalid configuration"
  | .schema _ | .malformed _ | .request => some "Invalid schema"
  | _ => none

def runAugment (tree : Tree) (task : Task) : Run Notice Fault Report := do
  let settings ← readSettings tree task.settings
  let augmented ← augmentText settings (← Run.ofExcept (readAllDefinitions tree task.schemas))
  match task.output with
  | none => return { ending := .done, shown := [(.output, printed augmented)] }
  | some path =>
    let (place, _) ← Run.ofExcept ((tree.write path augmented).mapError .file)
    let written := [(place, some augmented)]
    match successMessage ("Successfully augmented schema to " ++ path.text) with
    | .ok text => return { ending := .done, written, shown := [(.console, text)] }
    | .error fault => return { ending := .broken (.markup fault), written }

/-! ## Translating -/

def explainTranslate : Fault → Option String
  | .file .badName => none
  | .file _ => some "File I/O error"
  | .json | .yaml .form => some "Invalid input file"
  | .settings _ => some "Invalid configuration"
  | .schema _ | .malformed _ | .request | .typeSystem | .strayStatement
    .scalar | .strayStatement .quotedList
  | .yaml .kind => some "Invalid schema or mutation"
  | .translation _ => some "Translation failed"
  | _ => none

/-- A pair of a name and a value, as an item of a list of variables. Other things than names are
never asked for. -/
def pairOf : Value → Except Fault (NameMap Value)
  | .list [.text name, value] => .ok [(name, value)]
  | .list [.list _, _] | .list [.object _, _] => .error .request
  | .list [_, _] => .ok []
  | .text content =>
    match content.toList with
    | [name, value] => .ok [(name.toString, .text value.toString)]
    | _ => .error .unpairedVariables
  | .object [(name, _), (other, _)] => .ok [(name, .text other)]
  | .list _ | .object _ => .error .unpairedVariables
  | _ => .error .request

/-- The variables that a value stands for: an object, a list of pairs, or nothing. -/
def variablesOf : Value → Except Fault (NameMap Value)
  | .object entries => .ok entries
  | .list items => do return NameMap.ofList (← items.mapM pairOf).flatten
  | .text content => if content.isEmpty then .ok [] else .error .unpairedVariables
  | .null | .bool false | .int 0 => .ok []
  | .float (.finite _ 0 _) => .ok []
  | _ => .error .request

def readVariables (tree : Tree) (path : Option Path) : Run Notice Fault Value := do
  match path with
  | none => return .object []
  | some path =>
    match Json.parse (← readText tree path) with
    | .ok value => return value
    | .error .form => Run.fail .json
    | .error .longNumber => Run.fail .longNumber

def runTranslate (tree : Tree) (task : Task) : Run Notice Fault Report := do
  let settings ← readSettings tree task.settings
  let schema ← augmentedSchema settings (← Run.ofExcept (readAllDefinitions tree task.schemas))
  Run.emit { level := .info, content := "Successfully built the augmented GraphQL schema." }
  if !schema.showsAllDefaults then Run.fail .typeSystem
  let doc ← Document.read (← readText tree (task.mutation.getD default))
  let given ← readVariables tree task.assignment
  let _ ← Run.ofExcept (schema.mutationOf doc)
  let translation ← translateRequest schema doc (← Run.ofExcept (variablesOf given))
  let parameters := Json.pretty (.object translation.parameters)
  return { ending := .done
           shown := [(.console, heading "Statement"),
             (.output, printed translation.statement.display),
             (.console, heading "Parameters"), (.console, parameters ++ "\n")] }

/-! ## The program -/

def runCommand (tree : Tree) (needsMutation : Bool) (choices : List (Choice CommandOption))
    (explain : Fault → Option String) (run : Tree → Task → Run Notice Fault Report)
    (arguments : List String) : Report :=
  match Arguments.read? choices true arguments with
  | none => { ending := .misused }
  | some arguments =>
    if arguments.has .help then { ending := .done }
    else
      match Task.ofArguments tree needsMutation arguments with
      | .ok task => .ofRun explain (run tree task)
      | .error ending => { ending }

def commands (tree : Tree) : List (String × (List String → Report)) :=
  [("augment", runCommand tree false augmentChoices explainAugment runAugment),
   ("translate", runCommand tree true translateChoices explainTranslate runTranslate)]

def startRecord (tree : Tree) (record : Option Path) :
    Except FileFault (Tree × List (Path × Option String)) :=
  match record with
  | none => .ok (tree, [])
  | some path => (tree.write path.normal "").map fun (place, tree) => (tree, [(place, none)])

/-- Runs a command after the options before it: notices below a level are dropped, and may be
recorded in a file. -/
def runWith (tree : Tree) (level : Level) (record : Option Path) : List String → Report
  | [] => { ending := .misused }
  | name :: arguments =>
    if (commands tree).lookup name |>.isNone then { ending := .misused }
    else
      match startRecord tree record with
      | .error fault => { ending := .broken (.file fault) }
      | .ok (tree, written) =>
        match (commands tree).lookup name with
        | none => { ending := .misused }
        | some command =>
          let report := command arguments
          { report with
            written := written ++ report.written
            notices := report.notices.filter fun notice => notice.level.rank ≥ level.rank }

/-- The options that end the program at once: what it prints for the first of them. -/
def printedAtOnce? (arguments : Arguments ProgramOption) : Option String :=
  arguments.given.findSome? fun
    | (.version, _) => some (version ++ "\n")
    | (.help, _) => some ""
    | _ => none

def checkProgramOption (tree : Tree) (arguments : Arguments ProgramOption) (key : ProgramOption) :
    Except Ending Unit :=
  match key with
  | .level => if (arguments.value? key).all fun word => (level? word).isSome then .ok ()
      else .error .misused
  | .record => (arguments.value? key).toList.forM (checkPath (canWrite tree))
  | .version | .help => .ok ()

def run (tree : Tree) (arguments : List String) : Report :=
  match Arguments.read? programChoices false arguments with
  | none => { ending := .misused }
  | some arguments =>
    match printedAtOnce? arguments, arguments.keys.forM (checkProgramOption tree arguments) with
    | some text, _ => { ending := .done, shown := [(.output, text)] }
    | none, .error ending => { ending }
    | none, .ok () =>
      let level := ((arguments.value? .level).bind level?).getD .info
      runWith tree level ((arguments.value? .record).map Path.ofText) arguments.words

end GraphApi.CommandLine
