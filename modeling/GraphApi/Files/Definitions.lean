import GraphApi.Document.Reader
import GraphApi.Fault
import GraphApi.Text.Affix

/-!
# Type definitions in files

Type definitions are spread over files and directories. The files are read by rising path, whatever
the order in which they are named.
-/

namespace GraphApi.Files

def usualEnding : String := ".graphql"

def definitionEndings : List String := [usualEnding, ".graphqls", ".gql"]

def hasEnding (name ending : String) : Bool := (Text.dropEnd? ending name).isSome

/-- What a named path stands for: a file for itself, a directory for all in it with the usual
ending. -/
def expand (tree : Tree) (path : Path) : List Path :=
  if tree.isFile path then [path]
  else if tree.isDirectory path then
    ((tree.below path).filter fun parts =>
      parts.getLast?.any (hasEnding · usualEnding)).map path.descend
  else []

def definitionFiles (tree : Tree) (paths : List Path) : List Path :=
  ((paths.flatMap (expand tree)).eraseDups).mergeSort Path.precedes

def readFile (tree : Tree) (path : Path) : Except Fault String :=
  match tree.content path with
  | .ok content =>
    match Document.parse content with
    | .ok _ => .ok content
    | .error _ => .error .malformedFile
  | .error fault => .error (.file fault)

def directoryFiles (tree : Tree) (path : Path) : List Path :=
  let isDefinition := fun (file : Path) =>
    tree.isFile file && file.name?.any fun name =>
      definitionEndings.any (hasEnding (String.ofList (name.toList.map Char.toLower)))
  (((tree.below path).map path.descend).filter isDefinition).mergeSort fun a b =>
    decide (a.text ≤ b.text)

/-- Reads the type definitions of all files in a directory, or of a file. Steps back on the way to a
file take away the part before them, whether it is there or not. -/
def readDefinitions (tree : Tree) (path : Path) : Except Fault String :=
  if tree.isDirectory path then do
    return "\n".intercalate (← (directoryFiles tree path).mapM (readFile tree))
  else readFile tree path.normal

/-- The type definitions of several files or directories. Each ends its last line. -/
def readAllDefinitions (tree : Tree) (paths : List Path) : Except Fault String := do
  return String.join ((← paths.mapM (readDefinitions tree)).map (· ++ "\n"))

end GraphApi.Files
