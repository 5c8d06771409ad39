import GraphApi.Text.Character

/-!
# Files and directories

A tree holds files with their contents, and directories. Where there is a file, there are the
directories around it.
-/

namespace GraphApi.Files

/-! ## Paths -/

structure Path where
  isAbsolute : Bool := false
  parts : List String
deriving DecidableEq, Inhabited, Repr

namespace Path

def separator : Char := '/'

def parentPart : String := ".."

def ofText (text : String) : Path where
  isAbsolute := text.toList.head? == some separator
  parts := ((text.toList.splitOn separator).map String.ofList).filter fun part =>
    part ≠ "" && part ≠ "."

/-- A path as a text. The path without parts is the place that paths start from. -/
def text (path : Path) : String :=
  let joined := "/".intercalate path.parts
  if path.isAbsolute then "/" ++ joined else if path.parts.isEmpty then "." else joined

def child (path : Path) (name : String) : Path := { path with parts := path.parts ++ [name] }

def descend (path : Path) (parts : List String) : Path := { path with parts := path.parts ++ parts }

/-- The parts after others, where each step back takes away the part before it. Above the top there
is nothing. -/
def stepsAfter (isAbsolute : Bool) (before : List String) : List String → List String
  | [] => before
  | part :: rest =>
    let next :=
      if part ≠ parentPart then before ++ [part]
      else
        match before.getLast? with
        | some last => if last = parentPart then before ++ [part] else before.dropLast
        | none => if isAbsolute then [] else [part]
    stepsAfter isAbsolute next rest

/-- A path without steps back inside of it, which may lead elsewhere if a part is not there. -/
def normal (path : Path) : Path := { path with parts := stepsAfter path.isAbsolute [] path.parts }

def parent (path : Path) : Path := { path with parts := path.parts.dropLast }

def name? (path : Path) : Option String := path.parts.getLast?

/-- What a path is ordered by: its parts, of which a path from the top has an empty one first. -/
def sortKey (path : Path) : List String := if path.isAbsolute then "" :: path.parts else path.parts

def precedes (first second : Path) :
    Bool := (List.compareLex compare first.sortKey second.sortKey).isLE

def within? (directory path : Path) : Option (List String) :=
  if directory.isAbsolute = path.isAbsolute && directory.parts.isPrefixOf path.parts then
    some (path.parts.drop directory.parts.length)
  else none

end Path

inductive FileFault where
  | missing
  | directory
  | notDirectory
  | longName
  | badName
deriving DecidableEq, Repr

def nameLimit : Nat := 255

structure Tree where
  files : List (Path × String) := []
  directories : List Path := []

namespace Tree

/-- Adds an entry under a path as it is written; one that ends in the separator is an empty
directory. -/
def add (tree : Tree) (text content : String) : Tree :=
  let path := Path.ofText text
  if text.toList.getLast? == some Path.separator then
    { tree with directories := tree.directories ++ [path] }
  else { tree with files := tree.files ++ [(path, content)] }

def ofEntries (entries : List (String × String)) : Tree :=
  entries.foldl (fun tree entry => tree.add entry.1 entry.2) {}

def listed (tree : Tree) : List Path := tree.files.map (·.1) ++ tree.directories

def hasDirectory (tree : Tree) (path : Path) : Bool :=
  path.parts.isEmpty || tree.directories.contains path ||
    tree.listed.any fun other => (path.within? other).any (!·.isEmpty)

def hasFile (tree : Tree) (path : Path) : Bool := (tree.files.lookup path).isSome

/-- Follows parts from a directory. Only directories lead on. -/
def follow (tree : Tree) (place : Path) : List String → Except FileFault Path
  | [] => .ok place
  | part :: rest =>
    if tree.hasFile place then .error .notDirectory
    else if !tree.hasDirectory place then .error .missing
    else if part.utf8ByteSize > nameLimit then .error .longName
    else if part = Path.parentPart then
      if place.parts.isEmpty then .error .missing else tree.follow place.parent rest
    else tree.follow (place.child part) rest

def locate (tree : Tree) (path : Path) : Except FileFault Path :=
  if path.parts.any (·.contains '\x00') then .error .badName
    else tree.follow { path with parts := [] } path.parts

def isDirectory (tree : Tree) (path : Path) :
    Bool := (tree.locate path).toOption.any tree.hasDirectory

def stored (tree : Tree) (path : Path) : Except FileFault String := do
  let place ← tree.locate path
  match tree.files.lookup place with
  | some content => return content
  | none => .error (if tree.hasDirectory place then .directory else .missing)

def isFile (tree : Tree) (path : Path) : Bool := (tree.stored path).isOk

def has (tree : Tree) (path : Path) : Bool := tree.isFile path || tree.isDirectory path

def content (tree : Tree) (path : Path) : Except FileFault String :=
  (tree.stored path).map fun content => String.ofList (Text.unifyNewlines content.toList)

def below (tree : Tree) (path : Path) : List (List String) :=
  match tree.locate path with
  | .ok place =>
    let parts := tree.listed.filterMap place.within?
    (parts.flatMap fun parts => (List.range parts.length).map fun n => parts.take (n + 1)).eraseDups
  | .error _ => []

/-- Writes a file, and gives the place where it is. Its directory has to be there, and it may not be
a directory itself. -/
def write (tree : Tree) (path : Path) (content : String) : Except FileFault (Path × Tree) := do
  let place ← tree.locate path
  if tree.hasDirectory place then .error .directory
  else return (place, { tree with files := tree.files.filter (·.1 ≠ place) ++ [(place, content)] })

end Tree

end GraphApi.Files
