import GraphApi.CommandLine.Command

/-!
# The program

Reads the files that the arguments can mean, runs the command on them, and then prints and writes
what its report says.
-/

namespace GraphApi.CommandLine

open Files

/-- The texts of an argument that can be paths: the whole of it, and what follows an equals sign or
a letter. -/
def pathTexts (arg : String) : List String :=
  let text := arg.toList
  [arg, String.ofList ((text.dropWhile (· != '=')).drop 1),
    String.ofList (text.drop 2)].filter (· ≠ "")

def readEntry (name text : String) : IO (List (String × String)) := do
  try return [(name, ← IO.FS.readFile text)] catch _ => return []

def readTree (text : String) : IO (List (String × String)) := do
  let root ← IO.currentDir
  let path := root / text
  if ← path.isDir then
    let entries ← (← path.walkDir).toList.mapM fun inner => do
      let rest := (inner.toString.toList.drop path.toString.length).dropWhile (· == Path.separator)
      let name := text ++ "/" ++ String.ofList rest
      if ← inner.isDir then return [(name ++ "/", "")] else readEntry name inner.toString
    return (text ++ "/", "") :: entries.flatten
  else if ← path.pathExists then readEntry text path.toString
  else
    let parent := (Path.ofText text).parent.text
    if ← (root / parent).isDir then return [(parent ++ "/", "")] else return []

def readTrees (arguments : List String) : IO Tree := do
  let entries ← (arguments.flatMap pathTexts).eraseDups.mapM readTree
  return Tree.ofEntries entries.flatten.eraseDups

end GraphApi.CommandLine

def main (arguments : List String) : IO UInt32 := do
  let report := GraphApi.CommandLine.run (← GraphApi.CommandLine.readTrees arguments) arguments
  for notice in report.notices do
    IO.eprintln (notice.level.word ++ " " ++ notice.content)
  for (path, content) in report.written do
    IO.FS.writeFile path.text (content.getD (String.join (report.notices.map fun notice =>
      notice.content ++ "\n")))
  for (_, text) in report.shown do
    IO.print text
  return report.ending.code.toUInt32
