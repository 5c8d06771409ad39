import GraphApi.CommandLine.Markup
import GraphApi.Text.CellWidth

/-!
# The console

What is shown to whoever runs a command: headings in a line of their own, and messages that are
broken into lines of a fixed width.
-/

namespace GraphApi.CommandLine

def consoleWidth : Nat := 80

def dashes (count : Nat) : String := String.ofList (List.replicate count '─')

def heading (title : String) : String :=
  let free := consoleWidth - (title.length + 2)
  dashes (free / 2) ++ " " ++ title ++ " " ++ dashes (free - free / 2) ++ "\n"

/-! ## Messages -/

def tabWidth : Nat := 8

def expandTabs (cell : Nat) : Chars → Chars
  | [] => []
  | c :: rest =>
    if c = '\t' then
      let blanks := tabWidth - cell % tabWidth
      List.replicate blanks ' ' ++ expandTabs (cell + blanks) rest
    else c :: expandTabs (cell + Text.cellWidth c) rest

/-- The words of a line, each with the blanks around it that no word before has. A line of blanks
has no words. -/
def blankWords : Nat → Chars → List Chars
  | 0, _ => []
  | limit + 1, line =>
    let blanks := line.takeWhile Text.isBlank
    let word := (line.drop blanks.length).takeWhile (!Text.isBlank ·)
    let gap := (line.drop (blanks.length + word.length)).takeWhile Text.isBlank
    if word.isEmpty then []
    else (blanks ++ word ++ gap) :: blankWords limit
      (line.drop (blanks.length + word.length + gap.length))

def cutWord (width : Nat) (begun : Chars) : Chars → List Chars
  | [] => [begun]
  | c :: rest =>
    if Text.cellLength begun + Text.cellWidth c > width then begun :: cutWord width [c] rest
    else cutWord width (begun ++ [c]) rest

/-- Puts words into lines, after a line that takes up some cells. A word that does not fit starts a
line, and one that fits on no line is cut. -/
def fillLines (width : Nat) (line : Chars) (cells : Nat) : List Chars → List Chars
  | [] => [line]
  | word :: rest =>
    let size := Text.cellLength (Text.trimEnd word)
    if cells + size ≤ width then fillLines width (line ++ word) (cells + Text.cellLength word) rest
    else if size ≤ width then
      if cells = 0 || line.isEmpty then fillLines width (line ++ word) cells rest
      else line :: fillLines width word (Text.cellLength word) rest
    else
      let parts := cutWord width [] word
      let last := parts.getLast?.getD []
      let before := if line.isEmpty then [] else [line]
      before ++ parts.dropLast ++ fillLines width last (Text.cellLength last) rest

def cropBlanks (width : Nat) (line : Chars) : Chars :=
  let blanks := line.length - (Text.trimEnd line).length
  line.take (line.length - min blanks (line.length - width))

/-- The start of a line that fills the columns, sought by halving. A wide character in the last
column is replaced by a blank. -/
def fitStart (width : Nat) (line : Chars) : Nat → Nat → Nat → Chars
  | 0, _, _ => line
  | limit + 1, lower, upper =>
    let middle := (lower + upper) / 2
    let start := line.take (middle + 1)
    let cells := Text.cellLength start
    if cells = width + 1 && start.getLast?.any (Text.cellWidth · = 2) then start.dropLast ++ [' ']
    else if cells = width then start
    else if cells > width then fitStart width line limit lower middle
    else fitStart width line limit middle upper

def fitLine (width : Nat) (line : Chars) : Chars :=
  let cropped := cropBlanks width line
  if Text.cellLength cropped ≤ width then cropped
    else fitStart width cropped (cropped.length + 1) 0 cropped.length

def layOut (text : Chars) : List Chars :=
  (text.splitOn '\n').flatMap fun line =>
    let line := expandTabs 0 line
    let words := blankWords line.length line
    let lines := if words.isEmpty then [line] else fillLines consoleWidth [] 0 words
    lines.map (fitLine consoleWidth)

def message (text : String) : Except MarkupFault String := do
  let lines := layOut (← plainMessage text)
  return String.join (lines.map fun line => String.ofList line ++ "\n")

def successMessage (text : String) :
    Except MarkupFault String := message ("[green]✓[/green] " ++ text)

/-! ## Plain output -/

/-- What follows a sequence that controls a terminal, after its opening: digits and signs, then a
letter. -/
def afterControl? (text : Chars) : Option Chars :=
  match text.dropWhile fun c => c.isDigit || c = ';' || c = '?' with
  | c :: rest => if c.isAlpha then some rest else none
  | [] => none

def dropControls : Nat → Chars → Chars
  | 0, text => text
  | _ + 1, [] => []
  | limit + 1, c :: rest =>
    match c.toNat, rest with
    | 27, '[' :: inside =>
      match afterControl? inside with
      | some after => dropControls limit after
      | none => c :: dropControls limit rest
    | _, _ => c :: dropControls limit rest

/-- A text with a line break in place of each pair of a carriage return and a line break. -/
def joinLineEnds : Chars → Chars
  | '\r' :: '\n' :: rest => '\n' :: joinLineEnds rest
  | c :: rest => c :: joinLineEnds rest
  | [] => []

def printed (text : String) : String :=
  String.ofList (joinLineEnds (dropControls text.length text.toList ++ ['\n']))

end GraphApi.CommandLine
