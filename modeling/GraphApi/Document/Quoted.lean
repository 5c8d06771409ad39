/-!
# Quoted texts and block texts

How a string literal is written. A plain text escapes quotes, backslashes and control characters. A
block text keeps its lines: what a document means by one is the text without the indentation its
lines share, and what is written for one has the delimiters on lines of their own whenever that
reads better.
-/

namespace GraphApi.Quoted

def hexDigit (n : Nat) : Char :=
  if n < 10 then Char.ofNat (48 + n) else Char.ofNat (55 + n)

def hexValue? (c : Char) : Option Nat :=
  if '0' ≤ c ∧ c ≤ '9' then some (c.toNat - 48)
  else if 'a' ≤ c ∧ c ≤ 'f' then some (c.toNat - 87)
  else if 'A' ≤ c ∧ c ≤ 'F' then some (c.toNat - 55)
  else none

def hexNumber? (digits : List Char) : Option Nat :=
  digits.foldlM (fun value c => (hexValue? c).map (16 * value + ·)) 0

/-- The signs that a backslash comes before, each with what follows the backslash. -/
def shortEscapes : List (Nat × Char) :=
  [(34, '"'), (92, '\\'), (10, 'n'), (9, 't'), (13, 'r'), (8, 'b'), (12, 'f')]

def escape (c : Char) : List Char :=
  match shortEscapes.lookup c.toNat with
  | some sign => ['\\', sign]
  | none =>
    if c.toNat < 32 ∨ (127 ≤ c.toNat ∧ c.toNat < 160) then
      ['\\', 'u', '0', '0', hexDigit (c.toNat / 16), hexDigit (c.toNat % 16)]
    else [c]

def plain (content : String) : String :=
  "\"" ++ String.ofList (content.toList.flatMap escape) ++ "\""

/-- Space and tab, the only blanks that indent a block text. -/
def isIndent (c : Char) : Bool :=
  c = ' ' || c = '\t'

/-! ## Block texts -/

def indentation (line : List Char) : Nat :=
  (line.takeWhile isIndent).length

def isBlankLine (line : List Char) : Bool :=
  line.all isIndent

def commonIndentation (lines : List (List Char)) : Option Nat :=
  ((lines.filter (!isBlankLine ·)).map indentation).min?

/-- Removes the indentation that all lines but the first share, and then the blank lines at both
ends. -/
def dedent : List (List Char) → List (List Char)
  | [] => []
  | first :: rest =>
    let cut := match commonIndentation rest with
      | some n => rest.map (·.drop n)
      | none => rest.map fun _ => []
    let lines := (first :: cut).dropWhile isBlankLine
    (lines.reverse.dropWhile isBlankLine).reverse

def blockContent (lines : List (List Char)) : String :=
  String.intercalate "\n" ((dedent lines).map String.ofList)

def isLineBreak (c : Char) : Bool :=
  [10, 11, 12, 13, 28, 29, 30, 133, 8232, 8233].contains c.toNat

/-- The lines of a text; a break at the very end starts no further line. -/
def lines : List Char → List (List Char)
  | [] => []
  | '\r' :: '\n' :: rest => [] :: lines rest
  | c :: rest =>
    if isLineBreak c then [] :: lines rest
    else match lines rest with
      | [] => [[c]]
      | line :: more => (c :: line) :: more

/-- Three quotes inside a block text are written after a backslash. -/
def escapeTriple : List Char → List Char
  | '"' :: '"' :: '"' :: rest => '\\' :: '"' :: '"' :: '"' :: escapeTriple rest
  | c :: rest => c :: escapeTriple rest
  | [] => []

/-- A block text between its triple quotes. The delimiters stand on lines of their own if the text
has several lines, is longer than seventy characters or ends in a quote or a backslash; a single
line that starts with a blank stays on the first line, since a break before it would make the blank
part of the indentation. -/
def block (content : String) : String :=
  let chars := content.toList
  let escaped := escapeTriple chars
  let parts := lines escaped
  let single := parts.length ≤ 1
  let startsBlank := fun (line : List Char) => (line.head?.map isIndent).getD true
  let leading := !single && (parts.drop 1).all startsBlank
  let tripleEnd := ['\\', '"', '"', '"'].isSuffixOf escaped
  let trailing := (['"'].isSuffixOf chars && !tripleEnd) || ['\\'].isSuffixOf chars
  let multiple := !single || 70 < chars.length || trailing || leading || tripleEnd
  let skip := single && (chars.head?.map isIndent).getD false
  let before := if (multiple && !skip) || leading then "\n" else ""
  let after := if multiple || trailing then "\n" else ""
  "\"\"\"" ++ before ++ String.ofList escaped ++ after ++ "\"\"\""

end GraphApi.Quoted
