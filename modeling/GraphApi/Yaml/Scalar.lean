import GraphApi.Yaml.Cursor

/-!
# Scalars

A scalar is written plainly, in quotes, or as an indented block. Each reader starts behind what
announces the scalar, and gives its content and the place after it.
-/

namespace GraphApi.Yaml

structure Content where
  text : String
  /-- Whether all of it is characters. Numbers in quotes can also stand for halves of surrogate
  pairs, which are no characters; the text then has a substitute in their place. -/
  isWhole : Bool := true
deriving DecidableEq, Inhabited, Repr

def Content.ofParts (parts : List (Option Char)) : Content :=
  { text := String.ofList (parts.map (·.getD '\ufffd')), isWhole := parts.all Option.isSome }

/-! ## Quotes -/

/-- The breaks after a break inside quotes. A document cannot end there. -/
def quotedBreaks : Nat → Cursor → Except Defect (List Char × Cursor)
  | 0, cursor => .ok ([], cursor)
  | limit + 1, cursor =>
    if cursor.isAtBound then .error .form
    else
      let start := (cursor.span isBlank).2
      match start.lineBreak? with
      | some (sign, after) => do
        let (others, stop) ← quotedBreaks limit after
        return (sign :: others, stop)
      | none => .ok ([], start)

def escapes : List (Char × Char) :=
  [('0', '\x00'), ('a', '\x07'), ('b', '\x08'), ('t', '\t'), ('\t', '\t'), ('n', '\n'),
   ('v', '\x0b'), ('f', '\x0c'),
   ('r', '\r'), ('e', '\x1b'), (' ', ' '), ('\x22', '\x22'), ('\\', '\\'), ('/', '/'),
   ('N', '\x85'), ('_', '\xa0'), ('L', '\u2028'), ('P', '\u2029')]

def escapeWidth? : Char → Option Nat
  | 'x' => some 2
  | 'u' => some 4
  | 'U' => some 8
  | _ => none

def hexDigit? (c : Char) : Option Nat :=
  if c.isDigit then some (c.toNat - 48)
  else if 'a' ≤ c && c ≤ 'f' then some (c.toNat - 87)
  else if 'A' ≤ c && c ≤ 'F' then some (c.toNat - 55)
  else none

def hexNumber? (digits : List Char) : Option Nat :=
  digits.foldlM (fun number c => (hexDigit? c).map (16 * number + ·)) 0

def greatestCode : Nat := 0x7fffffff

def escapedChar (digits : List Char) (width : Nat) : Except Defect (Option Char) :=
  match hexNumber? digits with
  | some number =>
    if digits.length < width then .error .form
    else if number > greatestCode then .error .size
    else if number > 0x10ffff then .error .range
    else .ok (if Nat.isValidChar number then some (Char.ofNat number) else none)
  | none => .error .form

def readEscape (cursor : Cursor) : Except Defect (List (Option Char) × Cursor) :=
  match cursor.peek with
  | none => .error .form
  | some c =>
    match escapes.lookup c, escapeWidth? c, cursor.lineBreak? with
    | some meant, _, _ => .ok ([some meant], cursor.next)
    | none, some width, _ => do
      let start := cursor.next
      return ([← escapedChar (start.rest.take width) width], start.skip width)
    | none, none, some (_, after) => do
      let (breaks, stop) ← quotedBreaks (after.rest.length + 1) after
      return (breaks.map some, stop)
    | none, none, none => .error .form

def quotedWord (isDouble : Bool) : Nat → Cursor → Except Defect (List (Option Char) × Cursor)
  | 0, cursor => .ok ([], cursor)
  | limit + 1, cursor =>
    match cursor.peek with
    | none => .ok ([], cursor)
    | some c =>
      let go := fun (part : List (Option Char)) (after : Cursor) => do
        let (others, stop) ← quotedWord isDouble limit after
        return (part ++ others, stop)
      if isBlank c || isBreak c || (isDouble && c == '\x22') then .ok ([], cursor)
      else if !isDouble && c == '\x27' then
        if cursor.peekAt 1 == some '\x27' then go [some c] (cursor.skip 2) else .ok ([], cursor)
      else if isDouble && c == '\\' then do
        let (part, after) ← readEscape cursor.next
        go part after
      else go [some c] cursor.next

def quotedGap (cursor : Cursor) : Except Defect (List Char × Cursor) :=
  let (blanks, start) := cursor.span isBlank
  match start.peek, start.lineBreak? with
  | none, _ => .error .form
  | some _, some (sign, after) => do
    let (others, stop) ← quotedBreaks (after.rest.length + 1) after
    return (foldBreaks sign others, stop)
  | some _, none => .ok (blanks, start)

def quotedRest (isDouble : Bool) : Nat → Cursor → Except Defect (List (Option Char) × Cursor)
  | 0, _ => .error .form
  | limit + 1, cursor => do
    let (content, after) ← quotedWord isDouble (cursor.rest.length + 1) cursor
    if after.isAt (if isDouble then '\x22' else '\x27') then return (content, after.next)
    else
      let (gap, start) ← quotedGap after
      let (others, stop) ← quotedRest isDouble limit start
      return (content ++ gap.map some ++ others, stop)

def readQuoted (isDouble : Bool) (cursor : Cursor) : Except Defect (Content × Cursor) := do
  let (parts, stop) ← quotedRest isDouble (cursor.rest.length + 1) cursor.next
  return (.ofParts parts, stop)

/-! ## Plain scalars -/

def isFlowSign (c : Char) : Bool := c == ',' || c == '[' || c == ']' || c == '\x7b' || c == '\x7d'

/-- A word of a plain scalar. A colon ends it if a value follows. -/
def plainWord (inFlow : Bool) : List Char → List Char
  | [] => []
  | c :: rest =>
    let isValueSign := c == ':' && (endsWord rest.head? || (inFlow && rest.head?.any isFlowSign))
    if isBlank c || isBreak c || isValueSign || (inFlow && (isFlowSign c || c == '?')) then []
    else c :: plainWord inFlow rest

/-- The breaks and spaces after a break in a plain scalar; none if a document is bounded there. -/
def plainBreaks : Nat → Cursor → Option (List Char) × Cursor
  | 0, cursor => (some [], cursor)
  | limit + 1, cursor =>
    if cursor.isAt ' ' then plainBreaks limit cursor.next
    else
      match cursor.lineBreak? with
      | some (sign, after) =>
        if after.isAtBound then (none, after)
        else
          let (others, stop) := plainBreaks limit after
          (others.map (sign :: ·), stop)
      | none => (some [], cursor)

def plainGap (cursor : Cursor) : Option (List Char) × Cursor :=
  let (spaces, start) := cursor.span (· == ' ')
  match start.lineBreak? with
  | some (sign, after) =>
    if after.isAtBound then (none, after)
    else
      let (others, stop) := plainBreaks (after.rest.length + 1) after
      (others.map (foldBreaks sign), stop)
  | none => (if spaces.isEmpty then none else some spaces, start)

def plainWords (inFlow : Bool) (column : Nat) : Nat → Cursor → List Char × Nat × Cursor
  | 0, cursor => ([], cursor.line, cursor)
  | limit + 1, cursor =>
    let word := if cursor.isAt '#' then [] else plainWord inFlow cursor.rest
    match word, plainGap (cursor.skip word.length) with
    | [], _ => ([], cursor.line, cursor)
    | _, (none, stop) => (word, cursor.line, stop)
    | _, (some gap, start) =>
      if start.isAt '#' || (!inFlow && start.column < column) then (word, cursor.line, start)
      else
        match plainWords inFlow column limit start with
        | ([], _, stop) => (word, cursor.line, stop)
        | (others, line, stop) => (word ++ gap ++ others, line, stop)

structure Plain where
  content : String
  /-- Whether the lines go on after the last word, so that a key can follow. -/
  endsLine : Bool
  stop : Cursor

def readPlain (inFlow : Bool) (column : Nat) (cursor : Cursor) : Plain :=
  let (content, line, stop) := plainWords inFlow column (cursor.rest.length + 1) cursor
  { content := String.ofList content, endsLine := stop.line ≠ line, stop }

/-! ## Blocks -/

inductive Chomping where
  | strip | clip | keep
deriving DecidableEq, Repr

def chomping? : Option Char → Option Chomping
  | some '+' => some .keep
  | some '-' => some .strip
  | _ => none

def indentation? (c : Option Char) : Except Defect (Option Nat) :=
  match c with
  | some c => if c == '0' then .error .form
      else .ok (if c.isDigit then some (c.toNat - 48) else none)
  | none => .ok none

def blockSigns (cursor : Cursor) : Except Defect (Chomping × Option Nat × Cursor) := do
  let (chomping, indentation, stop) ← match chomping? cursor.peek with
    | some chomping =>
      match ← indentation? cursor.next.peek with
      | some width => pure (chomping, some width, cursor.skip 2)
      | none => pure (chomping, none, cursor.next)
    | none =>
      match ← indentation? cursor.peek with
      | some width =>
        match chomping? cursor.next.peek with
        | some chomping => pure (chomping, some width, cursor.skip 2)
        | none => pure (.clip, some width, cursor.next)
      | none => pure (.clip, none, cursor)
  if endsName stop.peek then return (chomping, indentation, stop) else throw .form

def leadingBreaks : Nat → Cursor → Nat → List Char × Nat × Cursor
  | 0, cursor, furthest => ([], furthest, cursor)
  | limit + 1, cursor, furthest =>
    if cursor.isAt ' ' then leadingBreaks limit cursor.next (max furthest cursor.next.column)
    else
      match cursor.lineBreak? with
      | some (sign, after) =>
        let (others, reached, stop) := leadingBreaks limit after furthest
        (sign :: others, reached, stop)
      | none => ([], furthest, cursor)

def blockBreaks (column : Nat) : Nat → Cursor → List Char × Cursor
  | 0, cursor => ([], cursor)
  | limit + 1, cursor =>
    let start := cursor.skipIndent column
    match start.lineBreak? with
    | some (sign, after) =>
      let (others, stop) := blockBreaks column limit after
      (sign :: others, stop)
    | none => ([], start)

/-- How a block ends: the break after its last line, and the breaks that follow. -/
structure BlockEnd where
  last : List Char
  others : List Char

def blockLines (isFolded : Bool) (column : Nat) :
    Nat → List Char → Cursor → List Char × BlockEnd × Cursor
  | 0, before, cursor => ([], { last := [], others := before }, cursor)
  | limit + 1, before, cursor =>
    if cursor.column ≠ column || cursor.peek.isNone
      then ([], { last := [], others := before }, cursor)
    else
      let (line, lineEnd) := cursor.span fun c => !isBreak c
      let (last, after) := match lineEnd.lineBreak? with
        | some (sign, after) => ([sign], after)
        | none => ([], lineEnd)
      let (others, start) := blockBreaks column (after.rest.length + 1) after
      if start.column = column && start.peek.isSome then
        let joins := isFolded && last == ['\n'] && !cursor.peek.any isBlank &&
          !start.peek.any isBlank
        let between := if joins then (if others.isEmpty then [' '] else []) else last
        let (more, ending, stop) := blockLines isFolded column limit others start
        (before ++ line ++ between ++ more, ending, stop)
      else (before ++ line, { last, others }, start)

def readBlock (isFolded : Bool) (depth : Nat) (cursor : Cursor) :
    Except Defect (String × Cursor) := do
  let (chomping, indentation, signsEnd) ← blockSigns cursor
  let start ← signsEnd.skipLine
  let least := max depth 1
  let limit := start.rest.length + 1
  let (breaks, column, first) := match indentation with
    | some width =>
      let column := least + width - 1
      let (breaks, first) := blockBreaks column limit start
      (breaks, column, first)
    | none =>
      let (breaks, furthest, first) := leadingBreaks limit start 0
      (breaks, max least furthest, first)
  let (content, ending, stop) := blockLines isFolded column limit breaks first
  let tail := match chomping with
    | .strip => []
    | .clip => ending.last
    | .keep => ending.last ++ ending.others
  return (String.ofList (content ++ tail), stop)

end GraphApi.Yaml
