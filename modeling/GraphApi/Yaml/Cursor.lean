/-!
# Places in a text

A cursor is what is left of a text, together with how far it has come: the characters before it, the
line, and the column. Indentation is a matter of columns, so every reader of the format moves a
cursor.
-/

namespace GraphApi.Yaml

inductive Defect where
  | form
  /-- A scalar is written like a number, a date or a character, but there is no such one. -/
  | range
  /-- A scalar is to be a truth value, but is none of the words for one. -/
  | word
  /-- A scalar is to be a number, but nothing of it is left to be digits. -/
  | digits
  | time
  | kind
  /-- A mapping stands for itself. -/
  | circle
  | size
deriving DecidableEq, Repr

def isBreak (c : Char) : Bool := c == '\n' || c == '\x85' || c == '\u2028' || c == '\u2029'

def isBlank (c : Char) : Bool := c == ' ' || c == '\t'

def endsLine (c : Option Char) : Bool := c.all isBreak

def endsWord (c : Option Char) : Bool := c.all fun c => isBlank c || isBreak c

def endsName (c : Option Char) : Bool := c.all fun c => c == ' ' || isBreak c

def isNameChar (c : Char) : Bool := c.isAlphanum || c == '-' || c == '_'

structure Cursor where
  rest : List Char
  index : Nat := 0
  line : Nat := 0
  column : Nat := 0

namespace Cursor

def peek (cursor : Cursor) : Option Char := cursor.rest.head?

def peekAt (cursor : Cursor) (offset : Nat) : Option Char := cursor.rest[offset]?

def isAt (cursor : Cursor) (c : Char) : Bool := cursor.peek == some c

/-- The next place. A byte order mark has no width. -/
def next (cursor : Cursor) : Cursor :=
  match cursor.rest with
  | [] => cursor
  | c :: rest =>
    if isBreak c then { rest, index := cursor.index + 1, line := cursor.line + 1, column := 0 }
    else
      { rest, index := cursor.index + 1, line := cursor.line,
        column := if c == '\ufeff' then cursor.column else cursor.column + 1 }

def skip (cursor : Cursor) : Nat → Cursor
  | 0 => cursor
  | count + 1 => cursor.next.skip count

def span (cursor : Cursor) (holds : Char → Bool) : List Char × Cursor :=
  let taken := cursor.rest.takeWhile holds
  (taken, cursor.skip taken.length)

def skipSpaces (cursor : Cursor) : Cursor := (cursor.span (· == ' ')).2

/-- The place after spaces that do not reach beyond a column. -/
def skipIndent (cursor : Cursor) (column : Nat) : Cursor :=
  cursor.skip (min (column - cursor.column) (cursor.rest.takeWhile (· == ' ')).length)

def skipComment (cursor : Cursor) : Cursor :=
  if cursor.isAt '#' then (cursor.span fun c => !isBreak c).2 else cursor

/-- A line break at the cursor, and the place after it. All breaks count as the usual one but those
that separate lines and paragraphs of their own. -/
def lineBreak? (cursor : Cursor) : Option (Char × Cursor) :=
  match cursor.peek with
  | some c => if isBreak c then some (if c == '\x85' then '\n' else c, cursor.next) else none
  | none => none

/-- The rest of a line that may hold nothing but a comment, and the place after it. -/
def skipLine (cursor : Cursor) : Except Defect Cursor :=
  let stop := cursor.skipSpaces.skipComment
  if endsLine stop.peek then .ok ((stop.lineBreak?.map (·.2)).getD stop) else .error .form

def isAtMark (cursor : Cursor) (sign : Char) : Bool :=
  cursor.rest.take 3 == [sign, sign, sign] && endsWord (cursor.peekAt 3)

def isAtBound (cursor : Cursor) : Bool := cursor.isAtMark '-' || cursor.isAtMark '.'

end Cursor

/-- Lines that are joined: one break becomes a space, and of several the first one goes. -/
def foldBreaks (first : Char) (others : List Char) : List Char :=
  (if first != '\n' then [first] else if others.isEmpty then [' '] else []) ++ others

end GraphApi.Yaml
