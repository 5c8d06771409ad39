import GraphApi.Value.Basic
import GraphApi.Yaml.Scalar

/-!
# Tokens

A text is a sequence of tokens. Indentation is made explicit: a deeper column starts a block, a
lesser one ends blocks. That a node is a key shows only at the colon after it, so each node that can
be one leaves an open slot before it, and the colon fills the slot.
-/

namespace GraphApi.Yaml

inductive Instruction where
  | version (major : Nat)
  | handle (handle start : String)
  | other
deriving DecidableEq, Repr

inductive Token where
  | instruction (content : Instruction)
  | documentStart | documentEnd
  | sequenceStart | mappingStart | blockEnd
  | openBracket | closeBracket | openBrace | closeBrace
  | entry | comma | key | value
  | reference (name : String)
  | anchor (name : String)
  | tag (handle : Option String) (suffix : String)
  | scalar (content : Content) (isPlain : Bool)
deriving DecidableEq, Repr

/-! ## Names, tags and instructions -/

def readName (cursor : Cursor) : Except Defect (String × Cursor) :=
  match cursor.span isNameChar with
  | ([], _) => .error .form
  | (name, stop) => .ok (String.ofList name, stop)

def readAnchor (cursor : Cursor) : Except Defect (String × Cursor) := do
  let (name, stop) ← readName cursor
  if endsWord stop.peek || stop.peek.any "?:,]\x7d%@\x60".toList.contains then return (name, stop)
    else throw .form

def isTagChar (c : Char) : Bool := c.isAlphanum || "-;/?:@&=+$,_.!~*'()[]".toList.contains c

def escapedBytes : Nat → Cursor → Except Defect (List UInt8 × Cursor)
  | 0, cursor => .ok ([], cursor)
  | limit + 1, cursor =>
    if cursor.isAt '%' then
      match cursor.peekAt 1, cursor.peekAt 2 with
      | some high, some low =>
        match hexNumber? [high, low] with
        | some number => do
          let (others, stop) ← escapedBytes limit (cursor.skip 3)
          return (number.toUInt8 :: others, stop)
        | none => .error .form
      | _, _ => .error .form
    else .ok ([], cursor)

def textOfBytes (bytes : List UInt8) : Except Defect (List Char) :=
  match String.fromUTF8? ⟨bytes.toArray⟩ with
  | some text => .ok text.toList
  | none => .error .form

def identifierChars : Nat → Cursor → Except Defect (List Char × Cursor)
  | 0, cursor => .ok ([], cursor)
  | limit + 1, cursor => do
    let (plain, next) := cursor.span isTagChar
    if next.isAt '%' then
      let (bytes, after) ← escapedBytes (next.rest.length + 1) next
      let escaped ← textOfBytes bytes
      let (others, stop) ← identifierChars limit after
      return (plain ++ escaped ++ others, stop)
    else return (plain, next)

def readIdentifier (cursor : Cursor) : Except Defect (String × Cursor) := do
  match ← identifierChars (cursor.rest.length + 1) cursor with
  | ([], _) => throw .form
  | (content, stop) => return (String.ofList content, stop)

/-- The handle of a tag: an exclamation mark, or a name between two of them. -/
def readHandle (cursor : Cursor) : Except Defect (String × Cursor) :=
  if !cursor.isAt '!' then .error .form
  else if cursor.peekAt 1 == some ' ' then .ok ("!", cursor.next)
  else
    let (name, stop) := cursor.next.span isNameChar
    if stop.isAt '!' then .ok (String.ofList ('!' :: name ++ ['!']), stop.next) else .error .form

def hasHandle (cursor : Cursor) : Bool :=
  (cursor.rest.takeWhile fun c => !endsName (some c)).contains '!'

def readTag (cursor : Cursor) : Except Defect (Token × Cursor) := do
  let (token, stop) ←
    if cursor.peekAt 1 == some '<' then do
      let (identifier, after) ← readIdentifier (cursor.skip 2)
      if after.isAt '>' then pure (Token.tag none identifier, after.next) else throw .form
    else if endsWord (cursor.peekAt 1) then pure (.tag none "!", cursor.next)
    else do
      let (handle, after) ← if hasHandle cursor.next then readHandle cursor
        else pure ("!", cursor.next)
      let (suffix, stop) ← readIdentifier after
      pure (.tag (some handle) suffix, stop)
  if endsName stop.peek then return (token, stop) else throw .form

def readNumber (cursor : Cursor) : Except Defect (Nat × Cursor) :=
  match cursor.span Char.isDigit with
  | ([], _) => .error .form
  | (digits, stop) =>
    if digits.length > digitLimit then .error .range else .ok (Binary64.digitsValue digits, stop)

def readInstructionBody (name : String) (cursor : Cursor) :
    Except Defect (Instruction × Cursor) := do
  match name with
  | "YAML" =>
    let (major, point) ← readNumber cursor.skipSpaces
    if !point.isAt '.' then throw .form
    let (_, stop) ← readNumber point.next
    if endsName stop.peek then return (.version major, stop) else throw .form
  | "TAG" =>
    let (handle, gap) ← readHandle cursor.skipSpaces
    if !gap.isAt ' ' then throw .form
    let (start, stop) ← readIdentifier gap.skipSpaces
    if endsName stop.peek then return (.handle handle start, stop) else throw .form
  | _ => return (.other, (cursor.span fun c => !isBreak c).2)

def readInstruction (cursor : Cursor) : Except Defect (Token × Cursor) := do
  let (name, after) ← readName cursor
  if !endsName after.peek then throw .form
  let (content, stop) ← readInstructionBody name after
  return (.instruction content, ← stop.skipLine)

/-! ## Reading a text -/

/-- A node that a colon can still turn into a key. -/
structure OpenKey where
  slot : Nat
  /-- A node at the start of a line of its block has to be a key. -/
  isRequired : Bool
  start : Cursor

/-- A token, or a slot for what turns the next node into a key. -/
inductive Piece where
  | token (token : Token)
  | slot (number : Nat)

/-- How far the reading of a text has come. Columns are counted from one, so that a depth of zero is
outside of all blocks. -/
structure Progress where
  cursor : Cursor
  pieces : List Piece := []
  slots : Nat := 0
  /-- The slots of keys, and whether a mapping starts there. -/
  filled : List (Nat × Bool) := []
  depth : Nat := 0
  outer : List Nat := []
  canBeKey : Bool := true
  /-- The open key of each level of brackets, innermost first. -/
  openKeys : List (Option OpenKey) := [none]

namespace Progress

def inFlow (progress : Progress) : Bool := progress.openKeys.length > 1

def here (progress : Progress) : Nat := progress.cursor.column + 1

def push (progress : Progress) (token : Token) (cursor : Cursor) : Progress :=
  { progress with pieces := .token token :: progress.pieces, cursor }

def keyLimit : Nat := 1024

def isStale (cursor : Cursor) (key : OpenKey) : Bool :=
  key.start.line ≠ cursor.line || cursor.index - key.start.index > keyLimit

def dropStale (progress : Progress) : Except Defect Progress := do
  let openKeys ← progress.openKeys.mapM fun
    | some key =>
      if isStale progress.cursor key then (if key.isRequired then throw .form else pure none)
        else pure (some key)
    | none => pure none
  return { progress with openKeys }

def dropKey (progress : Progress) : Except Defect Progress :=
  match progress.openKeys with
  | some key :: others => if key.isRequired then .error .form
      else .ok { progress with openKeys := none :: others }
  | _ => .ok progress

def openKey (progress : Progress) : Except Defect Progress := do
  if !progress.canBeKey then return progress
  let closed ← progress.dropKey
  let key : OpenKey :=
    { slot := closed.slots, isRequired := !closed.inFlow && closed.depth = closed.here,
      start := closed.cursor }
  return { closed with
    pieces := .slot closed.slots :: closed.pieces, slots := closed.slots + 1
    openKeys := some key :: closed.openKeys.tail }

def unwindTo (depth : Nat) : List Nat → Progress → Progress
  | [], progress => progress
  | outer :: others, progress =>
    if progress.depth > depth then
      unwindTo depth others
        { progress with pieces := .token .blockEnd :: progress.pieces, depth := outer, outer := others }
    else progress

def unwind (progress : Progress) (depth : Nat) : Progress :=
  if progress.inFlow then progress else unwindTo depth progress.outer progress

def deepen (progress : Progress) (depth : Nat) : Progress :=
  { progress with depth, outer := progress.depth :: progress.outer }

def startBlock (progress : Progress) (start : Token) : Progress :=
  if progress.depth < progress.here then (progress.push start progress.cursor).deepen progress.here
    else progress

def bound (progress : Progress) (token : Token) (stop : Cursor) : Except Defect Progress := do
  let closed ← (progress.unwind 0).dropKey
  return { closed.push token stop with canBeKey := false }

def openFlow (progress : Progress) (token : Token) : Except Defect Progress := do
  let opened ← progress.openKey
  return { opened.push token opened.cursor.next with openKeys := none :: opened.openKeys, canBeKey := true }

def closeFlow (progress : Progress) (token : Token) : Except Defect Progress :=
  if progress.inFlow then
    .ok { progress.push token progress.cursor.next with openKeys := progress.openKeys.tail, canBeKey := false }
  else .error .form

def addComma (progress : Progress) : Except Defect Progress := do
  let closed ← progress.dropKey
  return { closed.push .comma closed.cursor.next with canBeKey := true }

/-- Adds the sign of a sequence entry or of an explicit key. Outside of brackets it can start a
block. -/
def addEntry (progress : Progress) (start token : Token) (canBeKey : Bool) :
    Except Defect Progress := do
  if !progress.inFlow && !progress.canBeKey then throw .form
  let started := if progress.inFlow then progress else progress.startBlock start
  let closed ← started.dropKey
  return { closed.push token closed.cursor.next with canBeKey }

def addValue (progress : Progress) : Except Defect Progress := do
  match progress.openKeys with
  | some key :: others =>
    let depth := key.start.column + 1
    let starts := !progress.inFlow && progress.depth < depth
    let filled := { progress with
      filled := (key.slot, starts) :: progress.filled, openKeys := none :: others }
    let deeper := if starts then filled.deepen depth else filled
    return { deeper.push .value deeper.cursor.next with canBeKey := false }
  | _ => progress.addEntry .mappingStart .value (!progress.inFlow)

def addNode (progress : Progress) (read : Cursor → Except Defect (Token × Cursor)) :
    Except Defect Progress := do
  let opened ← progress.openKey
  let (token, stop) ← read opened.cursor
  return { opened.push token stop with canBeKey := false }

def addBlock (progress : Progress) (isFolded : Bool) : Except Defect Progress := do
  let closed ← progress.dropKey
  let (content, stop) ← readBlock isFolded closed.depth closed.cursor.next
  return { closed.push (.scalar { text := content } false) stop with canBeKey := true }

def addPlain (progress : Progress) : Except Defect Progress := do
  let opened ← progress.openKey
  let plain := readPlain opened.inFlow opened.depth opened.cursor
  return { opened.push (.scalar { text := plain.content } true) plain.stop with
    canBeKey := plain.endsLine }

def reserved : List Char := "-?:,[]\x7b\x7d#&*!|>'\"%@\x60".toList

def startsPlain (progress : Progress) (c : Char) : Bool :=
  !(endsWord (some c) || reserved.contains c) ||
    (!endsWord (progress.cursor.peekAt 1) &&
      (c == '-' || (!progress.inFlow && (c == '?' || c == ':'))))

/-- The place of the next token after spaces, comments and line breaks, and whether a key can stand
there. -/
def skipGap (inFlow : Bool) : Nat → Cursor → Bool → Cursor × Bool
  | 0, cursor, canBeKey => (cursor, canBeKey)
  | limit + 1, cursor, canBeKey =>
    let stop := cursor.skipSpaces.skipComment
    match stop.lineBreak? with
    | some (_, after) => skipGap inFlow limit after (canBeKey || !inFlow)
    | none => (stop, canBeKey)

/-- Moves to the next token, and ends the blocks that do not reach there. -/
def advance (progress : Progress) : Except Defect Progress := do
  let start := if progress.cursor.index = 0 && progress.cursor.isAt '\ufeff'
    then progress.cursor.next else progress.cursor
  let (cursor, canBeKey) := skipGap progress.inFlow (start.rest.length + 1) start progress.canBeKey
  let fresh ← dropStale { progress with cursor, canBeKey }
  return fresh.unwind fresh.here

def add (progress : Progress) (c : Char) : Except Defect Progress :=
  let cursor := progress.cursor
  let beforeGap := endsWord (cursor.peekAt 1)
  if c == '%' && cursor.column = 0 then do
    let (token, stop) ← readInstruction cursor.next
    progress.bound token stop
  else if cursor.column = 0 && cursor.isAtMark '-' then progress.bound .documentStart
    (cursor.skip 3)
  else if cursor.column = 0 && cursor.isAtMark '.' then progress.bound .documentEnd (cursor.skip 3)
  else if c == '[' then progress.openFlow .openBracket
  else if c == '\x7b' then progress.openFlow .openBrace
  else if c == ']' then progress.closeFlow .closeBracket
  else if c == '\x7d' then progress.closeFlow .closeBrace
  else if c == ',' then progress.addComma
  else if c == '-' && beforeGap then progress.addEntry .sequenceStart .entry true
  else if c == '?' && (progress.inFlow || beforeGap) then progress.addEntry .mappingStart .key
    (!progress.inFlow)
  else if c == ':' && (progress.inFlow || beforeGap) then progress.addValue
  else if c == '*' then progress.addNode fun cursor => (readAnchor cursor.next).map fun (n, stop) =>
    (.reference n, stop)
  else if c == '&' then progress.addNode fun cursor => (readAnchor cursor.next).map fun (n, stop) =>
    (.anchor n, stop)
  else if c == '!' then progress.addNode readTag
  else if c == '|' && !progress.inFlow then progress.addBlock false
  else if c == '>' && !progress.inFlow then progress.addBlock true
  else if c == '\x27' || c == '\x22' then
    progress.addNode fun cursor => (readQuoted (c == '\x22') cursor).map fun (s, stop) =>
      (.scalar s false, stop)
  else if progress.startsPlain c then progress.addPlain
  else .error .form

/-- The tokens that a piece stands for. A slot that is not filled stands for none. -/
def tokensOf (progress : Progress) : Piece → List Token
  | .token token => [token]
  | .slot number =>
    match progress.filled.lookup number with
    | some true => [.mappingStart, .key]
    | some false => [.key]
    | none => []

def tokens (progress : Progress) : List Token :=
  progress.pieces.reverse.flatMap progress.tokensOf

def isPending (progress : Progress) : Piece → Bool
  | .token _ => false
  | .slot number => progress.openKeys.any fun key => key.any (·.slot == number)

/-- The tokens of what has been read that nothing further on can change: those before the first slot
that can still be filled. -/
def settledTokens (progress : Progress) : List Token :=
  (progress.pieces.reverse.takeWhile fun piece => !progress.isPending piece).flatMap
    progress.tokensOf

/-- One step: adds the next token, or ends the blocks at the end of the text. The flag tells whether
it is the end. -/
def step (progress : Progress) : Except Defect (Progress × Bool) := do
  let ready ← progress.advance
  match ready.cursor.peek with
  | some c => return (← ready.add c, false)
  | none => return (← (ready.unwind 0).dropKey, true)

end Progress

/-- What is read of a text: its tokens, up to the defect that stops the reading if there is one. -/
structure Scan where
  tokens : List Token
  defect : Option Defect := none

def Scan.stopped (progress : Progress) (defect : Defect) : Scan :=
  match progress.dropStale with
  | .ok fresh => { tokens := fresh.settledTokens, defect := some defect }
  | .error stale => { tokens := progress.settledTokens, defect := some stale }

def Scan.finish : Nat → Progress → Scan
  | 0, progress => .stopped progress .form
  | limit + 1, progress =>
    match progress.step with
    | .ok (last, true) => { tokens := last.tokens }
    | .ok (next, false) => finish limit next
    | .error defect => .stopped progress defect

def isPrintable (c : Char) : Bool :=
  c == '\t' || c == '\n' || c == '\r' || (' ' ≤ c && c ≤ '~') || c == '\x85' ||
    ('\xa0' ≤ c && c ≤ '\ufffd') || c.toNat ≥ 0x10000

def Scan.ofText (text : List Char) : Scan :=
  if text.all isPrintable then Scan.finish (text.length + 1) { cursor := { rest := text } }
  else { tokens := [], defect := some .form }

end GraphApi.Yaml
