import GraphApi.Document.Quoted

/-!
# Tokens of a document

Commas, blanks, line breaks, a byte order mark and comments separate tokens and are dropped. Numbers
keep their spelling, string tokens hold the text they stand for.
-/

namespace GraphApi

inductive Malformed where
  | character
  | number
  | text
  | token
deriving DecidableEq, Repr

inductive Token where
  | mark (c : Char)
  | ellipsis
  | word (name : String)
  | int (digits : String)
  | float (digits : String)
  | text (content : String) (block : Bool)
deriving DecidableEq, Repr

namespace Token

def startsName (c : Char) : Bool :=
  c.isAlpha || c = '_'

def continuesName (c : Char) : Bool :=
  c.isAlphanum || c = '_'

def isMark (c : Char) : Bool :=
  ['!', '$', '&', '(', ')', ':', '=', '@', '[', ']', '\x7b', '|', '\x7d'].contains c

def digits (cs : List Char) : Except Malformed (List Char × List Char) :=
  match cs.span Char.isDigit with
  | ([], _) => .error .number
  | (run, rest) => .ok (run, rest)

/-- The whole part of a number: a zero alone or a run of digits. -/
def wholePart : List Char → Except Malformed (List Char × List Char)
  | '0' :: rest =>
    if (rest.head?.map Char.isDigit).getD false then .error .number else .ok (['0'], rest)
  | cs => digits cs

def fraction : List Char → Except Malformed (List Char × List Char)
  | '.' :: rest => do
    let (run, rest) ← digits rest
    return ('.' :: run, rest)
  | cs => .ok ([], cs)

def exponent (cs : List Char) : Except Malformed (List Char × List Char) :=
  match cs with
  | e :: rest =>
    if e = 'e' ∨ e = 'E' then do
      let (sign, rest) := match rest with
        | '+' :: more => (['+'], more)
        | '-' :: more => (['-'], more)
        | _ => ([], rest)
      let (run, rest) ← digits rest
      return (e :: sign ++ run, rest)
    else .ok ([], cs)
  | [] => .ok ([], cs)

/-- A number; a name or a point may not follow it at once. -/
def number (cs : List Char) : Except Malformed (Token × List Char) := do
  let (sign, rest) := match cs with
    | '-' :: rest => (['-'], rest)
    | _ => ([], cs)
  let (whole, rest) ← wholePart rest
  let (part, rest) ← fraction rest
  let (power, rest) ← exponent rest
  if (rest.head?.map fun c => c = '.' || startsName c).getD false then throw .number
  let spelling := String.ofList (sign ++ whole ++ part ++ power)
  return (if part.isEmpty && power.isEmpty then .int spelling else .float spelling, rest)

def scalar? (n : Nat) : Option Char :=
  if n < 0xD800 ∨ (0xE000 ≤ n ∧ n ≤ 0x10FFFF) then some (Char.ofNat n) else none

def surrogatePair? (high low : Nat) : Option Char :=
  if 0xD800 ≤ high ∧ high < 0xDC00 ∧ 0xDC00 ≤ low ∧ low < 0xE000 then
    some (Char.ofNat (0x10000 + (high - 0xD800) * 0x400 + (low - 0xDC00)))
  else none

def simpleEscape? (c : Char) : Option Char :=
  [('"', '"'), ('\\', '\\'), ('/', '/'), ('b', '\x08'), ('f', '\x0c'), ('n', '\n'), ('r', '\r'),
   ('t', '\t')].lookup c

/-- A character written by its code point; what is read starts after the backslash and the `u`. -/
def unicodeEscape (cs : List Char) : Except Malformed (Char × List Char) :=
  match cs with
  | '\x7b' :: rest =>
    let run := rest.takeWhile (· ≠ '\x7d')
    match rest.drop run.length with
    | _ :: after =>
      if run.isEmpty || 8 < run.length then .error .text
      else match Quoted.hexNumber? run with
        | some n => match scalar? n with
          | some c => .ok (c, after)
          | none => .error .text
        | none => .error .text
    | [] => .error .text
  | a :: b :: c :: d :: rest =>
    match Quoted.hexNumber? [a, b, c, d] with
    | none => .error .text
    | some n => match scalar? n with
      | some char => .ok (char, rest)
      | none => match rest with
        | '\\' :: 'u' :: e :: f :: g :: h :: after =>
          match (Quoted.hexNumber? [e, f, g, h]).bind (surrogatePair? n) with
          | some char => .ok (char, after)
          | none => .error .text
        | _ => .error .text
  | _ => .error .text

/-- The rest of a plain text after its opening quote. The fuel is at least the number of characters
left. -/
def plainText : Nat → List Char → List Char → Except Malformed (String × List Char)
  | 0, _, _ => .error .text
  | fuel + 1, cs, read =>
    match cs with
    | '"' :: rest => .ok (String.ofList read.reverse, rest)
    | '\\' :: 'u' :: rest => do
      let (c, rest) ← unicodeEscape rest
      plainText fuel rest (c :: read)
    | '\\' :: c :: rest =>
      match simpleEscape? c with
      | some char => plainText fuel rest (char :: read)
      | none => .error .text
    | c :: rest => if c = '\n' ∨ c = '\r' ∨ c = '\\' then .error .text
      else plainText fuel rest (c :: read)
    | [] => .error .text

def blockText : List Char → List Char → List (List Char) →
    Except Malformed (List (List Char) × List Char)
  | '"' :: '"' :: '"' :: rest, line, lines => .ok ((line.reverse :: lines).reverse, rest)
  | '\\' :: '"' :: '"' :: '"' :: rest, line, lines =>
    blockText rest ('"' :: '"' :: '"' :: line) lines
  | '\r' :: '\n' :: rest, line, lines => blockText rest [] (line.reverse :: lines)
  | c :: rest, line, lines =>
    if c = '\n' ∨ c = '\r' then blockText rest [] (line.reverse :: lines)
      else blockText rest (c :: line) lines
  | [], _, _ => .error .text

def isSeparator (c : Char) : Bool :=
  [' ', '\t', ',', '\n', '\r', '\ufeff'].contains c

/-- The tokens of a text. The fuel is more than the number of characters left. -/
def scan : Nat → List Char → Except Malformed (List Token)
  | 0, _ => .error .character
  | fuel + 1, cs =>
    match cs with
    | [] => .ok []
    | '"' :: '"' :: '"' :: rest => do
      let (lines, rest) ← blockText rest [] []
      return .text (Quoted.blockContent lines) true :: (← scan fuel rest)
    | '"' :: rest => do
      let (content, rest) ← plainText fuel rest []
      return .text content false :: (← scan fuel rest)
    | '#' :: rest => scan fuel (rest.dropWhile fun c => c ≠ '\n' && c ≠ '\r')
    | '.' :: '.' :: '.' :: rest => return .ellipsis :: (← scan fuel rest)
    | c :: rest =>
      if isSeparator c then scan fuel rest
      else if isMark c then return .mark c :: (← scan fuel rest)
      else if startsName c then
        let (name, rest) := cs.span continuesName
        return .word (String.ofList name) :: (← scan fuel rest)
      else if c.isDigit || c = '-' then do
        let (token, rest) ← number cs
        return token :: (← scan fuel rest)
      else .error .character

def ofText (text : String) : Except Malformed (List Token) :=
  let cs := text.toList
  scan (cs.length + 1) cs

end Token

end GraphApi
