import GraphApi.Value.Basic
import GraphApi.Document.Token

/-!
# Values as JSON

Numbers with a point or an exponent are read as doubles, all others as integers of any size. Of
several entries under one name the last one counts. Written objects keep the order of their entries.
-/

namespace GraphApi.Json

def isBlank (c : Char) : Bool :=
  c = ' ' || c = '\t' || c = '\n' || c = '\r'

def skip (cs : List Char) : List Char :=
  cs.dropWhile isBlank

/-- The characters behind a backslash and a `u`: four digits, or two groups of four for a surrogate
pair. A lone surrogate is read as the replacement character. -/
def unicodeEscape? (cs : List Char) : Option (Char × List Char) :=
  match cs with
  | a :: b :: c :: d :: rest =>
    match Quoted.hexNumber? [a, b, c, d] with
    | none => none
    | some n => match Token.scalar? n with
      | some char => some (char, rest)
      | none => match rest with
        | '\\' :: 'u' :: e :: f :: g :: h :: after =>
          match (Quoted.hexNumber? [e, f, g, h]).bind (Token.surrogatePair? n) with
          | some char => some (char, after)
          | none => some ('�', rest)
        | _ => some ('�', rest)
  | _ => none

def readText : Nat → List Char → List Char → Option (String × List Char)
  | 0, _, _ => none
  | fuel + 1, cs, read =>
    match cs with
    | '"' :: rest => some (String.ofList read.reverse, rest)
    | '\\' :: 'u' :: rest =>
      match unicodeEscape? rest with
      | some (c, rest) => readText fuel rest (c :: read)
      | none => none
    | '\\' :: c :: rest =>
      match Token.simpleEscape? c with
      | some char => readText fuel rest (char :: read)
      | none => none
    | c :: rest => if c.toNat < 32 ∨ c = '\\' then none else readText fuel rest (c :: read)
    | [] => none

inductive Defect where
  | form
  | longNumber
deriving DecidableEq, Repr

def readNumber (cs : List Char) : Except Defect (Value × List Char) :=
  let (sign, rest) := match cs with
    | '-' :: rest => (['-'], rest)
    | _ => ([], cs)
  let (whole, rest) := match rest with
    | '0' :: more => (['0'], more)
    | _ => rest.span Char.isDigit
  if whole.isEmpty then .error .form
  else
    let (part, rest) := match rest with
      | '.' :: more =>
        let (run, after) := more.span Char.isDigit
        if run.isEmpty then ([], rest) else ('.' :: run, after)
      | _ => ([], rest)
    let (power, rest) := match rest with
      | e :: more =>
        if e = 'e' ∨ e = 'E' then
          let (mark, after) := match more with
            | '+' :: after => (['+'], after)
            | '-' :: after => (['-'], after)
            | _ => ([], more)
          let (run, after) := after.span Char.isDigit
          if run.isEmpty then ([], rest) else ('e' :: mark ++ run, after)
        else ([], rest)
      | [] => ([], rest)
    if part.isEmpty && power.isEmpty then
      let size : Int := Binary64.digitsValue whole
      if whole.length ≤ digitLimit then .ok (.int (if sign.isEmpty then size else -size), rest)
      else .error .longNumber
    else
      match Binary64.ofDecimalText? (sign ++ whole ++ part ++ power) with
      | some x => .ok (.float x, rest)
      | none => .error .form

def dropStart? (start : List Char) (cs : List Char) : Option (List Char) :=
  if start.isPrefixOf cs then some (cs.drop start.length) else none

mutual

/-- A value and what follows it. Each step consumes a character, so the fuel of the text's length
suffices. -/
def readValue : Nat → List Char → Except Defect (Value × List Char)
  | 0, _ => .error .form
  | fuel + 1, cs =>
    match cs with
    | '"' :: rest =>
      match readText fuel rest [] with
      | some (content, rest) => .ok (.text content, rest)
      | none => .error .form
    | '[' :: rest =>
      match skip rest with
      | ']' :: after => .ok (.list [], after)
      | more => do
        let (items, rest) ← readItems fuel more
        return (.list items, rest)
    | '\x7b' :: rest =>
      match skip rest with
      | '\x7d' :: after => .ok (.object [], after)
      | more => do
        let (entries, rest) ← readEntries fuel more []
        return (.object entries, rest)
    | 'n' :: 'u' :: 'l' :: 'l' :: rest => .ok (.null, rest)
    | 't' :: 'r' :: 'u' :: 'e' :: rest => .ok (.bool true, rest)
    | 'f' :: 'a' :: 'l' :: 's' :: 'e' :: rest => .ok (.bool false, rest)
    | 'N' :: 'a' :: 'N' :: rest => .ok (.float .nan, rest)
    | _ =>
      match dropStart? "Infinity".toList cs with
      | some rest => .ok (.float (.infinite false), rest)
      | none => match dropStart? "-Infinity".toList cs with
        | some rest => .ok (.float (.infinite true), rest)
        | none => readNumber cs

def readItems : Nat → List Char → Except Defect (List Value × List Char)
  | 0, _ => .error .form
  | fuel + 1, cs => do
    let (first, rest) ← readValue fuel cs
    match skip rest with
    | ']' :: after => return ([first], after)
    | ',' :: more =>
      let (items, rest) ← readItems fuel (skip more)
      return (first :: items, rest)
    | _ => .error .form

def readEntries : Nat → List Char → NameMap Value → Except Defect (NameMap Value × List Char)
  | 0, _, _ => .error .form
  | fuel + 1, cs, read =>
    match cs with
    | '"' :: rest =>
      match readText fuel rest [] with
      | none => .error .form
      | some (name, rest) =>
        match skip rest with
        | ':' :: more => do
          let (value, rest) ← readValue fuel (skip more)
          match skip rest with
          | '\x7d' :: after => return (read.insert name value, after)
          | ',' :: more => readEntries fuel (skip more) (read.insert name value)
          | _ => .error .form
        | _ => .error .form
    | _ => .error .form

end

def parse (text : String) : Except Defect Value := do
  let cs := skip text.toList
  let (value, rest) ← readValue (cs.length + 1) cs
  if (skip rest).isEmpty then return value else .error .form

/-! ## Writing -/

def layout : Binary64.Layout :=
  { Binary64.layout with infinity := "Infinity", undefined := "NaN" }

def escape (c : Char) : List Char :=
  match Quoted.shortEscapes.lookup c.toNat with
  | some sign => ['\\', sign]
  | none =>
    if c.toNat < 32 then
      ['\\', 'u', '0', '0', (Quoted.hexDigit (c.toNat / 16)).toLower,
        (Quoted.hexDigit (c.toNat % 16)).toLower]
    else [c]

def quoted (content : String) : String :=
  "\"" ++ String.ofList (content.toList.flatMap escape) ++ "\""

def lineBreak (indent : Option Nat) (level : Nat) : String :=
  match indent with
  | some width => "\n" ++ String.ofList (List.replicate (width * level) ' ')
  | none => ""

def bracketed (indent : Option Nat) (level : Nat) (opening close : String) (parts : List String) :
    String :=
  if parts.isEmpty then opening ++ close
  else
    let separator := match indent with
      | some _ => "," ++ lineBreak indent (level + 1)
      | none => ", "
    opening ++ lineBreak indent (level + 1) ++ separator.intercalate parts ++
      lineBreak indent level ++ close

mutual

def render (indent : Option Nat) (level : Nat) : Value → String
  | .null => "null"
  | .bool true => "true"
  | .bool false => "false"
  | .int n => toString n
  | .float x => x.render layout
  | .text content => quoted content
  | .list items => bracketed indent level "[" "]" (renderItems indent (level + 1) items)
  | .object entries => bracketed indent level "\x7b" "\x7d"
    (renderEntries indent (level + 1) entries)

def renderItems (indent : Option Nat) (level : Nat) : List Value → List String
  | [] => []
  | item :: rest => render indent level item :: renderItems indent level rest

def renderEntries (indent : Option Nat) (level : Nat) : Entries → List String
  | [] => []
  | (name, value) :: rest =>
    (quoted name ++ ": " ++ render indent level value) :: renderEntries indent level rest

end

def compact (value : Value) : String :=
  render none 0 value

def pretty (value : Value) : String :=
  render (some 2) 0 value

end GraphApi.Json
