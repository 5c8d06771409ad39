import GraphApi.CommandLine.Style
import GraphApi.Text.Alphanumeric
import GraphApi.Text.Emoji

/-!
# Messages with tags

A message can hold tags in brackets that say how parts of it look, and names of emoji between
colons. Here is what a message comes down to as a plain text: tags are left out, though each closing
one needs an opening one before it, and emoji are put in place of their names.
-/

namespace GraphApi.CommandLine

structure Tag where
  name : String
  parameter : Option String

inductive Piece where
  | text (content : Chars)
  | tag (tag : Tag)

/-! ## Pieces -/

def startsTag (c : Char) : Bool := ('a' ≤ c && c ≤ 'z') || c == '#' || c == '/' || c == '@'

/-- What a bracket encloses if a tag starts here, and what follows it. A tag has no opening bracket
inside. -/
def tagAt? : Chars → Option (Chars × Chars)
  | '[' :: c :: rest =>
    let inside := rest.takeWhile fun c => c != '[' && c != ']'
    match startsTag c, rest.drop inside.length with
    | true, ']' :: after => some (c :: inside, after)
    | _, _ => none
  | _ => none

def Tag.ofText (inside : Chars) : Tag :=
  let name := inside.takeWhile (· != '=')
  { name := String.ofList name
    parameter := if inside.contains '=' then some (String.ofList (inside.drop (name.length + 1)))
    else none }

def textPiece (content : Chars) : List Piece := if content.isEmpty then [] else [.text content]

/-- The pieces of a message after some text. Before a tag two backslashes stand for one, and an odd
one makes the tag a text. -/
def piecesAfter (before : Chars) : Nat → Chars → List Piece
  | 0, message => textPiece (before ++ message)
  | limit + 1, message =>
    let slashes := message.takeWhile (· == '\\')
    let rest := message.drop slashes.length
    match tagAt? rest with
    | some (inside, after) =>
      let piece := if slashes.length % 2 = 1 then Piece.text ('[' :: inside ++ [']'])
        else .tag (.ofText inside)
      textPiece before ++ textPiece (slashes.take (slashes.length / 2)) ++
        piece :: piecesAfter [] limit after
    | none =>
      match rest with
      | c :: after => piecesAfter (before ++ slashes ++ [c]) limit after
      | [] => textPiece (before ++ slashes)

def pieces (message : Chars) : List Piece := piecesAfter [] (message.length + 1) message

/-! ## Emoji -/

/-- The signs that ask for an emoji to be shown as a picture or as a text. -/
def variants : List (String × Char) := [("-emoji", '\ufe0f'), ("-text", '\ufe0e')]

def emojiFor? (name : String) : Option Chars :=
  let found := fun name => (Text.emoji? (Text.lower name)).map String.toList
  match variants.find? fun variant => variant.1.toList.isSuffixOf name.toList with
  | some (ending, sign) =>
    (found (String.ofList (name.toList.take (name.length - ending.length)))).map (· ++ [sign])
  | none => found name

def replaceEmoji : Nat → Chars → Chars
  | 0, text => text
  | _ + 1, [] => []
  | limit + 1, ':' :: rest =>
    let name := rest.takeWhile fun c => c != ':' && !Text.isBlank c
    match rest.drop name.length with
    | ':' :: after =>
      (emojiFor? (String.ofList name)).getD (':' :: name ++ [':']) ++ replaceEmoji limit after
    | _ => ':' :: replaceEmoji limit rest
  | limit + 1, c :: rest => c :: replaceEmoji limit rest

/-! ## Actions -/

def afterNumber? (text : Chars) : Option Chars :=
  let whole := text.takeWhile Char.isDigit
  let rest := text.drop whole.length
  if whole.isEmpty || (whole.head? = some '0' && whole.any (· != '0')) then none
  else
    match rest with
    | '.' :: more => some (more.dropWhile Char.isDigit)
    | _ => some rest

/-- What follows the literal at the start of a text: a number, a text in quotes, a word, or a list
of literals in brackets. -/
def afterLiteral? : Nat → Chars → Option Chars
  | 0, _ => none
  | limit + 1, text =>
    match text.dropWhile Text.isBlank with
    | '(' :: rest => afterItems limit ')' rest
    | '[' :: rest => afterItems limit ']' rest
    | '-' :: rest => afterNumber? rest
    | '\'' :: rest => afterQuoted '\'' rest
    | '"' :: rest => afterQuoted '"' rest
    | other =>
      match ["None", "True", "False"].find? fun word => word.toList.isPrefixOf other with
      | some word => some (other.drop word.length)
      | none => afterNumber? other
where
  afterQuoted (quote : Char) : Chars → Option Chars
    | [] => none
    | '\\' :: _ :: rest => afterQuoted quote rest
    | c :: rest => if c = quote then some rest else if c = '\n' then none
        else afterQuoted quote rest
  afterItems (limit : Nat) (close : Char) (text : Chars) : Option Chars :=
    match limit, text.dropWhile Text.isBlank with
    | 0, _ => none
    | limit + 1, rest =>
      match rest with
      | [] => none
      | c :: after =>
        if c = close then some after
        else
          match (afterLiteral? limit rest).map (·.dropWhile Text.isBlank) with
          | some (',' :: after) => afterItems limit close after
          | some (c :: after) => if c = close then some after else none
          | _ => none

def isLiteral (text : Chars) : Bool :=
  match afterLiteral? (text.length + 1) text with
  | some rest => rest.all Text.isBlank
  | none => false

def isAction (text : String) : Bool :=
  let cs := Text.trim text.toList
  let rest := cs.dropWhile fun c => Text.isAlphanumeric c || c = '_' || c = '.'
  rest.isEmpty || if rest.head? = some '(' && rest.getLast? = some ')' && !rest.contains '\n'
    then isLiteral rest else isLiteral cs

/-! ## Plain text -/

def Tag.normal (tag : Tag) : Except MarkupFault Tag := do
  return { tag with name := ← normalStyle tag.name }

def takeTag? (name : String) : List Tag → Option (Tag × List Tag)
  | [] => none
  | tag :: others =>
    if tag.name = name then some (tag, others) else (takeTag? name others).map fun (found, rest) =>
      (found, tag :: rest)

def closeTag (name : String) (openTags : List Tag) : Except MarkupFault (List Tag) := do
  let found ← if name = "" then pure (match openTags with
      | tag :: others => some (tag, others)
      | [] => none)
    else do pure (takeTag? (← normalStyle name) openTags)
  match found with
  | some (tag, others) =>
    let isAct := tag.name.toList.head? = some '@' && (tag.parameter.getD "") ≠ ""
    if isAct && !isAction (tag.parameter.getD "") then throw .unmatched
    return others
  | none => throw .unmatched

/-- A backslash before a bracket that starts no tag is left out. -/
def dropSlashes : Chars → Chars
  | '\\' :: '[' :: rest => '[' :: dropSlashes rest
  | c :: rest => c :: dropSlashes rest
  | [] => []

def isControl (c : Char) : Bool := [7, 8, 11, 12, 13].contains c.toNat

def plainText (openTags : List Tag) : List Piece → Except MarkupFault Chars
  | [] => .ok []
  | .text content :: rest => do
    let content := dropSlashes content
    return (replaceEmoji content.length content).filter (!isControl ·) ++
      (← plainText openTags rest)
  | .tag tag :: rest => do
    match tag.name.toList with
    | '/' :: name => plainText (← closeTag (String.ofList (Text.trim name)) openTags) rest
    | _ => plainText ((← tag.normal) :: openTags) rest

def plainMessage (message : String) :
    Except MarkupFault Chars := plainText [] (pieces message.toList)

end GraphApi.CommandLine
