import GraphApi.Cypher.Piece
import GraphApi.Text.Case

/-!
# Clauses of a statement

A clause starts with a keyword outside all brackets and reaches to the next one. Some keywords go on
with a clause after certain words: `STARTS WITH` compares texts and `DETACH DELETE` is one clause.
The preamble and the clauses put together are the statement again.
-/

namespace GraphApi.Cypher

inductive Keyword where
  | call | create | delete | detach | forEach | load | matching | merge | optional | remove | returning | setting
  | unite | unwind | projecting
deriving DecidableEq, Repr

def Keyword.word : Keyword → String
  | .call => "CALL"
  | .create => "CREATE"
  | .delete => "DELETE"
  | .detach => "DETACH"
  | .forEach => "FOREACH"
  | .load => "LOAD"
  | .matching => "MATCH"
  | .merge => "MERGE"
  | .optional => "OPTIONAL"
  | .remove => "REMOVE"
  | .returning => "RETURN"
  | .setting => "SET"
  | .unite => "UNION"
  | .unwind => "UNWIND"
  | .projecting => "WITH"

def Keyword.all : List Keyword :=
  [.call, .create, .delete, .detach, .forEach, .load, .matching, .merge, .optional, .remove,
   .returning, .setting, .unite, .unwind, .projecting]

def Keyword.ofCapitals? (capitals : Chars) : Option Keyword :=
  Keyword.all.find? fun keyword => keyword.word.toList == capitals

def Keyword.continuedAfter : Keyword → List String
  | .create => ["ON"]
  | .delete => ["DETACH"]
  | .matching => ["ON", "OPTIONAL"]
  | .projecting => ["STARTS", "ENDS", "CSV"]
  | _ => []

/-- Whether a keyword goes on with a clause after a word in capitals. -/
def Keyword.continues (keyword : Keyword) (previous : Chars) : Bool :=
  keyword.continuedAfter.any fun word => word.toList == previous

def Word.starts? (word : Word) (previous : Chars) : Option Keyword :=
  if word.depth = 0 then
    (Keyword.ofCapitals? (Text.upperChars word.text)).filter fun keyword =>
      !keyword.continues previous
  else none

def startsFrom (previous : Chars) : List Word → List (Nat × Keyword)
  | [] => []
  | word :: rest =>
    let others := startsFrom (Text.upperChars word.text) rest
    match word.starts? previous with
    | some keyword => (word.offset, keyword) :: others
    | none => others

/-- A clause: its keyword, where it starts, and its text. -/
structure Clause where
  keyword : Keyword
  start : Nat
  text : Chars
deriving DecidableEq, Repr

def Clause.stop (clause : Clause) : Nat := clause.start + clause.text.length

/-- A clause without its keyword and the blanks around the rest. -/
def Clause.body (clause : Clause) : Chars :=
  Text.trim (clause.text.drop clause.keyword.word.length)

/-- A statement as the text before its first clause and its clauses. -/
structure Statement where
  preamble : Chars
  clauses : List Clause
deriving DecidableEq, Repr

def cutAt (text : Chars) : List (Nat × Keyword) → List Clause
  | [] => []
  | [(start, keyword)] => [{ keyword, start, text }]
  | (start, keyword) :: (next, following) :: rest =>
    { keyword, start, text := text.take (next - start) } ::
      cutAt (text.drop (next - start)) ((next, following) :: rest)

def starts (statement : Chars) : List (Nat × Keyword) :=
  startsFrom [] (words statement)

def split (statement : Chars) : Statement :=
  match starts statement with
  | [] => { preamble := statement, clauses := [] }
  | (first, keyword) :: rest =>
    { preamble := statement.take first,
      clauses := cutAt (statement.drop first) ((first, keyword) :: rest) }

def renderFrom (replacement : Nat → Option Chars) (place : Nat) : List Clause → Chars
  | [] => []
  | clause :: rest => (replacement place).getD clause.text ++
    renderFrom replacement (place + 1) rest

/-- Puts a statement together again, with other texts for some of its clauses. -/
def Statement.render (statement : Statement) (replacement : Nat → Option Chars) : Chars :=
  statement.preamble ++ renderFrom replacement 0 statement.clauses

def placesFrom (keyword : Keyword) (place : Nat) : List Clause → List Nat
  | [] => []
  | clause :: rest =>
    let others := placesFrom keyword (place + 1) rest
    if clause.keyword = keyword then place :: others else others

def Statement.placesOf (statement : Statement) (keyword : Keyword) : List Nat :=
  placesFrom keyword 0 statement.clauses

/-! ## Clauses that unwind a parameter -/

def afterBlanks (continues : Chars → Bool) : Chars → Bool
  | [] => false
  | c :: rest => Text.isBlank c && (continues rest || afterBlanks continues rest)

def afterWord (word : Chars) (continues : Chars → Bool) (text : Chars) : Bool :=
  match Text.dropLetters? word text with
  | some rest => continues rest
  | none => false

def endsWord (before after : Option Char) : Bool :=
  (before.map isNameChar).getD false != (after.map isNameChar).getD false

/-- Whether a text starts with a name that ends there. It stands after a blank. -/
def startsWithName (name : Chars) (text : Chars) : Bool :=
  match Text.dropLetters? name text with
  | some rest => endsWord ((text.take name.length).getLast?.or (some ' ')) rest.head?
  | none => false

def Clause.unwinds (clause : Clause) (parameter name : Chars) : Bool :=
  afterWord Keyword.unwind.word.toList
    (afterBlanks (afterWord ('$' :: parameter)
      (afterBlanks (afterWord ['A', 'S'] (afterBlanks (startsWithName name)))))) clause.text

def unwinds (statement parameter name : Chars) : Bool :=
  (split statement).clauses.any fun clause => clause.keyword = .unwind &&
    clause.unwinds parameter name

end GraphApi.Cypher
