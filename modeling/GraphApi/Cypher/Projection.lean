import GraphApi.Cypher.Clause
import GraphApi.Fault

/-!
# Projections of `WITH` clauses

Adding a projection to a `WITH` clause, and threading a variable through the `WITH` clauses of a
statement so that it can be reached after it.
-/

namespace GraphApi.Cypher

def commaParts : Chars → List Chars
  | [] => [[]]
  | c :: rest =>
    match commaParts rest with
    | [] => [[c]]
    | first :: others => if c = ',' then [] :: first :: others else (c :: first) :: others

def projects (projections projection : Chars) : Bool :=
  (commaParts projections).any fun part => Text.trim part == projection

def distinctWord : Chars := "DISTINCT".toList

/-- Whether the word that removes repeated rows stands in front. A ligature in it counts for two
capitals, and if the word is all there is, the character after it is then looked for beyond the
end. -/
def startsDistinct (projections : Chars) : Except Fault Bool :=
  if Text.upperChars (projections.take 8) != distinctWord then .ok false
  else if projections.length = 8 then .ok true
  else match projections[8]? with
    | some next => .ok !Text.isAlphanumeric next
    | none => .error .shortText

/-- A list of projections with one more: after a star, else in front. -/
def addToProjections (projections projection : Chars) : Chars :=
  match projections with
  | [] => projection
  | '*' :: rest =>
    let others := Text.trimStart rest
    match others with
    | [] => '*' :: ',' :: ' ' :: projection
    | ',' :: _ => '*' :: ',' :: ' ' :: (projection ++ others)
    | _ => '*' :: ',' :: ' ' :: (projection ++ ' ' :: others)
  | _ => projection ++ ',' :: ' ' :: projections

def withStart : Chars := "WITH ".toList

/-- A clause with one more projection, if it is not there yet. -/
def extendClause (isDistinct : Bool) (clause projection : Chars) : Chars :=
  let stripped := Text.trimEnd clause
  let whole := Text.trim (stripped.drop 4)
  let distinct := if isDistinct then whole.take 8 ++ [' '] else []
  let projections := if isDistinct then Text.trimStart (whole.drop 8) else whole
  if projects projections projection then clause
  else withStart ++ distinct ++ addToProjections projections projection ++
    clause.drop stripped.length

def addProjection (clause projection : Chars) : Except Fault Chars := do
  let isDistinct ← startsDistinct (Text.trim ((Text.trimEnd clause).drop 4))
  return extendClause isDistinct clause projection

/-! ## Threading a variable -/

/-- The `WITH` clauses that bring a variable in and that hand it on, by place. -/
structure Thread where
  importAt : Option Nat
  exportAt : Option Nat
deriving DecidableEq, Repr

/-- With several `WITH` clauses the first imports and the last exports. A single one imports if the
statement starts with it and exports otherwise. -/
def threadOf : List Nat → Thread
  | [] => ⟨none, none⟩
  | [place] => if place = 0 then ⟨some place, none⟩ else ⟨none, some place⟩
  | first :: second :: rest => ⟨some first, some ((second :: rest).getLast (by simp))⟩

def Statement.thread (statement : Statement) : Thread :=
  threadOf (statement.placesOf .projecting)

def exportProjection (name : Chars) : Chars :=
  name ++ " AS _".toList ++ name

def Statement.textAt (statement : Statement) (place : Nat) : Chars :=
  (statement.clauses[place]?.map (·.text)).getD []

/-- The changed texts of the clauses that import and export a variable, by place. -/
def Statement.threaded (statement : Statement) (thread : Thread) (name : Chars) :
    Except Fault (Nat → Option Chars) := do
  let imported ← thread.importAt.mapM fun place => addProjection (statement.textAt place) name
  let exported ← thread.exportAt.mapM fun place =>
    addProjection (statement.textAt place) (exportProjection name)
  return fun place =>
    if thread.exportAt = some place then exported
      else if thread.importAt = some place then imported else none

def needsExport (statement : Chars) (hasNested : Bool) : Bool :=
  hasNested && (split statement).thread.exportAt.isNone

/-- A statement with changed clauses, and with a clause that hands the variable on where none
does. -/
def renderThread (statement name : Chars) (hasNested : Bool) (changed : Nat → Option Chars) :
    Chars :=
  let threaded := (split statement).render changed
  if needsExport statement hasNested then
    Text.trimEnd threaded ++ "\nWITH *, ".toList ++ exportProjection name
  else threaded

def threadName (statement name : Chars) (hasNested : Bool) : Except Fault Chars := do
  let parsed := split statement
  return renderThread statement name hasNested (← parsed.threaded parsed.thread name)

/-- Puts nested blocks before the final `RETURN` of a statement. A statement that ends otherwise has
no place for them. -/
def insertBlocks? (statement blocks : Chars) : Option Chars :=
  match (split statement).clauses.getLast? with
  | some clause =>
    if clause.keyword = .returning then
      some (Text.trimEnd (statement.take clause.start) ++ "\nWITH *".toList ++ blocks ++
        '\n' :: Text.trim clause.text)
    else none
  | none => none

end GraphApi.Cypher
