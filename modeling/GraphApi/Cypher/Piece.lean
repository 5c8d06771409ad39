import GraphApi.Text.Alphanumeric

/-!
# Pieces of a statement

A statement is cut into pieces: quoted texts, comments, brackets, names and single other characters.
A quoted text or a comment that is not closed reaches to the end. The pieces put together are the
statement again.
-/

namespace GraphApi.Cypher

inductive PieceKind where
  | quoted | comment | opening | closing | name | other
deriving DecidableEq, Repr

/-- A piece of a statement, never empty. -/
structure Piece where
  kind : PieceKind
  text : Chars
deriving DecidableEq, Repr

/-- The marks that open and close a quoted text; the last one quotes names. -/
def isQuote (c : Char) : Bool := c = '\x27' || c = '\x22' || c = '\x60'

def isOpening (c : Char) : Bool := c = '(' || c = '[' || c = '\x7b'

def isClosing (c : Char) : Bool := c = ')' || c = ']' || c = '\x7d'

def isNameChar (c : Char) : Bool := Text.isAlphanumeric c || c = '_'

/-- The rest of a quoted text up to its closing mark, and what follows. A backslash hides the next
character, except in a quoted name. -/
def splitQuoted (quote : Char) : Chars → Chars × Chars
  | [] => ([], [])
  | [c] => ([c], [])
  | c :: d :: rest =>
    if c = '\\' ∧ quote ≠ '\x60' then
      let (body, after) := splitQuoted quote rest
      (c :: d :: body, after)
    else if c = quote then ([c], d :: rest)
    else
      let (body, after) := splitQuoted quote (d :: rest)
      (c :: body, after)

def splitLine : Chars → Chars × Chars
  | [] => ([], [])
  | c :: rest =>
    if c = '\n' then ([c], rest)
    else
      let (body, after) := splitLine rest
      (c :: body, after)

def splitBlock : Chars → Chars × Chars
  | [] => ([], [])
  | '*' :: '/' :: rest => (['*', '/'], rest)
  | c :: rest =>
    let (body, after) := splitBlock rest
    (c :: body, after)

def Piece.next (c : Char) (rest : Chars) : Piece × Chars :=
  if isQuote c then
    let (body, after) := splitQuoted c rest
    (⟨.quoted, c :: body⟩, after)
  else if c = '/' then
    match rest with
    | '/' :: _ =>
      let (body, after) := splitLine rest
      (⟨.comment, c :: body⟩, after)
    | '*' :: inner =>
      let (body, after) := splitBlock inner
      (⟨.comment, c :: '*' :: body⟩, after)
    | _ => (⟨.other, [c]⟩, rest)
  else if isOpening c then (⟨.opening, [c]⟩, rest)
  else if isClosing c then (⟨.closing, [c]⟩, rest)
  else if isNameChar c then (⟨.name, c :: rest.takeWhile isNameChar⟩, rest.dropWhile isNameChar)
  else (⟨.other, [c]⟩, rest)

theorem splitQuoted_append (quote : Char) (s : Chars) :
    (splitQuoted quote s).1 ++ (splitQuoted quote s).2 = s := by
  fun_induction splitQuoted quote s <;> simp_all

theorem splitLine_append (s : Chars) : (splitLine s).1 ++ (splitLine s).2 = s := by
  fun_induction splitLine s <;> simp_all

theorem splitBlock_append (s : Chars) : (splitBlock s).1 ++ (splitBlock s).2 = s := by
  fun_induction splitBlock s <;> simp_all

/-- No character is lost when the next piece is taken. -/
theorem Piece.next_append (c : Char) (rest : Chars) :
    (Piece.next c rest).1.text ++ (Piece.next c rest).2 = c :: rest := by
  have hquoted := splitQuoted_append c rest
  unfold Piece.next
  split
  · simp [hquoted]
  · split
    · split
      · simpa using splitLine_append _
      · simpa using splitBlock_append _
      · simp
    · split
      · simp
      · split
        · simp
        · split <;> simp

/-- What follows a piece is shorter than the text it was taken from. -/
theorem Piece.next_length (c : Char) (rest : Chars) :
    (Piece.next c rest).2.length < (c :: rest).length := by
  have happend := congrArg List.length (Piece.next_append c rest)
  have hpos : 0 < (Piece.next c rest).1.text.length := by
    unfold Piece.next
    split
    · simp
    · split
      · split <;> simp
      · split
        · simp
        · split
          · simp
          · split <;> simp
  simp only [List.length_append] at happend
  omega

def pieces : Chars → List Piece
  | [] => []
  | c :: rest => (Piece.next c rest).1 :: pieces (Piece.next c rest).2
termination_by s => s.length
decreasing_by exact Piece.next_length c rest

/-- Nothing is lost by cutting a statement into pieces. -/
theorem flatMap_pieces (s : Chars) : (pieces s).flatMap (·.text) = s := by
  fun_induction pieces s with
  | case1 => rfl
  | case2 c rest ih => simp [ih, Piece.next_append]

/-! ## Words -/

structure Word where
  offset : Nat
  text : Chars
  depth : Nat
deriving DecidableEq, Repr

/-- The number of open brackets after a piece. A closing bracket too many is ignored. -/
def Piece.depthAfter (piece : Piece) (depth : Nat) : Nat :=
  match piece.kind with
  | .opening => depth + 1
  | .closing => depth - 1
  | _ => depth

/-- Whether a name after the given character is a property key or a parameter. -/
def isAccess (before : Option Char) : Bool := before = some '.' || before = some '$'

def wordsFrom (offset depth : Nat) (before : Option Char) : List Piece → List Word
  | [] => []
  | piece :: rest =>
    let others := wordsFrom (offset + piece.text.length) (piece.depthAfter depth)
      piece.text.getLast? rest
    if piece.kind = .name && !isAccess before then ⟨offset, piece.text, depth⟩ :: others else others

def words (statement : Chars) : List Word :=
  wordsFrom 0 0 none (pieces statement)

end GraphApi.Cypher
