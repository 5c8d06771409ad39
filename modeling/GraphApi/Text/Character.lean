/-!
# Characters

Line ends, blanks and decimal digits. A large set of characters is a list of numbers: from zero on,
how many code points are out of the set, how many of the next are in it, and so on by turns.
-/

namespace GraphApi

/-- A text as the list of its characters. -/
abbrev Chars := List Char

namespace Text

def inTurns : List Nat → Nat → Bool
  | outside :: inside :: rest, code =>
    outside ≤ code && (code < outside + inside || inTurns rest (code - outside - inside))
  | _, _ => false

/-- A text with one character at each line end, where there may have been a carriage return before
or instead of it. -/
def unifyNewlines : Chars → Chars
  | '\r' :: '\n' :: rest => '\n' :: unifyNewlines rest
  | '\r' :: rest => '\n' :: unifyNewlines rest
  | c :: rest => c :: unifyNewlines rest
  | [] => []

def blankCodes : List Nat :=
  [9, 10, 11, 12, 13, 28, 29, 30, 31, 32, 133, 160, 5760, 8192, 8193, 8194, 8195, 8196, 8197,
   8198, 8199, 8200, 8201, 8202, 8232, 8233, 8239, 8287, 12288]

def isBlank (c : Char) : Bool :=
  blankCodes.contains c.toNat

def trimStart (cs : Chars) : Chars :=
  cs.dropWhile isBlank

def trimEnd (cs : Chars) : Chars :=
  (cs.reverse.dropWhile isBlank).reverse

def trim (cs : Chars) : Chars :=
  trimEnd (trimStart cs)

def zeroCodes : List Nat :=
  [1632, 1776, 1984, 2406, 2534, 2662, 2790, 2918, 3046, 3174, 3302, 3430, 3558, 3664, 3792,
   3872, 4160, 4240,
   6112, 6160, 6470, 6608, 6784, 6800, 6992, 7088, 7232, 7248, 42528, 43216, 43264, 43472,
   43504, 43600, 44016, 65296, 66720, 68912, 69734, 69872, 69942, 70096, 70384, 70736, 70864, 71248,
   71360, 71472, 71904, 72016, 72784, 73040, 73120, 92768, 92864, 93008, 120782, 120792, 120802,
   120812, 120822, 123200, 123632, 125264, 130032]

def digitValue? (c : Char) : Option Nat :=
  if c.toNat < 128 then (if c.isDigit then some (c.toNat - 48) else none)
  else (zeroCodes.find? fun base => base ≤ c.toNat && c.toNat < base + 10).map fun base =>
    c.toNat - base

end Text

end GraphApi
