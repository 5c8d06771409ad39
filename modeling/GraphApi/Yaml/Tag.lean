import GraphApi.Number.Binary64

/-!
# Tags

A tag says what kind of value a node stands for. A plain scalar has none of its own: the way it is
written decides.
-/

namespace GraphApi.Yaml

inductive Tag where
  | null | bool | int | float | binary | timestamp | text | list | mapping | set | pairs
  /-- The key that takes over the entries of other mappings. -/
  | merge
  /-- The key that stands for the value of a mapping itself. -/
  | self
  | other
deriving DecidableEq, Inhabited, Repr

def Tag.start : String := "tag:yaml.org,2002:"

def Tag.names : List (String × Tag) :=
  [("null", .null), ("bool", .bool), ("int", .int), ("float", .float), ("binary", .binary),
   ("timestamp", .timestamp),
   ("str", .text), ("seq", .list), ("map", .mapping), ("set", .set), ("omap", .pairs),
   ("pairs", .pairs), ("merge", .merge), ("value", .self)]

def Tag.ofName (name : String) : Tag :=
  ((Tag.names.find? fun entry => Tag.start ++ entry.1 == name).map (·.2)).getD .other

/-! ## How plain scalars are written -/

def yesWords : List String := ["yes", "Yes", "YES", "true", "True", "TRUE", "on", "On", "ON"]

def noWords : List String := ["no", "No", "NO", "false", "False", "FALSE", "off", "Off", "OFF"]

def nullWords : List String := ["~", "null", "Null", "NULL", ""]

def dropSign : List Char → List Char
  | '-' :: rest | '+' :: rest => rest
  | other => other

def isGrouped (c : Char) : Bool := c.isDigit || c == '_'

/-- A part of a number with base sixty: one digit, or two of which the first is at most five. -/
def isSixtieth (part : List Char) : Bool :=
  match part with
  | [c] => c.isDigit
  | [high, low] => '0' ≤ high && high ≤ '5' && low.isDigit
  | _ => false

def areSixtieths (parts : List (List Char)) : Bool :=
  !parts.isEmpty && parts.all isSixtieth

def cutAtColons (text : List Char) : List (List Char) := text.splitOn ':'

def isExponent : List Char → Bool
  | [] => true
  | mark :: sign :: digits =>
    (mark == 'e' || mark == 'E') && (sign == '-' || sign == '+') && !digits.isEmpty &&
      digits.all Char.isDigit
  | _ => false

def isIntText (text : List Char) : Bool :=
  match dropSign text with
  | ['0'] => true
  | '0' :: 'b' :: digits => !digits.isEmpty && digits.all fun c => c == '0' || c == '1' || c == '_'
  | '0' :: 'x' :: digits =>
    !digits.isEmpty && digits.all fun c => c.isDigit || ('a' ≤ c && c ≤ 'f') ||
      ('A' ≤ c && c ≤ 'F') || c == '_'
  | '0' :: digits => digits.all fun c => ('0' ≤ c && c ≤ '7') || c == '_'
  | c :: rest =>
    c.isDigit &&
      match cutAtColons rest with
      | first :: parts => first.all isGrouped && (parts.isEmpty || areSixtieths parts)
      | [] => false
  | [] => false

def isDecimalText (text : List Char) : Bool :=
  match text with
  | '.' :: c :: rest => c.isDigit && isExponent (rest.dropWhile isGrouped)
  | _ =>
    match dropSign text with
    | c :: rest =>
      c.isDigit &&
        match rest.dropWhile isGrouped with
        | '.' :: fraction => isExponent (fraction.dropWhile isGrouped)
        | _ => false
    | [] => false

def isSixtiethsText (text : List Char) : Bool :=
  let unsigned := dropSign text
  let whole := unsigned.takeWhile (· != '.')
  let fraction := unsigned.dropWhile (· != '.')
  match cutAtColons whole with
  | (c :: first) :: parts =>
    c.isDigit && first.all isGrouped && areSixtieths parts && !fraction.isEmpty &&
      (fraction.drop 1).all isGrouped
  | _ => false

def infinityWords : List String := [".inf", ".Inf", ".INF"]

def undefinedWords : List String := [".nan", ".NaN", ".NAN"]

def isFloatText (text : List Char) : Bool :=
  isDecimalText text || isSixtiethsText text ||
    infinityWords.contains (String.ofList (dropSign text)) ||
    undefinedWords.contains (String.ofList text)

/-! ## Times -/

structure Timestamp where
  year : Nat
  month : Nat
  day : Nat
  clock : Option (Nat × Nat × Nat) := none
  zone : Option (Nat × Nat) := none
deriving DecidableEq, Repr

def digits? (least most : Nat) (text : List Char) : Option (Nat × List Char) :=
  let digits := (text.takeWhile Char.isDigit).take most
  if digits.length < least then none
    else some (Binary64.digitsValue digits, text.drop digits.length)

def after? (c : Char) : List Char → Option (List Char)
  | first :: rest => if first = c then some rest else none
  | [] => none

def zone? (text : List Char) : Option (Option (Nat × Nat)) :=
  match text.dropWhile fun c => c == ' ' || c == '\t' with
  | [] => if text.isEmpty then some none else none
  | ['Z'] => some none
  | sign :: rest =>
    if sign == '+' || sign == '-' then
      match digits? 1 2 rest with
      | some (hours, []) => some (some (hours, 0))
      | some (hours, ':' :: rest) =>
        match digits? 2 2 rest with
        | some (minutes, []) => some (some (hours, minutes))
        | _ => none
      | _ => none
    else none

def dayGap? : List Char → Option (List Char)
  | 'T' :: rest | 't' :: rest => some rest
  | text =>
    let rest := text.dropWhile fun c => c == ' ' || c == '\t'
    if rest.length < text.length then some rest else none

def clock? (day : Timestamp) (text : List Char) : Option Timestamp := do
  let (hours, text) ← digits? 1 2 (← dayGap? text)
  let (minutes, text) ← digits? 2 2 (← after? ':' text)
  let (seconds, text) ← digits? 2 2 (← after? ':' text)
  let rest := match text with
    | '.' :: fraction => fraction.dropWhile Char.isDigit
    | other => other
  return { day with clock := some (hours, minutes, seconds), zone := ← zone? rest }

def Timestamp.ofText? (text : List Char) : Option Timestamp := do
  let (year, rest) ← digits? 4 4 text
  let (month, rest) ← digits? 1 2 (← after? '-' rest)
  let (day, rest) ← digits? 1 2 (← after? '-' rest)
  if rest.isEmpty then return { year, month, day } else clock? { year, month, day } rest

def isTimeText (text : List Char) : Bool :=
  (Timestamp.ofText? text).any fun time => time.clock.isSome || text.length = 10

def isLeapYear (year : Nat) : Bool := year % 4 = 0 && (year % 100 ≠ 0 || year % 400 = 0)

def daysOfMonth (year month : Nat) : Nat :=
  if month = 2 then (if isLeapYear year then 29 else 28)
  else if [4, 6, 9, 11].contains month then 30
  else 31

def Timestamp.isValid (time : Timestamp) : Bool :=
  1 ≤ time.year && 1 ≤ time.month && time.month ≤ 12 && 1 ≤ time.day &&
    time.day ≤ daysOfMonth time.year time.month &&
    (time.clock.all fun (hours, minutes, seconds) => hours < 24 && minutes < 60 && seconds < 60) &&
    time.zone.all fun (hours, minutes) => 60 * hours + minutes < 1440

/-! ## The tag of a plain scalar -/

/-- The signs that are reserved for tags, anchors and references. -/
def signWords : List String := ["!", "&", "*"]

def Tag.ofLine (line : List Char) : Tag :=
  let word := String.ofList line
  if yesWords.contains word || noWords.contains word then .bool
  else if isFloatText line then .float
  else if isIntText line then .int
  else if word == "<<" then .merge
  else if nullWords.contains word then .null
  else if isTimeText line then .timestamp
  else if word == "=" then .self
  else if signWords.contains word then .other
  else .text

def dropLastBreak (text : List Char) : List Char :=
  if text.getLast? == some '\n' then text.dropLast else text

/-- The kind of value that a plain scalar stands for. A line break at its end does not count, but a
line break alone is a text. -/
def Tag.ofPlain (content : String) : Tag :=
  if content == "\n" then .text else .ofLine (dropLastBreak content.toList)

end GraphApi.Yaml
