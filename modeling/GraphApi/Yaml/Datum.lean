import GraphApi.Yaml.Node
import GraphApi.Yaml.Numeral

/-!
# Data

What a document stands for: scalars of several kinds, lists, sets and mappings. A mapping can take
over the entries of other mappings, but its own entries win.

A collection is made before what it contains, so that it can contain itself. All collections are
made in the order in which they are met, level by level, and the first defect on this way is the one
that shows.
-/

namespace GraphApi.Yaml

inductive Datum where
  | null
  | bool (value : Bool)
  | int (value : Int)
  | float (value : Binary64)
  | text (content : String)
  /-- A text with halves of surrogate pairs in it. -/
  | brokenText
  | date
  | dateTime
  | bytes (content : List UInt8)
  | list (items : List Datum)
  | set (members : List Datum)
  | mapping (entries : List (Datum × Datum))
  /-- What is too deep inside other data to be of interest. -/
  | deep
deriving BEq

instance : Inhabited Datum := ⟨.null⟩

/-! ## Scalars -/

def sextet? (c : Char) : Option Nat :=
  if c.isUpper then some (c.toNat - 65)
  else if c.isLower then some (c.toNat - 71)
  else if c.isDigit then some (c.toNat + 4)
  else if c == '+' then some 62
  else if c == '/' then some 63
  else none

/-- The bytes that digits with base sixty-four stand for. `bits` bits of the last digits are left in
`left`, and so many signs that fill up a group have been seen. Other characters do not count. -/
def bytes? : Chars → Nat → Nat → Nat → Option (List UInt8)
  | [], bits, _, _ => if bits = 0 then some [] else none
  | '=' :: rest, bits, left, signs =>
    -- four bits are left after two digits of a group, two bits after three
    if (bits = 4 && signs ≥ 1) || bits = 2 then some [] else bytes? rest bits left (signs + 1)
  | c :: rest, bits, left, signs =>
    match sextet? c with
    | none => bytes? rest bits left signs
    | some value =>
      let total := left * 64 + value
      if bits = 0 then bytes? rest 6 total 0
      else (bytes? rest (bits - 2) (total % 2 ^ (bits - 2)) 0).map
        ((total / 2 ^ (bits - 2)).toUInt8 :: ·)

def bytesOf? (content : String) : Option (List UInt8) :=
  if content.toList.all fun c => c.toNat < 128 then bytes? content.toList 0 0 0 else none

def truth? (content : String) : Option Bool :=
  let word := String.ofList (content.toList.map Char.toLower)
  if yesWords.contains word then some true else if noWords.contains word then some false else none

def Datum.ofTime (content : String) : Except Defect Datum := do
  let time ← orDefect .time (Timestamp.ofText? (dropLastBreak content.toList))
  if time.isValid then return if time.clock.isSome then .dateTime else .date else throw .range

def Datum.ofContent (tag : Tag) (content : Content) : Except Defect Datum :=
  match tag with
  | .null => .ok .null
  | .bool => orDefect .word ((truth? content.text).map .bool)
  | .int => (integer content.text).map .int
  | .float => (fraction content.text).map .float
  | .binary => orDefect .form ((bytesOf? content.text).map .bytes)
  | .timestamp => Datum.ofTime content.text
  | .text | .self => .ok (if content.isWhole then .text content.text else .brokenText)
  | .list | .mapping | .set | .pairs | .merge | .other => .error .form

def Tag.isCollection : Tag → Bool
  | .list | .mapping | .set | .pairs => true
  | _ => false

namespace Document

/-- The content of a scalar. A mapping that has a key for itself has the content of the value
there. -/
def content (doc : Document) : Nat → Nat → Except Defect Content
  | 0, _ => .error .circle
  | limit + 1, number =>
    match doc.node number with
    | .scalar _ content => .ok content
    | .mapping _ entries =>
      match entries.find? fun (key, _) => doc.tag key == .self with
      | some (_, value) => doc.content limit value
      | none => .error .form
    | .sequence .. => .error .form

/-- What a node stands for that is to be a scalar. A time is read from what is written as one
only. -/
def scalar (doc : Document) (number : Nat) : Except Defect Datum := do
  let content ← doc.content (doc.nodes.size + 1) number
  match doc.tag number, doc.node number with
  | .timestamp, .mapping .. => throw .kind
  | tag, _ => Datum.ofContent tag content

/-! ## Mappings -/

def mergedWith (doc : Document) (entries : Nat → Except Defect (List (Nat × Nat))) (source : Nat) :
    Except Defect (List (Nat × Nat)) :=
  match doc.node source with
  | .mapping .. => entries source
  | .sequence _ items => do return (← items.mapM entries).reverse.flatten
  | .scalar .. => .error .form

/-- The entries of a mapping inside other mappings: those that it takes over, and then its own. A
mapping gives nothing to itself. -/
def entriesWithin (doc : Document) : Nat → List Nat → Nat → Except Defect (List (Nat × Nat))
  | 0, _, _ => .ok []
  | limit + 1, outer, number =>
    match doc.node number with
    | .mapping _ entries => do
      if outer.contains number then return []
      let (taking, own) := entries.partition fun (key, _) => doc.tag key == .merge
      let merged ← taking.mapM fun (_, source) =>
        doc.mergedWith (doc.entriesWithin limit (number :: outer)) source
      return merged.flatten ++ own
    | _ => .error .form

def entries (doc : Document) (number : Nat) : Except Defect (List (Nat × Nat)) :=
  doc.entriesWithin (doc.nodes.size + 1) [] number

/-! ## The order of making -/

/-- The nodes that have been met, and of these the collections in the order in which they are
met. -/
structure Progress where
  isMet : Array Bool
  collections : Array Nat := #[]

/-- Meets a node. A scalar is made at once, a collection when its turn comes. -/
def meet (doc : Document) (progress : Progress) (number : Nat) : Except Defect Progress := do
  if progress.isMet.getD number true then return progress
  let met := { progress with isMet := progress.isMet.setIfInBounds number true }
  let tag := doc.tag number
  if tag.isCollection then return { met with collections := met.collections.push number }
  else if tag == .self then throw .form
  else
    let _ ← doc.scalar number
    return met

/-- Meets a key. It is no collection, and the key for a mapping itself is a text here. -/
def meetKey (doc : Document) (progress : Progress) (number : Nat) : Except Defect Progress := do
  if doc.tag number == .self then
    let _ ← doc.scalar number
    return { progress with isMet := progress.isMet.setIfInBounds number true }
  let met ← doc.meet progress number
  if (doc.tag number).isCollection then throw .form else return met

def meetEntry (doc : Document) (progress : Progress) (entry : Nat × Nat) :
    Except Defect Progress := do
  doc.meet (← doc.meetKey progress entry.1) entry.2

def meetPair (doc : Document) (progress : Progress) (number : Nat) : Except Defect Progress := do
  match doc.node number with
  | .mapping _ [(first, second)] => doc.meet (← doc.meet progress first) second
  | _ => throw .form

def make (doc : Document) (progress : Progress) (number : Nat) : Except Defect Progress :=
  match doc.tag number, doc.node number with
  | .list, .sequence _ items => items.foldlM doc.meet progress
  | .pairs, .sequence _ items => items.foldlM doc.meetPair progress
  | .mapping, .mapping .. | .set, .mapping .. =>
      do (← doc.entries number).foldlM doc.meetEntry progress
  | _, _ => .error .form

def makeFrom (doc : Document) : Nat → Nat → Progress → Except Defect Unit
  | 0, _, _ => .ok ()
  | limit + 1, turn, progress =>
    match progress.collections[turn]? with
    | some number => do doc.makeFrom limit (turn + 1) (← doc.make progress number)
    | none => .ok ()

def check (doc : Document) : Except Defect Unit := do
  let start : Progress := { isMet := Array.replicate doc.nodes.size false }
  doc.makeFrom (doc.nodes.size + 1) 0 (← doc.meet start doc.root)

/-! ## Unfolding -/

def datum (doc : Document) : Nat → Nat → Datum
  | 0, _ => .deep
  | depth + 1, number =>
    let entries := (doc.entries number).toOption.getD []
    match doc.tag number, doc.node number with
    | .list, .sequence _ items | .pairs, .sequence _ items => .list (items.map (doc.datum depth))
    | .mapping, .mapping .. =>
      .mapping (entries.map fun (key, value) => (doc.datum depth key, doc.datum depth value))
    | .set, .mapping .. => .set (entries.map fun (key, _) => doc.datum depth key).eraseDups
    | _, _ => (doc.scalar number).toOption.getD .null

end Document

/-- How deep data is looked into. No settings are deeper. -/
def depthLimit : Nat := 5

def Datum.ofText (text : String) : Except Defect Datum := do
  match ← Document.ofScan? (.ofText (Text.unifyNewlines text.toList)) with
  | some doc => do
    doc.check
    return doc.datum depthLimit doc.root
  | none => return .null

/-! ## Values -/

mutual

/-- A datum as a value, if it is made up of what values are made up of. Of entries with the same key
the last one counts. -/
def Datum.value? : Datum → Option Value
  | .null => some .null
  | .bool value => some (.bool value)
  | .int value => some (.int value)
  | .float value => some (.float value)
  | .text content => some (.text content)
  | .bytes content => (String.fromUTF8? ⟨content.toArray⟩).map .text
  | .list items | .set items => (Datum.values? items).map .list
  | .mapping entries => do
    let named ← Datum.named? entries
    return .object (← (NameMap.ofList named).mapM fun (name, value) => value.map (name, ·))
  | .brokenText | .date | .dateTime | .deep => none

def Datum.values? : List Datum → Option (List Value)
  | [] => some []
  | item :: rest => do
    let value ← item.value?
    return value :: (← Datum.values? rest)

def Datum.named? : List (Datum × Datum) → Option (List (Name × Option Value))
  | [] => some []
  | (.text key, item) :: rest => do
    let others ← Datum.named? rest
    return (key, item.value?) :: others
  | _ :: _ => none

end

end GraphApi.Yaml
