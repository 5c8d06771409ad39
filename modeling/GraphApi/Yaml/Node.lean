import GraphApi.Yaml.Tag
import GraphApi.Yaml.Token

/-!
# Nodes

A document consists of nodes: scalars, sequences and mappings, each with its tag. A node can be
named by an anchor and then used again further on, even inside itself, so nodes are numbered and
refer to each other by their numbers.
-/

namespace GraphApi.Yaml

/-- A node of a document. What it contains is given by the numbers of the nodes. -/
inductive Node where
  | scalar (tag : Tag) (content : Content)
  | sequence (tag : Tag) (items : List Nat)
  | mapping (tag : Tag) (entries : List (Nat × Nat))
deriving Inhabited

def Node.tag : Node → Tag
  | .scalar tag _ | .sequence tag _ | .mapping tag _ => tag

/-- What is left of a text, the nodes so far, the numbers of those that have names, and the starts
that handles stand for. -/
structure Reading where
  left : Scan
  nodes : Array Node := #[]
  anchors : NameMap Nat := []
  handles : NameMap String := []

abbrev Read := StateT Reading (Except Defect)

namespace Read

/-- The next token. The defect of a text shows where a token behind it is asked for. -/
def peek : Read (Option Token) := do
  match (← get).left with
  | { tokens := [], defect := some defect } => throw defect
  | { tokens, .. } => return tokens.head?

def drop : Read Unit :=
  modify fun reading => { reading with
    left := { reading.left with tokens := reading.left.tokens.tail } }

def expect (token : Token) : Read Unit := do
  if (← peek) == some token then drop else throw .form

def takes (token : Token) : Read Bool := do
  if (← peek) == some token then
    drop
    return true
  else return false

def add (node : Node) : Read Nat := do
  let number := (← get).nodes.size
  modify fun reading => { reading with nodes := reading.nodes.push node }
  return number

def replace (number : Nat) (node : Node) : Read Unit :=
  modify fun reading => { reading with nodes := reading.nodes.setIfInBounds number node }

end Read

structure Properties where
  anchor : Option String := none
  tag : Option String := none

def tagName (handle : Option String) (suffix : String) : Read String := do
  match handle with
  | none => return suffix
  | some handle =>
    match (← get).handles.get? handle with
    | some start => return start ++ suffix
    | none => throw .form

def readAnchor? : Read (Option String) := do
  match ← Read.peek with
  | some (.anchor name) =>
    Read.drop
    return some name
  | _ => return none

def readTag? : Read (Option (Option String × String)) := do
  match ← Read.peek with
  | some (.tag handle suffix) =>
    Read.drop
    return some (handle, suffix)
  | _ => return none

def readProperties : Read Properties := do
  let first ← readAnchor?
  let tag ← readTag?
  let anchor ← if first.isNone && tag.isSome then readAnchor? else pure first
  match tag with
  | some (handle, suffix) => return { anchor, tag := some (← tagName handle suffix) }
  | none => return { anchor }

namespace Properties

def isGiven (properties : Properties) : Bool := properties.anchor.isSome || properties.tag.isSome

def collectionTag (properties : Properties) (usual : Tag) : Tag :=
  match properties.tag with
  | none | some "!" => usual
  | some name => .ofName name

/-- The tag of a scalar: that of its way of writing if it is plain or marked as such. -/
def scalarTag (properties : Properties) (content : String) (isPlain : Bool) : Tag :=
  match properties.tag with
  | none => if isPlain then .ofPlain content else .text
  | some "!" => .ofPlain content
  | some name => .ofName name

def add (properties : Properties) (node : Node) : Read Nat := do
  let number ← Read.add node
  match properties.anchor with
  | some anchor => modify fun reading =>
      { reading with anchors := reading.anchors.insert anchor number }
  | none => pure ()
  return number

def checkNew (properties : Properties) : Read Unit := do
  if properties.anchor.any (← get).anchors.contains then throw .form

end Properties

def addEmpty : Read Nat := Read.add (.scalar .null { text := "" })

def addCollection (properties : Properties) (start : Node) (read : Read Node) : Read Nat := do
  let number ← properties.add start
  Read.replace number (← read)
  return number

inductive Setting where
  | flow
  | block
  /-- After the sign of a key or a value in a block, where a sequence need not be indented. -/
  | member
deriving DecidableEq, Repr

/-- The tokens before which a key or a value in a block is empty. -/
def memberEnds : List Token := [.key, .value, .blockEnd]

mutual

def readNode : Nat → Setting → Read Nat
  | 0, _ => throw .form
  | limit + 1, setting => do
    match ← Read.peek with
    | some (.reference name) =>
      Read.drop
      match (← get).anchors.get? name with
      | some number => return number
      | none => throw .form
    | _ =>
      let properties ← readProperties
      let next ← Read.peek
      properties.checkNew
      let sequence := fun (read : Read (List Nat)) =>
        let tag := properties.collectionTag .list
        addCollection properties (.sequence tag []) do return .sequence tag (← read)
      let mapping := fun (read : Read (List (Nat × Nat))) =>
        let tag := properties.collectionTag .mapping
        addCollection properties (.mapping tag []) do return .mapping tag (← read)
      match next, setting with
      | some .entry, .member => sequence (readItems limit true)
      | some (.scalar content isPlain), _ =>
        Read.drop
        properties.add (.scalar (properties.scalarTag content.text isPlain) content)
      | some .openBracket, _ =>
        Read.drop
        sequence (readFlowItems limit true)
      | some .openBrace, _ =>
        Read.drop
        mapping (readFlowEntries limit true)
      | some .sequenceStart, .block | some .sequenceStart, .member =>
        Read.drop
        sequence (readItems limit false)
      | some .mappingStart, .block | some .mappingStart, .member =>
        Read.drop
        mapping (readEntries limit)
      | _, _ =>
        if !properties.isGiven then throw .form
        properties.add (.scalar (properties.scalarTag "" true) { text := "" })

def readNodeUnless : Nat → Setting → List Token → Read Nat
  | 0, _, _ => throw .form
  | limit + 1, setting, ends => do
    if (← Read.peek).any ends.contains then addEmpty else readNode limit setting

/-- The items of a sequence in a block. One that is not indented ends without a sign of its own. -/
def readItems : Nat → Bool → Read (List Nat)
  | 0, _ => throw .form
  | limit + 1, isFlush => do
    if ← Read.takes .entry then
      let ends := if isFlush then [.entry, .key, .value, .blockEnd] else [.entry, .blockEnd]
      let item ← readNodeUnless limit .block ends
      return item :: (← readItems limit isFlush)
    else if isFlush then return []
    else
      Read.expect .blockEnd
      return []

def readEntries : Nat → Read (List (Nat × Nat))
  | 0 => throw .form
  | limit + 1 => do
    if ← Read.takes .key then
      let key ← readNodeUnless limit .member memberEnds
      let value ← if ← Read.takes .value then readNodeUnless limit .member memberEnds else addEmpty
      return (key, value) :: (← readEntries limit)
    else
      Read.expect .blockEnd
      return []

/-- The items of a sequence between brackets. A single entry of a mapping is an item, too. -/
def readFlowItems : Nat → Bool → Read (List Nat)
  | 0, _ => throw .form
  | limit + 1, isFirst => do
    if ← Read.takes .closeBracket then return []
    if !isFirst then Read.expect .comma
    if ← Read.takes .key then
      let key ← readNodeUnless limit .flow [.value, .comma, .closeBracket]
      let value ← if ← Read.takes .value then readNodeUnless limit .flow [.comma, .closeBracket] else addEmpty
      let item ← Read.add (.mapping .mapping [(key, value)])
      return item :: (← readFlowItems limit false)
    else if ← Read.takes .closeBracket then return []
    else
      let item ← readNode limit .flow
      return item :: (← readFlowItems limit false)

/-- The entries of a mapping between braces. A node that is no key has an empty value. -/
def readFlowEntries : Nat → Bool → Read (List (Nat × Nat))
  | 0, _ => throw .form
  | limit + 1, isFirst => do
    if ← Read.takes .closeBrace then return []
    if !isFirst then Read.expect .comma
    if ← Read.takes .key then
      let key ← readNodeUnless limit .flow [.value, .comma, .closeBrace]
      let value ← if ← Read.takes .value then readNodeUnless limit .flow [.comma, .closeBrace] else addEmpty
      return (key, value) :: (← readFlowEntries limit false)
    else if ← Read.takes .closeBrace then return []
    else
      let key ← readNode limit .flow
      let value ← addEmpty
      return (key, value) :: (← readFlowEntries limit false)

end

/-! ## Documents -/

def usualHandles : NameMap String := [("!", "!"), ("!!", Tag.start)]

def addInstruction (instructions : List Instruction) (handles : NameMap String) :
    Instruction → Except Defect (NameMap String)
  | .version major =>
    let isRepeated := instructions.any fun
      | .version _ => true
      | _ => false
    if isRepeated || major ≠ 1 then .error .form else .ok handles
  | .handle handle start => if handles.contains handle then .error .form
      else .ok (handles ++ [(handle, start)])
  | .other => .ok handles

def readInstructions : Nat → List Instruction → NameMap String → Read (NameMap String)
  | 0, _, _ => throw .form
  | limit + 1, before, handles => do
    match ← Read.peek with
    | some (.instruction content) =>
      Read.drop
      readInstructions limit (content :: before) (← addInstruction before handles content)
    | _ => return handles

def isBound : Token → Bool
  | .instruction _ | .documentStart | .documentEnd => true
  | _ => false

def readRoot (limit : Nat) (declared : NameMap String) : Read Nat := do
  modify fun reading => { reading with handles := declared ++ usualHandles }
  readNode limit .block

def readMarked (limit : Nat) : Read Nat := do
  let declared ← readInstructions limit [] []
  Read.expect .documentStart
  if (← Read.peek).all isBound then addEmpty else readRoot limit declared

def readEnds : Nat → Read Unit
  | 0 => throw .form
  | limit + 1 => do if ← Read.takes .documentEnd then readEnds limit else return ()

def readDocument (limit : Nat) : Read (Option Nat) := do
  match ← Read.peek with
  | none => return none
  | some first =>
    let root ← if isBound first then readMarked limit else readRoot limit []
    readEnds limit
    if (← Read.peek).isNone then return some root
    -- another document follows, if what stands before it is right
    let _ ← readInstructions limit [] []
    throw .form

structure Document where
  nodes : Array Node
  root : Nat

def Document.ofScan? (scan : Scan) : Except Defect (Option Document) := do
  let (root, reading) ← readDocument (4 * scan.tokens.length + 4) { left := scan }
  return root.map fun root => { nodes := reading.nodes, root }

def Document.node (doc : Document) (number : Nat) : Node := doc.nodes.getD number default

def Document.tag (doc : Document) (number : Nat) : Tag := (doc.node number).tag

end GraphApi.Yaml
