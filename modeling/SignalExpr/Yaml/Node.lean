import SignalExpr.Yaml.Token.Scan

/-!
Nodes of a YAML document: scalars, sequences, mappings, and references to nodes that have an
anchor. A text holds one document, or none.
-/

namespace SignalExpr.Yaml

/-- What may be written in front of a node. -/
structure Properties where
  /-- The number of the anchor. -/
  anchor : Option Nat := none
  tag : Option TagText := none
deriving DecidableEq, Repr

inductive Node where
  /-- The node with the anchor of this number. -/
  | reference (anchor : Nat)
  | scalar (properties : Properties) (style : Style) (text : List Char)
  | sequence (properties : Properties) (items : List Node)
  | mapping (properties : Properties) (entries : List (Node × Node))

namespace Node

/-- What stands where nothing is written. -/
def absent : Node := .scalar {} .plain []

def properties : Node → Properties
  | reference _ => {}
  | scalar p _ _ | sequence p _ | mapping p _ => p

mutual

/-- The last node with an anchor, in the order in which nodes start. -/
def anchored? (anchor : Nat) (n : Node) : Option Node :=
  let inside :=
    match n with
    | sequence _ items => anchoredItem? anchor items
    | mapping _ entries => anchoredEntry? anchor entries
    | _ => none
  match inside with
  | some found => some found
  | none => if n.properties.anchor = some anchor then some n else none

/-- The last node with an anchor among items. -/
def anchoredItem? (anchor : Nat) : List Node → Option Node
  | [] => none
  | n :: ns =>
      match anchoredItem? anchor ns with
      | some found => some found
      | none => anchored? anchor n

/-- The last node with an anchor among entries. -/
def anchoredEntry? (anchor : Nat) : List (Node × Node) → Option Node
  | [] => none
  | (key, value) :: rest =>
      match anchoredEntry? anchor rest with
      | some found => some found
      | none =>
          match anchored? anchor value with
          | some found => some found
          | none => anchored? anchor key

end

end Node

/-! ### Reading nodes from tokens -/

/-- Abbreviations for the first parts of tags. -/
abbrev Handles := List (List Char × TagText)

/-- The handles that need no directive. -/
def standardHandles : Handles :=
  [("!".toList, "!".toUTF8.toList), ("!!".toList, "tag:yaml.org,2002:".toUTF8.toList)]

/-- The tokens that are left, and the anchors met so far with their numbers. -/
structure Reading where
  tokens : List Token
  anchors : List (List Char × Nat) := []

/-- A reader of a part of a document; it may refuse the tokens. -/
abbrev Reader := StateT Reading Option

namespace Reader

/-- The next token, which stays there. -/
def peek : Reader (Option Token) := return (← get).tokens.head?

def skip : Reader Unit := modify fun r => { r with tokens := r.tokens.tail }

/-- Whether the next token is one of these. -/
def isNext (ts : List Token) : Reader Bool := return (← peek).any ts.contains

/-- Skips a token if it is there. -/
def accept (t : Token) : Reader Bool := do
  let found ← isNext [t]
  if found then skip
  return found

/-- Gives an anchor its number, which is how many names there were before. A name that is used
again belongs to the later node. -/
def addAnchor (name : List Char) : Reader Nat := do
  let r ← get
  let number := r.anchors.length
  set { r with anchors := (name, number) :: r.anchors.filter (·.1 != name) }
  return number

/-- A tag in full. -/
def fullTag (handles : Handles) (handle : List Char) (suffix : TagText) : Reader TagText :=
  if handle.isEmpty then return suffix
  else do
    let some expansion := handles.lookup handle | failure
    return expansion ++ suffix

/-- Adds an anchor or a tag to properties that have none yet, if it comes next. -/
def property (handles : Handles) (p : Properties) : Reader Properties := do
  match ← peek, p.anchor, p.tag with
  | some (.anchor name), none, _ =>
      skip
      return { p with anchor := some (← addAnchor name) }
  | some (.tag handle suffix), _, none =>
      skip
      return { p with tag := some (← fullTag handles handle suffix) }
  | _, _, _ => return p

/-- The properties of a node: an anchor and a tag in either order. -/
def properties (handles : Handles) : Reader Properties := do
  property handles (← property handles {})

/-- Where a node is read. -/
inductive Place where
  | flow
  | block
  /-- As a key or a value of a block mapping, where the items of a sequence need no further
  indentation. -/
  | entry
deriving DecidableEq

mutual

/-- Reads a node. -/
def node (handles : Handles) : Nat → Place → Reader Node
  | 0, _ => failure
  | fuel + 1, place => do
      if let some (.reference name) ← peek then
        skip
        let some number := (← get).anchors.lookup name | failure
        return .reference number
      let p ← properties handles
      match ← peek with
      | some (.scalar style text) =>
          skip
          return .scalar p style text
      | some .flowSequence =>
          skip
          return .sequence p (← flowItems handles fuel true)
      | some .flowMapping =>
          skip
          return .mapping p (← flowEntries handles fuel true)
      | t =>
          if t = some .blockSequence ∧ place ≠ .flow then
            skip
            return .sequence p (← blockItems handles fuel)
          else if t = some .blockMapping ∧ place ≠ .flow then
            skip
            return .mapping p (← blockEntries handles fuel)
          else if t = some .blockEntry ∧ place = .entry then
            return .sequence p (← looseItems handles fuel)
          else if p = {} then failure
          else return .scalar p .plain []

/-- Reads a node unless one of some tokens is next. -/
def nodeUnless (handles : Handles) : Nat → Place → List Token → Reader Node
  | 0, _, _ => failure
  | fuel + 1, place, ends => do
      if ← isNext ends then return .absent else node handles fuel place

/-- Reads the items of a block sequence up to its end. -/
def blockItems (handles : Handles) : Nat → Reader (List Node)
  | 0 => failure
  | fuel + 1 => do
      if ← accept .blockEntry then
        let item ← nodeUnless handles fuel .block [.blockEntry, .blockEnd]
        return item :: (← blockItems handles fuel)
      else if ← accept .blockEnd then return []
      else failure

/-- Reads the items of a sequence in a block mapping that is not indented. -/
def looseItems (handles : Handles) : Nat → Reader (List Node)
  | 0 => failure
  | fuel + 1 => do
      if ← accept .blockEntry then
        let item ← nodeUnless handles fuel .block [.blockEntry, .key, .value, .blockEnd]
        return item :: (← looseItems handles fuel)
      else return []

/-- Reads the entries of a block mapping up to its end. -/
def blockEntries (handles : Handles) : Nat → Reader (List (Node × Node))
  | 0 => failure
  | fuel + 1 => do
      let ends := [.key, .value, .blockEnd]
      if ← accept .key then
        let key ← nodeUnless handles fuel .entry ends
        let value ←
          if ← accept .value then nodeUnless handles fuel .entry ends else pure .absent
        return (key, value) :: (← blockEntries handles fuel)
      else if ← accept .blockEnd then return []
      else failure

/-- Reads the value of an entry of a flow collection, if there is one. -/
def flowValue (handles : Handles) : Nat → List Token → Reader Node
  | 0, _ => failure
  | fuel + 1, ends => do
      if ← accept .value then nodeUnless handles fuel .flow ends else return .absent

/-- Reads the items of a flow sequence up to its end. An item may be a mapping of one entry; where
its key is left out, the token behind the mark of the key is dropped. -/
def flowItems (handles : Handles) : Nat → (first : Bool) → Reader (List Node)
  | 0, _ => failure
  | fuel + 1, first => do
      if ← accept .flowSequenceEnd then return []
      if !first then
        if !(← accept .flowEntry) then failure
      let ends := [.flowEntry, .flowSequenceEnd]
      if ← accept .key then
        let key ←
          if ← isNext (.value :: ends) then do
            skip
            pure .absent
          else node handles fuel .flow
        let value ← flowValue handles fuel ends
        return .mapping {} [(key, value)] :: (← flowItems handles fuel false)
      else if ← accept .flowSequenceEnd then return []
      else
        let item ← node handles fuel .flow
        return item :: (← flowItems handles fuel false)

/-- Reads the entries of a flow mapping up to its end. Without the mark of a key, an entry has no
value. -/
def flowEntries (handles : Handles) : Nat → (first : Bool) → Reader (List (Node × Node))
  | 0, _ => failure
  | fuel + 1, first => do
      if ← accept .flowMappingEnd then return []
      if !first then
        if !(← accept .flowEntry) then failure
      let ends := [.flowEntry, .flowMappingEnd]
      if ← accept .key then
        let key ← nodeUnless handles fuel .flow (.value :: ends)
        let value ← flowValue handles fuel ends
        return (key, value) :: (← flowEntries handles fuel false)
      else if ← accept .flowMappingEnd then return []
      else
        let key ← node handles fuel .flow
        return (key, .absent) :: (← flowEntries handles fuel false)

end

/-- Reads the directives in front of a document: at most one version, which has to be 1.1 or 1.2,
and handles, each of them once. -/
def directives (versioned : Bool) (handles : Handles) : List Token → Option (Handles × List Token)
  | .version major minor :: ts =>
      if !versioned && major == 1 && (minor == 1 || minor == 2) then directives true handles ts
      else none
  | .handle name expansion :: ts =>
      if (handles.lookup name).isSome then none
      else directives versioned ((name, expansion) :: handles) ts
  | ts => some (handles, ts)

/-- Reads a node that takes all tokens but marks for the end of the document. Each token leads to
no more than three nested calls, hence the fuel. -/
def root (handles : Handles) (ts : List Token) : Option Node := do
  let (n, r) ← (node (handles ++ standardHandles) (4 * ts.length + 4) .block).run { tokens := ts }
  if r.tokens.all (· == .documentEnd) then some n else none

end Reader

/-- A document, by its outermost node; it is missing if there is nothing in the text. -/
structure Document where
  root : Option Node

namespace Document

/-- Reads a document from tokens. Behind the mark for its start it may be left out. -/
def ofTokens? : List Token → Option Document
  | [] => some ⟨none⟩
  | ts => do
      let (handles, rest) ← Reader.directives false [] ts
      match rest with
      | .documentStart :: content =>
          if content.all (· == .documentEnd) then some ⟨some .absent⟩
          else return ⟨← Reader.root handles content⟩
      | content =>
          if content.length = ts.length then return ⟨← Reader.root handles content⟩ else none

/-- Reads the document of a text. -/
def ofText? (text : String) : Option Document :=
  (Token.scan text).bind ofTokens?

/-- The node that a reference stands for; any other node stands for itself. -/
def resolve? (d : Document) : Node → Option Node
  | .reference anchor => d.root.bind (·.anchored? anchor)
  | n => some n

end Document

end SignalExpr.Yaml
