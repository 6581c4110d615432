import Gherkin.Yaml.Tag
import Gherkin.Yaml.Token

/-!
# YAML nodes

The tokens of a document describe a graph of nodes: scalars, sequences and mappings, each with a tag
that says what it stands for. Nodes are known by their numbers. An alias stands for the node its
anchor is on, so a node can be part of several others, and of itself.
-/

namespace Gherkin.Yaml

/-- What a node is made of; its parts are given by their numbers. -/
inductive Shape where
  | scalar (text : Text)
  | sequence (items : List Nat)
  | mapping (entries : List (Nat × Nat))
  deriving DecidableEq, Repr

/-- A node of a document. -/
structure Node where
  tag : Tag
  shape : Shape
  deriving DecidableEq, Repr

/-- The nodes of a document, in the order of their numbers. -/
structure Graph where
  nodes : Array Node := #[]
  deriving DecidableEq, Repr

namespace Graph

/-- The node with the given number. -/
def node? (g : Graph) (i : Nat) : Option Node := g.nodes[i]?

/-- The node with the given number has the tag. -/
def hasTag (g : Graph) (tag : Tag) (i : Nat) : Bool := (g.node? i).any (·.tag == tag)

/-- The entries of a mapping; other nodes have none. -/
def entries (g : Graph) (i : Nat) : List (Nat × Nat) :=
  match g.node? i with
  | some ⟨_, .mapping entries⟩ => entries
  | _ => []

/-- The node with the given number is a mapping. -/
def isMapping (g : Graph) (i : Nat) : Bool :=
  match g.node? i with
  | some ⟨_, .mapping _⟩ => true
  | _ => false

/-- Adds a node, whose number is that of the nodes before it. -/
def add (g : Graph) (node : Node) : Graph := ⟨g.nodes.push node⟩

/-- Gives a node another shape. -/
def reshape (g : Graph) (i : Nat) (shape : Shape) : Graph :=
  ⟨g.nodes.modify i fun node => { node with shape }⟩

/-- Gives a node another tag. -/
def retag (g : Graph) (i : Nat) (tag : Tag) : Graph :=
  ⟨g.nodes.modify i fun node => { node with tag }⟩

end Graph

/-! ## Reading nodes -/

/-- What is known while nodes are read. -/
structure Assembly where
  /-- The tokens left. -/
  tokens : List Token
  /-- The fault behind the tokens. -/
  fault : Option Fault := none
  /-- The nodes that anchors are on. -/
  anchors : List (Text × Nat) := []
  /-- The nodes so far; those of collections that are still open are empty. -/
  graph : Graph := {}
  /-- The number of collections that are open. -/
  depth : Nat := 0
  deriving DecidableEq, Repr

/-- A step of reading nodes, which may fail. -/
abbrev Assemble := StateT Assembly (Except Fault)

namespace Assemble

/-- The greatest number of collections around a node. It comes from the limit of the interpreter,
which nests at most a thousand calls: a collection takes up two of them, and eighteen are those
around the outermost node and inside the innermost one. -/
def maxDepth : Nat := 491

/-- The next token, none at the end of the text. -/
def peek : Assemble (Option Token) := do
  match (← get).tokens with
  | token :: _ => return some token
  | [] =>
    match (← get).fault with
    | some fault => throw fault
    | none => return none

/-- Passes over the next token. -/
def advance : Assemble Unit := modify fun a => { a with tokens := a.tokens.drop 1 }

/-- The next token is one of the given ones. -/
def isAt (tokens : List Token) : Assemble Bool := do
  return (← peek).any (tokens.contains ·)

/-- Passes over the given token, which has to be next. -/
def expect (token : Token) : Assemble Unit := do
  if ← isAt [token] then advance else throw .malformed

/-- Adds a node and gives its number. -/
def add (tag : Tag) (shape : Shape) : Assemble Nat :=
  modifyGet fun a => (a.graph.nodes.size, { a with graph := a.graph.add ⟨tag, shape⟩ })

/-- Adds the node that stands for nothing written. -/
def addEmpty : Assemble Nat := add .null (.scalar [])

/-- Puts an anchor on a node. -/
def setAnchor (anchor : Option Text) (i : Nat) : Assemble Unit :=
  match anchor with
  | none => pure ()
  | some name => modify fun a => { a with anchors := (name, i) :: a.anchors }

/-- Adds a collection, which is there with its anchor before its parts are read. -/
def collect (anchor : Option Text) (tag : Tag) (parts : Assemble Shape) : Assemble Nat := do
  let i ← add tag (.sequence [])
  setAnchor anchor i
  modify fun a => { a with depth := a.depth + 1 }
  let shape ← parts
  modify fun a => { a with graph := a.graph.reshape i shape, depth := a.depth - 1 }
  return i

/-- The properties of a node in front of it: an anchor and a tag, in any order. -/
def properties : Assemble (Option Text × Option (Option Text × Text)) := do
  match ← peek with
  | some (.anchor anchor) =>
    advance
    match ← peek with
    | some (.tag handle suffix) => advance; return (some anchor, some (handle, suffix))
    | _ => return (some anchor, none)
  | some (.tag handle suffix) =>
    advance
    match ← peek with
    | some (.anchor anchor) => advance; return (some anchor, some (handle, suffix))
    | _ => return (none, some (handle, suffix))
  | _ => return (none, none)

/-- The full name of a tag. -/
def tagName (handles : List (Text × Text)) :
    Option (Option Text × Text) → Assemble (Option Text)
  | none => return none
  | some (none, name) => return some name
  | some (some handle, suffix) =>
    match handles.lookup handle with
    | none => throw .malformed
    | some uri => return some (uri ++ suffix)

/-- The tag of a collection, given the name written. -/
def collectionTag (usual : Tag) (name : Option Text) : Tag :=
  match name with
  | none | some ['!'] => usual
  | some name => Tag.ofName name

/-- The tag of a scalar, given the name written. -/
def scalarTag (plain : Bool) (name : Option Text) (text : Text) : Tag :=
  match name with
  | none => if plain then Tag.ofSpelling text else .text
  | some ['!'] => Tag.ofSpelling text
  | some name => Tag.ofName name

/-- Adds a scalar. -/
def addScalar (anchor : Option Text) (tag : Tag) (text : Text) : Assemble Nat := do
  let i ← add tag (.scalar text)
  setAnchor anchor i
  return i

mutual

/-- Reads a node. In block context it may be a block collection, and below a key a sequence that is
not indented. The last argument bounds the number of nested steps. -/
def node (handles : List (Text × Text)) (inBlock belowKey : Bool) : Nat → Assemble Nat
  | 0 => throw .malformed
  | fuel + 1 => do
    if maxDepth < (← get).depth then throw .tooDeep
    match ← peek with
    | some (.alias name) =>
      match (← get).anchors.lookup name with
      | none => throw .malformed
      | some i => advance; return i
    | _ =>
      let (anchor, written) ← properties
      let tag ← tagName handles written
      let next ← peek
      if anchor.any ((← get).anchors.lookup · |>.isSome) then throw .malformed
      let list := collect anchor (collectionTag .sequence tag)
      let map := collect anchor (collectionTag .mapping tag)
      match next, inBlock, belowKey with
      | some (.scalar plain text), _, _ => advance; addScalar anchor (scalarTag plain tag text) text
      | some .flowSequenceStart, _, _ =>
        advance; list (.sequence <$> flowItems handles true fuel)
      | some .flowMappingStart, _, _ =>
        advance; map (.mapping <$> flowEntries handles true fuel)
      | some .blockEntry, _, true => list (.sequence <$> looseItems handles fuel)
      | some .blockSequenceStart, true, _ =>
        advance; list (.sequence <$> blockItems handles fuel)
      | some .blockMappingStart, true, _ =>
        advance; map (.mapping <$> blockEntries handles fuel)
      | _, _, _ =>
        if anchor.isSome || tag.isSome then addScalar anchor (scalarTag true tag []) []
        else throw .malformed

/-- Reads a node unless one of the given tokens is next, which leaves it empty. -/
def nodeUnless (handles : List (Text × Text)) (inBlock belowKey : Bool) (tokens : List Token) :
    Nat → Assemble Nat
  | 0 => throw .malformed
  | fuel + 1 => do
    if ← isAt tokens then addEmpty else node handles inBlock belowKey fuel

/-- Reads a node after a colon; without one, it is empty. -/
def valueUnless (handles : List (Text × Text)) (inBlock belowKey : Bool) (tokens : List Token) :
    Nat → Assemble Nat
  | 0 => throw .malformed
  | fuel + 1 => do
    if ← isAt [.value] then
      advance
      nodeUnless handles inBlock belowKey tokens fuel
    else addEmpty

/-- Reads the items of a block sequence. -/
def blockItems (handles : List (Text × Text)) : Nat → Assemble (List Nat)
  | 0 => throw .malformed
  | fuel + 1 => do
    if ← isAt [.blockEntry] then
      advance
      let item ← nodeUnless handles true false [.blockEntry, .blockEnd] fuel
      return item :: (← blockItems handles fuel)
    else
      expect .blockEnd
      return []

/-- Reads the items of a sequence that is not indented below its key. -/
def looseItems (handles : List (Text × Text)) : Nat → Assemble (List Nat)
  | 0 => throw .malformed
  | fuel + 1 => do
    if ← isAt [.blockEntry] then
      advance
      let item ← nodeUnless handles true false [.blockEntry, .key, .value, .blockEnd] fuel
      return item :: (← looseItems handles fuel)
    else return []

/-- Reads the entries of a block mapping. -/
def blockEntries (handles : List (Text × Text)) : Nat → Assemble (List (Nat × Nat))
  | 0 => throw .malformed
  | fuel + 1 => do
    if ← isAt [.key] then
      advance
      let key ← nodeUnless handles true true [.key, .value, .blockEnd] fuel
      let value ← valueUnless handles true true [.key, .value, .blockEnd] fuel
      return (key, value) :: (← blockEntries handles fuel)
    else
      expect .blockEnd
      return []

/-- Reads the items of a flow sequence; an entry with a key is a mapping of its own. -/
def flowItems (handles : List (Text × Text)) (first : Bool) : Nat → Assemble (List Nat)
  | 0 => throw .malformed
  | fuel + 1 => do
    if ← isAt [.flowSequenceEnd] then
      advance
      return []
    unless first do expect .flowEntry
    if ← isAt [.flowSequenceEnd] then
      advance
      return []
    let item ← if ← isAt [.key] then
        collect none .mapping do
          advance
          let key ← nodeUnless handles false false [.value, .flowEntry, .flowSequenceEnd] fuel
          let value ← valueUnless handles false false [.flowEntry, .flowSequenceEnd] fuel
          return .mapping [(key, value)]
      else node handles false false fuel
    return item :: (← flowItems handles false fuel)

/-- Reads the entries of a flow mapping; an entry without a mark has no value. -/
def flowEntries (handles : List (Text × Text)) (first : Bool) :
    Nat → Assemble (List (Nat × Nat))
  | 0 => throw .malformed
  | fuel + 1 => do
    if ← isAt [.flowMappingEnd] then
      advance
      return []
    unless first do expect .flowEntry
    if ← isAt [.flowMappingEnd] then
      advance
      return []
    let entry ← if ← isAt [.key] then do
        advance
        let key ← nodeUnless handles false false [.value, .flowEntry, .flowMappingEnd] fuel
        let value ← valueUnless handles false false [.flowEntry, .flowMappingEnd] fuel
        pure (key, value)
      else do
        let key ← node handles false false fuel
        pure (key, ← addEmpty)
    return entry :: (← flowEntries handles false fuel)

end

/-! ## Reading documents -/

/-- The short forms of tags that need no directive. -/
def defaultHandles : List (Text × Text) :=
  [(['!'], ['!']), (['!', '!'], Tag.space.toList)]

/-- Reads the directives in front of a document: the short forms of tags they give, and the tokens
after them. The language's major version has to be one, and nothing may be said twice. -/
def directivesFrom (versioned : Bool) (handles : List (Text × Text)) :
    List Token → Option (List (Text × Text) × List Token)
  | .directive (.version major _) :: rest =>
    if versioned || major != 1 then none else directivesFrom true handles rest
  | .directive (.handle handle uri) :: rest =>
    if (handles.lookup handle).isSome then none
    else directivesFrom versioned ((handle, uri) :: handles) rest
  | .directive .other :: rest => directivesFrom versioned handles rest
  | tokens => some (handles, tokens)

/-- Passes over directives and the mark that starts a document: the short forms of tags. -/
def documentStart : Assemble (List (Text × Text)) := do
  match directivesFrom false [] (← get).tokens with
  | none => throw .malformed
  | some (handles, rest) =>
    modify fun a => { a with tokens := rest }
    expect .documentStart
    return handles

/-- Reads the node of a document whose start has been passed; it may be empty. -/
def content (handles : List (Text × Text)) (optional : Bool) : Assemble Nat := do
  let bare := match ← peek with
    | none | some .documentStart | some .documentEnd | some (.directive _) => true
    | _ => false
  if optional && bare then addEmpty
  else node handles true false (4 * (← get).tokens.length + 4)

/-- Passes over the marks that end a document, after which the text has to end. A second document
is refused once its start has been read. -/
def documentEnd : Assemble Unit := do
  modify fun a => { a with tokens := a.tokens.dropWhile (· == .documentEnd) }
  match ← peek with
  | none => pure ()
  | some _ => discard documentStart; throw .malformed

/-- Reads a text with at most one document: the number of its node. -/
def document : Assemble (Option Nat) := do
  match ← peek with
  | none => return none
  | some next =>
    let explicit := match next with
      | .directive _ | .documentStart => true
      | _ => false
    let handles ← if explicit then documentStart else pure []
    let root ← content (handles ++ defaultHandles) explicit
    documentEnd
    return some root

end Assemble

/-- The nodes of a text with at most one document and the number of the outermost, given the text's
tokens; a text without a document has none. -/
def Graph.ofTokens (scanned : Scanned) : Except Fault (Option (Graph × Nat)) :=
  match Assemble.document.run { tokens := scanned.tokens, fault := scanned.fault } with
  | .error fault => .error fault
  | .ok (none, _) => .ok none
  | .ok (some root, assembly) => .ok (some (assembly.graph, root))

end Gherkin.Yaml
