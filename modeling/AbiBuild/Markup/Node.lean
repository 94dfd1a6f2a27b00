import AbiBuild.Markup.Implicit
import AbiBuild.Markup.Lexer

namespace AbiBuild.Markup

inductive Node
  | scalar (tag : String) (text : String)
  | sequence (tag : String) (items : List Node)
  | mapping (tag : String) (entries : List (Node × Node))
  | enclosing (isMap : Bool)
  deriving Repr, Inhabited

-- What an anchor marks; a collection that is still being read is only known by its kind.
inductive Anchored
  | complete (node : Node)
  | underWay (isMap : Bool)

structure Reading where
  tokens : List Token
  handles : List (String × String)
  anchors : List (String × Anchored)

abbrev Read (α : Type) := StateT Reading (Except Fault) α

namespace Read

def malformed : Read α := throw (.malformed .nodes)

def dangling : Read α := throw (.malformed .references)

def require (holds : Bool) : Read Unit := if holds then pure () else malformed

def peek : Read Token := do
  match (← get).tokens with
  | .refused fault :: _ => throw fault
  | t :: _ => pure t
  | [] => malformed

def drop : Read Unit := modify fun r => { r with tokens := r.tokens.drop 1 }

def take : Read Token := do
  let t ← peek
  drop
  return t

def mark (name : Option String) (a : Anchored) : Read Unit :=
  match name with
  | some name => modify fun r => { r with anchors := (name, a) :: r.anchors }
  | none => pure ()

-- An anchor may be set only once.
def checkAnchor (name : Option String) : Read Unit := do
  match name with
  | some name => if ((← get).anchors.lookup name).isSome then dangling
  | none => pure ()

def anchored (name : String) : Read Node := do
  match (← get).anchors.lookup name with
  | some (.complete node) => return node
  | some (.underWay isMap) => return .enclosing isMap
  | none => dangling

def emptyNode : Node := .scalar Implicit.nullTag ""

-- A handle in front of a tag stands for its meaning.
def tagOf (handle : Option String) (suffix : String) : Read String := do
  match handle with
  | none => return suffix
  | some handle =>
    match (← get).handles.lookup handle with
    | some meaning => return meaning ++ suffix
    | none => malformed

structure Properties where
  anchor : Option String
  tag : Option String

def anchor? : Read (Option String) := do
  match ← peek with
  | .anchor name => drop; return some name
  | _ => return none

def tag? : Read (Option (Option String × String)) := do
  match ← peek with
  | .tag handle suffix => drop; return some (handle, suffix)
  | _ => return none

def meaning (t : Option (Option String × String)) : Read (Option String) :=
  match t with
  | some (handle, suffix) => do return some (← tagOf handle suffix)
  | none => pure none

def properties : Read Properties := do
  match ← anchor? with
  | some anchor =>
    let tag ← tag?
    return ⟨some anchor, ← meaning tag⟩
  | none =>
    let tag ← tag?
    let anchor ← if tag.isSome then anchor? else pure none
    return ⟨anchor, ← meaning tag⟩

-- The tag `!` asks for the tag that the text implies when it is not quoted.
def scalarNode (tag : Option String) (text : String) (plain : Bool) : Node :=
  match tag with
  | none => .scalar (if plain then Implicit.tagOf text else Implicit.textTag) text
  | some "!" => .scalar (Implicit.tagOf text) text
  | some tag => .scalar tag text

def collectionTag (given : Option String) (standard : String) : String :=
  match given with
  | none => standard
  | some "!" => standard
  | some tag => tag

def leaf (p : Properties) (node : Node) : Read Node := do
  checkAnchor p.anchor
  mark p.anchor (.complete node)
  return node

def sequence (p : Properties) (items : Read (List Node)) : Read Node := do
  checkAnchor p.anchor
  mark p.anchor (.underWay false)
  let node := Node.sequence (collectionTag p.tag Implicit.sequenceTag) (← items)
  mark p.anchor (.complete node)
  return node

def mapping (p : Properties) (entries : Read (List (Node × Node))) : Read Node := do
  checkAnchor p.anchor
  mark p.anchor (.underWay true)
  let node := Node.mapping (collectionTag p.tag Implicit.mappingTag) (← entries)
  mark p.anchor (.complete node)
  return node

-- Where a node is left out, an empty one stands.
def orEmpty (stop : Token → Bool) (read : Read Node) : Read Node := do
  if stop (← peek) then return emptyNode else read

def isKey : Token → Bool
  | .key => true
  | _ => false

def isValue : Token → Bool
  | .value => true
  | _ => false

def isBlockEntry : Token → Bool
  | .blockEntry => true
  | _ => false

def isBlockEnd : Token → Bool
  | .blockEnd => true
  | _ => false

def isFlowEntry : Token → Bool
  | .flowEntry => true
  | _ => false

def isSequenceEnd : Token → Bool
  | .flowSequenceEnd => true
  | _ => false

def isMappingEnd : Token → Bool
  | .flowMappingEnd => true
  | _ => false

def took (t : Token → Bool) : Read Bool := do
  if t (← peek) then drop; return true else return false

def endsBlockValue (t : Token) : Bool := isKey t || isValue t || isBlockEnd t

-- Entries of a collection in brackets are divided by commas; a last comma may stand alone.
def divided (isFirst : Bool) : Read Unit := do
  if !isFirst then require (← took isFlowEntry)

-- An anchor or a tag may stand before nothing at all.
def bare (p : Properties) : Read Node :=
  if p.anchor.isSome || p.tag.isSome then leaf p (scalarNode p.tag "" true) else malformed

mutual

def node (isBlock isIndentless : Bool) : Nat → Read Node
  | 0 => malformed
  | fuel + 1 => do
    match ← peek with
    | .reference name => drop; anchored name
    | _ =>
      let p ← properties
      match ← peek with
      | .blockEntry =>
        if isIndentless then sequence p (indentlessItems fuel) else bare p
      | .scalar text plain => drop; leaf p (scalarNode p.tag text plain)
      | .flowSequenceStart => drop; sequence p (flowItems true fuel)
      | .flowMappingStart => drop; mapping p (flowEntries true fuel)
      | .blockSequenceStart => if isBlock then drop; sequence p (blockItems fuel) else bare p
      | .blockMappingStart => if isBlock then drop; mapping p (blockEntries fuel) else bare p
      | _ => bare p

def blockItems : Nat → Read (List Node)
  | 0 => malformed
  | fuel + 1 => do
    if ← took isBlockEntry then
      let item ← orEmpty (fun t => isBlockEntry t || isBlockEnd t) (node true false fuel)
      return item :: (← blockItems fuel)
    else
      require (← took isBlockEnd)
      return []

-- Items at the indentation of the mapping they stand in.
def indentlessItems : Nat → Read (List Node)
  | 0 => malformed
  | fuel + 1 => do
    if ← took isBlockEntry then
      let item ← orEmpty (fun t => isBlockEntry t || endsBlockValue t) (node true false fuel)
      return item :: (← indentlessItems fuel)
    else return []

def blockEntries : Nat → Read (List (Node × Node))
  | 0 => malformed
  | fuel + 1 => do
    if isBlockEnd (← peek) then drop; return []
    else
      let key ← if ← took isKey then orEmpty endsBlockValue (node true true fuel)
        else do
          require false
          pure emptyNode
      let value ← if ← took isValue then orEmpty endsBlockValue (node true true fuel)
        else pure emptyNode
      return (key, value) :: (← blockEntries fuel)

-- A key inside a sequence in brackets makes a mapping of one entry.
def flowItems (isFirst : Bool) : Nat → Read (List Node)
  | 0 => malformed
  | fuel + 1 => do
    if ← took isSequenceEnd then return []
    divided isFirst
    if ← took isKey then
      let item ← mapping ⟨none, none⟩ (do return [← flowPair isSequenceEnd fuel])
      return item :: (← flowItems false fuel)
    else if ← took isSequenceEnd then return []
    else
      let item ← node false false fuel
      return item :: (← flowItems false fuel)

def flowPair (isEnd : Token → Bool) : Nat → Read (Node × Node)
  | 0 => malformed
  | fuel + 1 => do
    let key ← orEmpty (fun t => isValue t || isFlowEntry t || isEnd t) (node false false fuel)
    let value ← if ← took isValue then
        orEmpty (fun t => isFlowEntry t || isEnd t) (node false false fuel)
      else pure emptyNode
    return (key, value)

def flowEntries (isFirst : Bool) : Nat → Read (List (Node × Node))
  | 0 => malformed
  | fuel + 1 => do
    if ← took isMappingEnd then return []
    divided isFirst
    if ← took isKey then
      let entry ← flowPair isMappingEnd fuel
      return entry :: (← flowEntries false fuel)
    else if ← took isMappingEnd then return []
    else
      let key ← node false false fuel
      return (key, emptyNode) :: (← flowEntries false fuel)

end

def standardHandles : List (String × String) := [("!", "!"), ("!!", Implicit.standardStem)]

-- Directives before a document. The version has to be one; neither it nor a handle may be given twice.
def directives : Nat → Bool → List (String × String) → Read (List (String × String))
  | 0, _, _ => malformed
  | fuel + 1, hasVersion, handles => do
    match ← peek with
    | .directive (.version major) =>
      require (!hasVersion && major = 1)
      drop
      directives fuel true handles
    | .directive (.tag handle meaning) =>
      require (handles.lookup handle).isNone
      drop
      directives fuel hasVersion ((handle, meaning) :: handles)
    | .directive (.other _) => drop; directives fuel hasVersion handles
    | _ => return handles

def isDocumentEdge : Token → Bool
  | .directive _ => true
  | .documentStart => true
  | .documentEnd => true
  | .streamEnd => true
  | _ => false

def isDocumentEnd : Token → Bool
  | .documentEnd => true
  | _ => false

def isStreamEnd : Token → Bool
  | .streamEnd => true
  | _ => false

def isDocumentStart : Token → Bool
  | .documentStart => true
  | _ => false

def skipEnds : Nat → Read Unit
  | 0 => malformed
  | fuel + 1 => do
    if ← took isDocumentEnd then skipEnds fuel

def explicitDocument (fuel : Nat) : Read Node := do
  let given ← directives fuel false []
  require (← took isDocumentStart)
  modify fun r => { r with handles := given ++ standardHandles }
  orEmpty isDocumentEdge (node true false fuel)

def isExplicit : Token → Bool
  | .directive _ => true
  | .documentStart => true
  | _ => false

-- At most one document, and nothing after it.
def document (fuel : Nat) : Read (Option Node) := do
  let first ← peek
  if isStreamEnd first then return none
  let root ← if isExplicit first then explicitDocument fuel else node true false fuel
  skipEnds fuel
  if isStreamEnd (← peek) then return some root
  let _ ← directives fuel false []
  require (isDocumentStart (← peek))
  dangling

end Read

def Node.ofTokens (tokens : List Token) : Except Fault (Option Node) :=
  (Read.document (8 * (tokens.length + 1))).run' ⟨tokens, Read.standardHandles, []⟩

end AbiBuild.Markup
