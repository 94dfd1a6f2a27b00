import AbiBuild.Markup.Scalar

namespace AbiBuild.Markup

-- A token that turns out to begin a key if a colon follows on its line.
structure PossibleKey where
  position : Nat
  required : Bool
  index : Nat
  line : Nat
  column : Nat
  deriving Repr

-- `keys` has at most one entry for each flow level, `indents` the enclosing indentations.
structure Lexer where
  cursor : Cursor
  flow : Nat
  indent : Int
  indents : List Int
  mayStartKey : Bool
  keys : List (Nat × PossibleKey)
  tokens : Array Token
  done : Bool

namespace Lexer

abbrev Scan := Except Fault Lexer

def start (text : List Char) : Lexer := ⟨.start text, 0, -1, [], true, [], #[], false⟩

def inFlow (l : Lexer) : Bool := l.flow ≠ 0

def emit (l : Lexer) (t : Token) : Lexer := { l with tokens := l.tokens.push t }

def insertAt (l : Lexer) (position : Nat) (t : Token) : Lexer :=
  { l with
    tokens := (l.tokens.extract 0 position).push t ++ l.tokens.extract position l.tokens.size }

def moveTo (l : Lexer) (c : Cursor) : Lexer := { l with cursor := c }

def allowKey (l : Lexer) (may : Bool) : Lexer := { l with mayStartKey := may }

def maxKeySize : Nat := 1024

def isStale (l : Lexer) (key : PossibleKey) : Bool :=
  key.line ≠ l.cursor.line || maxKeySize < l.cursor.index - key.index

-- Forgets what can no longer be a key. What had to be one is refused.
def dropStale (l : Lexer) : Scan := do
  check (!l.keys.any fun (_, key) => l.isStale key && key.required)
  return { l with keys := l.keys.filter fun (_, key) => !l.isStale key }

def dropKey (l : Lexer) : Scan := do
  check (!l.keys.any fun (level, key) => level = l.flow && key.required)
  return { l with keys := l.keys.filter fun (level, _) => level ≠ l.flow }

def saveKey (l : Lexer) : Scan := do
  if l.mayStartKey then
    let l ← l.dropKey
    let c := l.cursor
    let required := !l.inFlow && l.indent = Int.ofNat c.column
    return { l with keys := (l.flow, ⟨l.tokens.size, required, c.index, c.line, c.column⟩) :: l.keys }
  else return l

def closeTo (column : Int) (indent : Int) (tokens : Array Token) : List Int → Int × List Int × Array Token
  | [] => (indent, [], tokens)
  | outer :: rest =>
    if column < indent then closeTo column outer (tokens.push .blockEnd) rest
    else (indent, outer :: rest, tokens)

def unwind (l : Lexer) (column : Int) : Lexer :=
  if l.inFlow then l
  else
    let (indent, indents, tokens) := closeTo column l.indent l.tokens l.indents
    { l with indent, indents, tokens }

def deepen (l : Lexer) (column : Nat) : Option Lexer :=
  if l.indent < Int.ofNat column then
    some { l with indent := Int.ofNat column, indents := l.indent :: l.indents }
  else none

def openBlock (l : Lexer) (t : Token) : Lexer :=
  match l.deepen l.cursor.column with
  | some l => l.emit t
  | none => l

def skipIgnored : Nat → Lexer → Lexer
  | 0, l => l
  | fuel + 1, l =>
    let c := l.cursor.skipSpaces
    let c := if c.isAt '#' then c.skipToBreak else c
    match c.takeBreak with
    | (some _, c) => skipIgnored fuel { l with cursor := c, mayStartKey := l.mayStartKey || !l.inFlow }
    | (none, _) => l.moveTo c

def toNextToken (l : Lexer) : Lexer :=
  let c := l.cursor
  let c := if c.index = 0 ∧ c.peek.any isByteOrderMark then c.next else c
  skipIgnored (c.rest.length + 1) (l.moveTo c)

def streamEnd (l : Lexer) : Scan := do
  let l ← (l.unwind (-1)).dropKey
  return { l.emit .streamEnd with mayStartKey := false, keys := [], done := true }

def directiveLine (l : Lexer) : Scan := do
  let l ← (l.unwind (-1)).dropKey
  let (d, c) ← directive l.cursor
  return ((l.allowKey false).emit (.directive d)).moveTo c

def documentMark (l : Lexer) (t : Token) : Scan := do
  let l ← (l.unwind (-1)).dropKey
  return ((l.allowKey false).emit t).moveTo (l.cursor.skip 3)

def openFlow (l : Lexer) (t : Token) : Scan := do
  let l ← l.saveKey
  return ({ l with flow := l.flow + 1, mayStartKey := true }.emit t).moveTo l.cursor.next

-- A bracket that closes nothing is left to whoever reads the tokens.
def closeFlow (l : Lexer) (t : Token) : Scan := do
  let l ← l.dropKey
  return ({ l with flow := l.flow - 1, mayStartKey := false }.emit t).moveTo l.cursor.next

def flowEntry (l : Lexer) : Scan := do
  let l ← (l.allowKey true).dropKey
  return (l.emit .flowEntry).moveTo l.cursor.next

def blockEntry (l : Lexer) : Scan := do
  check (l.inFlow || l.mayStartKey)
  let l := if l.inFlow then l else l.openBlock .blockSequenceStart
  let l ← (l.allowKey true).dropKey
  return (l.emit .blockEntry).moveTo l.cursor.next

def explicitKey (l : Lexer) : Scan := do
  check (l.inFlow || l.mayStartKey)
  let l := if l.inFlow then l else l.openBlock .blockMappingStart
  let l ← (l.allowKey (!l.inFlow)).dropKey
  return (l.emit .key).moveTo l.cursor.next

-- The key was there before its colon: its tokens go where it began.
def valueOfKey (l : Lexer) (key : PossibleKey) : Lexer :=
  let l := { l with keys := l.keys.filter fun (level, _) => level ≠ l.flow }
  let l := l.insertAt key.position .key
  let l := if l.inFlow then l
    else match l.deepen key.column with
      | some l => l.insertAt key.position .blockMappingStart
      | none => l
  ((l.allowKey false).emit .value).moveTo l.cursor.next

def valueAlone (l : Lexer) : Scan := do
  check (l.inFlow || l.mayStartKey)
  let l := if l.inFlow then l else l.openBlock .blockMappingStart
  let l ← (l.allowKey (!l.inFlow)).dropKey
  return (l.emit .value).moveTo l.cursor.next

def value (l : Lexer) : Scan :=
  match l.keys.find? fun (level, _) => level = l.flow with
  | some (_, key) => .ok (l.valueOfKey key)
  | none => l.valueAlone

def keyStart (l : Lexer) (scan : Cursor → Except Fault (Token × Cursor)) : Scan := do
  let l ← l.saveKey
  let (t, c) ← scan l.cursor
  return ((l.allowKey false).emit t).moveTo c

def block (l : Lexer) (isFolded : Bool) : Scan := do
  let l ← (l.allowKey true).dropKey
  let (cs, c) ← blockScalar isFolded l.indent l.cursor
  return (l.emit (.scalar (word cs) false)).moveTo c

def quotedToken (quote : Char) (c : Cursor) : Except Fault (Token × Cursor) := do
  let (cs, c) ← quotedScalar quote c
  return (.scalar (word cs) false, c)

def plain (l : Lexer) : Scan := do
  let l ← l.saveKey
  let p := plainScalar l.inFlow (l.indent + 1) l.cursor
  return ((l.allowKey p.mayStartKey).emit (.scalar (word p.text) true)).moveTo p.cursor

def isIndicator (c : Char) : Bool :=
  c ∈ ['-', '?', ':', ',', '[', ']', '\x7b', '\x7d', '#', '&', '*', '!', '|', '>', Text.apostrophe,
    Text.doubleQuote, '%', '@', '\x60']

def startsPlain (l : Lexer) (c : Char) : Bool :=
  (!isIndicator c && !isSpaceOrTab c && !isBreak c) ||
    (!l.cursor.blankAt 1 && (c = '-' || (!l.inFlow && (c = '?' || c = ':'))))

def tokenAt (l : Lexer) (ch : Char) : Scan :=
  let c := l.cursor
  if ch = '%' ∧ c.column = 0 then l.directiveLine
  else if ch = '-' ∧ c.column = 0 ∧ c.atDocumentMark then l.documentMark .documentStart
  else if ch = '.' ∧ c.column = 0 ∧ c.atDocumentMark then l.documentMark .documentEnd
  else if ch = '[' then l.openFlow .flowSequenceStart
  else if ch = '\x7b' then l.openFlow .flowMappingStart
  else if ch = ']' then l.closeFlow .flowSequenceEnd
  else if ch = '\x7d' then l.closeFlow .flowMappingEnd
  else if ch = ',' then l.flowEntry
  else if ch = '-' ∧ c.blankAt 1 then l.blockEntry
  else if ch = '?' ∧ (l.inFlow ∨ c.blankAt 1) then l.explicitKey
  else if ch = ':' ∧ (l.inFlow ∨ c.blankAt 1) then l.value
  else if ch = '*' then l.keyStart fun c => (anchorName c).map fun (name, c) => (.reference name, c)
  else if ch = '&' then l.keyStart fun c => (anchorName c).map fun (name, c) => (.anchor name, c)
  else if ch = '!' then l.keyStart tag
  else if ch = '|' ∧ !l.inFlow then l.block false
  else if ch = '>' ∧ !l.inFlow then l.block true
  else if ch = Text.apostrophe ∨ ch = Text.doubleQuote then l.keyStart (quotedToken ch)
  else if l.startsPlain ch then l.plain
  else .error (.malformed .tokens)

def step (l : Lexer) : Scan := do
  let l ← l.toNextToken.dropStale
  let l := l.unwind (Int.ofNat l.cursor.column)
  match l.cursor.peek with
  | none => l.streamEnd
  | some ch => l.tokenAt ch

-- Where the text cannot be read on, the tokens that are certain come before the refusal: those from the
-- first possible key on may still change.
def refuse (l : Lexer) (fault : Fault) : List Token :=
  let certain := l.keys.foldl (fun n (_, key) => min n key.position) l.tokens.size
  (l.tokens.extract 0 certain).toList ++ [.refused fault]

-- Every step but the last takes at least one character.
def run : Nat → Lexer → List Token
  | 0, l => l.refuse (.malformed .tokens)
  | fuel + 1, l =>
    if l.done then l.tokens.toList
    else
      match l.step with
      | .ok l => run fuel l
      | .error fault => l.refuse fault

end Lexer

def tokens (text : List Char) : List Token := Lexer.run (text.length + 2) (.start text)

end AbiBuild.Markup
