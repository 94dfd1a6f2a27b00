import AbiBuild.Markup.Token

namespace AbiBuild.Markup

abbrev Scanned := Except Fault (List Char × Cursor)

def blankLines (fuel : Nat) (c : Cursor) (skipBlanks : Cursor → Cursor) : List Char × Cursor :=
  match fuel with
  | 0 => ([], c)
  | fuel + 1 =>
    let c := skipBlanks c
    match c.takeBreak with
    | (some b, c) =>
      let (more, c) := blankLines fuel c skipBlanks
      (b :: more, c)
    | (none, _) => ([], c)

def folded (first : Char) (others : List Char) : List Char :=
  (if first ≠ '\n' then [first] else if others.isEmpty then [' '] else []) ++ others

-- Line ends inside a quoted scalar. A document mark must not stand there.
def quotedBreaks : Nat → Cursor → Scanned
  | 0, c => .ok ([], c)
  | fuel + 1, c =>
    if c.atDocumentMark then .error (.malformed .tokens)
    else
      let c := c.skipWhile isSpaceOrTab
      match c.takeBreak with
      | (some b, c) => do
        let (more, c) ← quotedBreaks fuel c
        return (b :: more, c)
      | (none, _) => .ok ([], c)

def quotedSpaces (c : Cursor) : Scanned := do
  let (blanks, c) := c.span isSpaceOrTab
  check c.peek.isSome
  match c.takeBreak with
  | (some b, c) =>
    let (more, c) ← quotedBreaks (c.rest.length + 1) c
    return (folded b more, c)
  | (none, _) => return (blanks, c)

def simpleEscapes : List (Char × Nat) :=
  [('0', 0x00), ('a', 0x07), ('b', 0x08), ('t', 0x09), ('\t', 0x09), ('n', 0x0A), ('v', 0x0B),
   ('f', 0x0C), ('r', 0x0D), ('e', 0x1B), (' ', 0x20), (Text.doubleQuote, 0x22),
   (Text.backslash, 0x5C), ('/', 0x2F), ('N', 0x85), ('_', 0xA0), ('L', 0x2028), ('P', 0x2029)]

def escapeWidth : Char → Option Nat
  | 'x' => some 2
  | 'u' => some 4
  | 'U' => some 8
  | _ => none

def maxSmallInt : Nat := 2147483647

def character (n : Nat) : Except Fault Char :=
  if maxSmallInt < n then .error (.scalar .characterSize)
  else if 0x10FFFF < n then .error (.scalar .characterPoint)
  else if 0xD800 ≤ n ∧ n ≤ 0xDFFF then .error (.scalar .halfPair)
  else .ok (Char.ofNat n)

def hexNumber (cs : List Char) : Option Nat :=
  cs.foldlM (fun n c => (hexDigitValue? c).map (16 * n + ·)) 0

-- What follows a backslash in double quotes. An escaped line end joins two lines without a space.
def escape (c : Cursor) : Scanned := do
  match c.peek with
  | none => .error (.malformed .tokens)
  | some ch =>
    match simpleEscapes.lookup ch, escapeWidth ch with
    | some n, _ => return ([Char.ofNat n], c.next)
    | none, some width =>
      let digits := c.next.rest.take width
      check (digits.length = width)
      match hexNumber digits with
      | none => .error (.malformed .tokens)
      | some n => return ([← character n], c.next.skip width)
    | none, none =>
      if isBreak ch then quotedBreaks c.rest.length c.takeBreak.2 else .error (.malformed .tokens)

def isQuotedStop (c : Char) : Bool :=
  c = Text.apostrophe || c = Text.doubleQuote || c = Text.backslash || isSpaceOrTab c || isBreak c

def quotedWord (quote : Char) : Nat → Cursor → Scanned
  | 0, c => .ok ([], c)
  | fuel + 1, c => do
    let (taken, c) := c.span fun ch => !isQuotedStop ch
    let double : Bool := quote = Text.doubleQuote
    let goOn (more : List Char) (c : Cursor) : Scanned := do
      let (rest, c) ← quotedWord quote fuel c
      return (taken ++ more ++ rest, c)
    match c.peek with
    | none => return (taken, c)
    | some ch =>
      if ch = Text.apostrophe ∧ !double then
        if c.peekAt 1 = some Text.apostrophe then goOn [ch] (c.skip 2) else return (taken, c)
      else if ch = Text.apostrophe then goOn [ch] c.next
      else if !double ∧ (ch = Text.doubleQuote ∨ ch = Text.backslash) then goOn [ch] c.next
      else if double ∧ ch = Text.backslash then
        let (more, c) ← escape c.next
        goOn more c
      else return (taken, c)

def quotedFrom (quote : Char) : Nat → Cursor → Scanned
  | 0, _ => .error (.malformed .tokens)
  | fuel + 1, c => do
    if c.isAt quote then return ([], c.next)
    let (blanks, c) ← quotedSpaces c
    let (taken, c) ← quotedWord quote (c.rest.length + 1) c
    let (rest, c) ← quotedFrom quote fuel c
    return (blanks ++ taken ++ rest, c)

def quotedScalar (quote : Char) (c : Cursor) : Scanned := do
  let (taken, c) ← quotedWord quote (c.rest.length + 1) c.next
  let (rest, c) ← quotedFrom quote (c.rest.length + 1) c
  return (taken ++ rest, c)

def isFlowMark (c : Char) : Bool := c = ',' || c = '[' || c = ']' || c = '\x7b' || c = '\x7d'

def stopsPlain (inFlow : Bool) : List Char → Bool
  | [] => true
  | ':' :: rest =>
    match rest with
    | [] => true
    | c :: _ => isSpaceOrTab c || isBreak c || (inFlow && isFlowMark c)
  | c :: _ => isSpaceOrTab c || isBreak c || (inFlow && (isFlowMark c || c = '?'))

def plainWord (inFlow : Bool) : List Char → List Char
  | [] => []
  | c :: rest => if stopsPlain inFlow (c :: rest) then [] else c :: plainWord inFlow rest

-- The line ends after a line end in a plain scalar; none where a document mark follows.
def plainBreaks : Nat → Cursor → Option (List Char) × Cursor
  | 0, c => (some [], c)
  | fuel + 1, c =>
    let c := c.skipSpaces
    match c.takeBreak with
    | (none, _) => (some [], c)
    | (some b, c) =>
      if c.atDocumentMark then (none, c)
      else
        let (more, c) := plainBreaks fuel c
        (more.map (b :: ·), c)

structure Gap where
  text : List Char
  overLines : Bool
  cursor : Cursor

def plainGap (c : Cursor) : Gap :=
  let (blanks, c) := c.span (· = ' ')
  match c.takeBreak with
  | (none, _) => ⟨blanks, false, c⟩
  | (some b, c) =>
    if c.atDocumentMark then ⟨[], true, c⟩
    else
      match plainBreaks (c.rest.length + 1) c with
      | (none, c) => ⟨[], true, c⟩
      | (some more, c) => ⟨folded b more, true, c⟩

-- `mayStartKey` tells whether the last gap went over a line end.
structure Plain where
  text : List Char
  mayStartKey : Bool
  cursor : Cursor

def plainFrom (inFlow : Bool) (indent : Int) (gap : List Char) (mayStartKey : Bool) :
    Nat → Cursor → Plain
  | 0, c => ⟨[], mayStartKey, c⟩
  | fuel + 1, c =>
    let taken := plainWord inFlow c.rest
    if c.isAt '#' || taken.isEmpty then ⟨[], mayStartKey, c⟩
    else
      let next := plainGap (c.skip taken.length)
      if next.text.isEmpty || next.cursor.isAt '#' ||
          (!inFlow && decide (Int.ofNat next.cursor.column < indent)) then
        ⟨gap ++ taken, next.overLines, next.cursor⟩
      else
        let rest := plainFrom inFlow indent next.text next.overLines fuel next.cursor
        ⟨gap ++ taken ++ rest.text, rest.mayStartKey, rest.cursor⟩

-- Outside of flow, a further line has to be indented at least so far.
def plainScalar (inFlow : Bool) (indent : Int) (c : Cursor) : Plain :=
  plainFrom inFlow indent [] false (c.rest.length + 1) c

inductive Chomping
  | strip
  | clip
  | keep
  deriving DecidableEq, Repr

structure BlockHeader where
  chomping : Chomping
  increment : Option Nat
  deriving Repr

def chompingMark : Option Char → Option Chomping
  | some '+' => some .keep
  | some '-' => some .strip
  | _ => none

-- A digit from one to nine; a zero is refused.
def incrementMark (c : Cursor) : Except Fault (Option Nat × Cursor) :=
  match c.peek with
  | some ch =>
    if ch = '0' then .error (.malformed .tokens)
    else if isDecimal ch then .ok (some (ch.toNat - 48), c.next)
    else .ok (none, c)
  | none => .ok (none, c)

-- The two indicators may come in either order.
def blockHeader (c : Cursor) : Except Fault (BlockHeader × Cursor) := do
  let (header, c) ← match chompingMark c.peek with
    | some chomping => do
      let (increment, c) ← incrementMark c.next
      pure (BlockHeader.mk chomping increment, c)
    | none => do
      let (increment, c) ← incrementMark c
      match increment, chompingMark c.peek with
      | some _, some chomping => pure (BlockHeader.mk chomping increment, c.next)
      | _, _ => pure (BlockHeader.mk .clip increment, c)
  check c.atSpaceOrBreak
  return (header, ← c.finishLine)

def blockIndentation : Nat → Nat → Cursor → List Char × Nat × Cursor
  | 0, deepest, c => ([], deepest, c)
  | fuel + 1, deepest, c =>
    let c := c.skipSpaces
    let deepest := max deepest c.column
    match c.takeBreak with
    | (none, _) => ([], deepest, c)
    | (some b, c) =>
      let (more, deepest, c) := blockIndentation fuel deepest c
      (b :: more, deepest, c)

def skipIndent (indent : Nat) (c : Cursor) : Cursor :=
  c.skip (((c.rest.take (indent - c.column)).takeWhile (· = ' ')).length)

def blockBreaks (indent : Nat) (c : Cursor) : List Char × Cursor :=
  blankLines (c.rest.length + 1) c (skipIndent indent)

-- The lines of a block from `c` on, `breaks` standing before the first, up to the last line end and the
-- line ends after it.
def blockLines (isFolded : Bool) (indent : Nat) :
    Nat → List Char → Cursor → List Char × Option Char × List Char × Cursor
  | 0, breaks, c => ([], none, breaks, c)
  | fuel + 1, breaks, c =>
    let leading := !(c.peek.any isSpaceOrTab)
    let (line, c) := c.span fun ch => !isBreak ch
    let (lineBreak, c) := c.takeBreak
    let (next, c) := blockBreaks indent c
    if c.column = indent ∧ c.peek.isSome then
      let joint :=
        if isFolded && lineBreak = some '\n' && leading && !(c.peek.any isSpaceOrTab) then
          if next.isEmpty then [' '] else []
        else lineBreak.toList
      let (rest, last, trailing, c) := blockLines isFolded indent fuel next c
      (breaks ++ line ++ joint ++ rest, last, trailing, c)
    else (breaks ++ line, lineBreak, next, c)

-- `parent` is the indentation that the block stands in.
def blockScalar (isFolded : Bool) (parent : Int) (c : Cursor) : Scanned := do
  let (header, c) ← blockHeader c.next
  let least := (max (parent + 1) 1).toNat
  let (breaks, indent, c) := match header.increment with
    | some n =>
      let indent := least + n - 1
      let (breaks, c) := blockBreaks indent c
      (breaks, indent, c)
    | none =>
      let (breaks, deepest, c) := blockIndentation (c.rest.length + 1) 0 c
      (breaks, max least deepest, c)
  let (text, last, trailing, c) :=
    if c.column = indent ∧ c.peek.isSome then
      blockLines isFolded indent (c.rest.length + 1) breaks c
    else ([], none, breaks, c)
  let text := match header.chomping with
    | .strip => text
    | .clip => text ++ last.toList
    | .keep => text ++ last.toList ++ trailing
  return (text, c)

end AbiBuild.Markup
