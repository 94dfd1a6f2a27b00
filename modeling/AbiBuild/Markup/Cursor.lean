import AbiBuild.Markup.Fault

namespace AbiBuild.Markup

def isBreak (c : Char) : Bool :=
  c = '\n' || c = '\r' || c.toNat = 0x85 || c.toNat = 0x2028 || c.toNat = 0x2029

def isSpaceOrTab (c : Char) : Bool := c = ' ' || c = '\t'

def isByteOrderMark (c : Char) : Bool := c.toNat = 0xFEFF

def isAllowed (c : Char) : Bool :=
  let n := c.toNat
  n = 0x09 || n = 0x0A || n = 0x0D || (0x20 ≤ n && n ≤ 0x7E) || n = 0x85 || (0xA0 ≤ n && n ≤ 0xFFFD) ||
    0x10000 ≤ n

def isWordChar (c : Char) : Bool :=
  ('0' ≤ c && c ≤ '9') || ('A' ≤ c && c ≤ 'Z') || ('a' ≤ c && c ≤ 'z') || c = '-' || c = '_'

structure Cursor where
  rest : List Char
  index : Nat
  line : Nat
  column : Nat
  deriving DecidableEq, Repr

namespace Cursor

def start (text : List Char) : Cursor := ⟨text, 0, 0, 0⟩

def peek (c : Cursor) : Option Char := c.rest.head?

def peekAt (c : Cursor) (n : Nat) : Option Char := c.rest[n]?

def next (c : Cursor) : Cursor :=
  match c.rest with
  | [] => c
  | ch :: rest =>
    if isBreak ch then ⟨rest, c.index + 1, c.line + 1, 0⟩
    else if isByteOrderMark ch then ⟨rest, c.index + 1, c.line, c.column⟩
    else ⟨rest, c.index + 1, c.line, c.column + 1⟩

def skip : Nat → Cursor → Cursor
  | 0, c => c
  | n + 1, c => skip n c.next

def span (c : Cursor) (p : Char → Bool) : List Char × Cursor :=
  let taken := c.rest.takeWhile p
  (taken, c.skip taken.length)

def skipWhile (c : Cursor) (p : Char → Bool) : Cursor := (c.span p).2

def skipSpaces (c : Cursor) : Cursor := c.skipWhile (· = ' ')

def skipToBreak (c : Cursor) : Cursor := c.skipWhile fun ch => !isBreak ch

def atBreak (c : Cursor) : Bool :=
  match c.peek with
  | none => true
  | some ch => isBreak ch

def blankAt (c : Cursor) (n : Nat) : Bool :=
  match c.peekAt n with
  | none => true
  | some ch => isSpaceOrTab ch || isBreak ch

def atSpaceOrBreak (c : Cursor) : Bool :=
  match c.peek with
  | none => true
  | some ch => ch = ' ' || isBreak ch

def isAt (c : Cursor) (ch : Char) : Bool := c.peek = some ch

def startsWith (c : Cursor) (word : String) : Bool := word.toList.isPrefixOf c.rest

-- The line end here, if there is one. Only the separators of lines and paragraphs keep their own form.
def takeBreak (c : Cursor) : Option Char × Cursor :=
  match c.rest with
  | '\r' :: '\n' :: _ => (some '\n', c.skip 2)
  | ch :: _ =>
    if ch.toNat = 0x2028 ∨ ch.toNat = 0x2029 then (some ch, c.next)
    else if isBreak ch then (some '\n', c.next)
    else (none, c)
  | [] => (none, c)

-- Three hyphens or three points with a blank after them.
def atDocumentMark (c : Cursor) : Bool := (c.startsWith "---" || c.startsWith "...") && c.blankAt 3

-- The rest of a line that may hold a comment and nothing else.
def finishLine (c : Cursor) : Except Fault Cursor :=
  let c := c.skipSpaces
  let c := if c.isAt '#' then c.skipToBreak else c
  if c.atBreak then .ok c.takeBreak.2 else .error (.malformed .tokens)

end Cursor

end AbiBuild.Markup
