import AbiBuild.Markup.Cursor

namespace AbiBuild.Markup

inductive Directive
  | version (major : Nat)
  | tag (handle : String) (meaning : String)
  | other (name : String)
  deriving DecidableEq, Repr

-- `refused` stands where the text could not be read on.
inductive Token
  | streamEnd
  | directive (d : Directive)
  | documentStart
  | documentEnd
  | blockSequenceStart
  | blockMappingStart
  | blockEnd
  | flowSequenceStart
  | flowSequenceEnd
  | flowMappingStart
  | flowMappingEnd
  | blockEntry
  | flowEntry
  | key
  | value
  | reference (name : String)
  | anchor (name : String)
  | tag (handle : Option String) (suffix : String)
  | scalar (text : String) (plain : Bool)
  | refused (fault : Fault)
  deriving Repr

def word (cs : List Char) : String := String.ofList cs

def nonEmpty (r : List Char × Cursor) : Except Fault (String × Cursor) :=
  if r.1.isEmpty then .error (.malformed .tokens) else .ok (word r.1, r.2)

def check (holds : Bool) : Except Fault Unit := if holds then .ok () else .error (.malformed .tokens)

def isDecimal (c : Char) : Bool := '0' ≤ c && c ≤ '9'

def hexDigitValue? (c : Char) : Option Nat := Numeral.digitIn 16 c

def isUriChar (c : Char) : Bool :=
  isWordChar c || c ∈ [';', '/', '?', ':', '@', '&', '=', '+', '$', ',', '.', '!', '~', '*',
    Text.apostrophe, '(', ')', '[', ']']

def escapedBytes : List Char → Except Fault (List UInt8 × Nat)
  | '%' :: a :: b :: rest =>
    match hexDigitValue? a, hexDigitValue? b with
    | some high, some low => do
      let (bytes, count) ← escapedBytes rest
      return (UInt8.ofNat (16 * high + low) :: bytes, count + 3)
    | _, _ => .error (.malformed .tokens)
  | '%' :: _ => .error (.malformed .tokens)
  | _ => .ok ([], 0)

-- The characters of a tag, escapes read as UTF-8. `fuel` bounds the number of runs.
def uriFrom : Nat → Cursor → Except Fault (List Char × Cursor)
  | 0, c => .ok ([], c)
  | fuel + 1, c => do
    let (plain, c) := c.span isUriChar
    if c.isAt '%' then
      let (bytes, count) ← escapedBytes c.rest
      match Text.decode bytes with
      | .error _ => .error (.malformed .tokens)
      | .ok cs =>
        let (more, c) ← uriFrom fuel (c.skip count)
        return (plain ++ cs ++ more, c)
    else return (plain, c)

-- At least one character, or an escape, has to be there.
def uri (c : Cursor) : Except Fault (String × Cursor) := do
  let (cs, after) ← uriFrom (c.rest.length + 1) c
  check (after.index ≠ c.index)
  return (word cs, after)

-- A lone exclamation mark, or a word between two of them.
def tagHandle (c : Cursor) : Except Fault (String × Cursor) := do
  check (c.isAt '!')
  if c.peekAt 1 = some ' ' then return ("!", c.next)
  else
    let (name, after) := c.next.span isWordChar
    check (after.isAt '!')
    return ("!" ++ word name ++ "!", after.next)

def versionNumber (c : Cursor) : Except Fault (Nat × Cursor) := do
  let (digits, c) ← nonEmpty (c.span isDecimal)
  return (digits.toList.foldl (fun n d => 10 * n + (d.toNat - 48)) 0, c)

def versionDirective (c : Cursor) : Except Fault (Directive × Cursor) := do
  let (major, c) ← versionNumber c.skipSpaces
  check (c.isAt '.')
  let (_, c) ← versionNumber c.next
  check c.atSpaceOrBreak
  return (.version major, c)

def tagDirective (c : Cursor) : Except Fault (Directive × Cursor) := do
  let (handle, c) ← tagHandle c.skipSpaces
  check (c.isAt ' ')
  let (meaning, c) ← uri c.skipSpaces
  check c.atSpaceOrBreak
  return (.tag handle meaning, c)

def directive (c : Cursor) : Except Fault (Directive × Cursor) := do
  let (name, c) ← nonEmpty (c.next.span isWordChar)
  check c.atSpaceOrBreak
  let (d, c) ← match name with
    | "YAML" => versionDirective c
    | "TAG" => tagDirective c
    | _ => .ok (.other name, c.skipToBreak)
  return (d, ← c.finishLine)

def isAfterAnchor (c : Char) : Bool :=
  isSpaceOrTab c || isBreak c || c ∈ ['?', ':', ',', ']', '\x7d', '%', '@', '\x60']

def anchorName (c : Cursor) : Except Fault (String × Cursor) := do
  let (name, c) ← nonEmpty (c.next.span isWordChar)
  check (c.rest.head?.all isAfterAnchor)
  return (name, c)

-- A tag has a handle when a second exclamation mark comes before the next blank.
def tag (c : Cursor) : Except Fault (Token × Cursor) := do
  let (token, c) ← match c.peekAt 1 with
    | some '<' => do
      let (suffix, c) ← uri (c.skip 2)
      check (c.isAt '>')
      pure (Token.tag none suffix, c.next)
    | _ =>
      if c.blankAt 1 then pure (Token.tag none "!", c.next)
      else
        let ahead := (c.rest.drop 1).takeWhile fun ch => ch ≠ ' ' && !isBreak ch
        let (handle, c) ← if '!' ∈ ahead then tagHandle c else pure ("!", c.next)
        let (suffix, c) ← uri c
        pure (Token.tag (some handle) suffix, c)
  check c.atSpaceOrBreak
  return (token, c)

end AbiBuild.Markup
