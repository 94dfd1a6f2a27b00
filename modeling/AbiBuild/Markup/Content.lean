import AbiBuild.Markup.Base64
import AbiBuild.Markup.Node

namespace AbiBuild.Markup

-- The faults of a node and of all below it, each with its level, in the order of the document.
structure Filled (α : Type) where
  content : α
  faults : List (Nat × Fault)

namespace Filled

def good (a : α) : Filled α := ⟨a, []⟩

def bad (level : Nat) (fault : Fault) : Filled Value := ⟨.null, [(level, fault)]⟩

def ofExcept (level : Nat) : Except Fault Value → Filled Value
  | .ok v => good v
  | .error fault => bad level fault

def first (faults : List (Nat × Fault)) : Option Fault :=
  (faults.foldl (fun best f =>
    match best with
    | none => some f
    | some b => if f.1 < b.1 then some f else some b) none).map Prod.snd

end Filled

namespace Node

-- The text of a scalar. A mapping stands for the text under its key `=`.
def textFrom : Node → Except Fault String
  | scalar _ text => .ok text
  | mapping _ entries => entryText entries
  | _ => .error (.malformed .content)
where
  entryText : List (Node × Node) → Except Fault String
    | [] => .error (.malformed .content)
    | (scalar tag _, value) :: rest =>
      if tag = Implicit.valueTag then textFrom value else entryText rest
    | (_, _) :: rest => entryText rest

def withoutUnderscores (s : String) : List Char := s.toList.filter (· ≠ '_')

def boolWord (s : String) : Except Fault Value :=
  let lowered := Text.lower s
  if lowered ∈ ["yes", "true", "on"] then .ok (.bool true)
  else if lowered ∈ ["no", "false", "off"] then .ok (.bool false)
  else .error (.scalar (.noTruthValue lowered))

def wholeIn (base : Nat) (cs : List Char) : Except Fault Int :=
  let s := String.ofList cs
  (Numeral.integerIn base s (Text.quoted s)).mapError fun f => .scalar (.notWhole f)

def double (cs : List Char) : Except Fault Binary64 :=
  let s := String.ofList cs
  match Numeral.double? s with
  | some x => .ok x
  | none => .error (.scalar (.notDouble s))

def sixties (places : List Int) : Int := places.foldl (fun n d => 60 * n + d) 0

def magnitude (cs : List Char) : Except Fault Int :=
  match cs with
  | [] => .error (.scalar .blankNumber)
  | ['0'] => .ok 0
  | '0' :: 'b' :: digits => wholeIn 2 digits
  | '0' :: 'x' :: digits => wholeIn 16 digits
  | '0' :: _ => wholeIn 8 cs
  | _ =>
    if ':' ∈ cs then ((Implicit.parts cs).mapM (wholeIn 10)).map sixties else wholeIn 10 cs

def integer (s : String) : Except Fault Value :=
  match withoutUnderscores s with
  | [] => .error (.scalar .blankNumber)
  | '-' :: rest => (magnitude rest).map fun n => .int (-n)
  | cs => (magnitude (Implicit.dropSign cs)).map .int

-- The sum of the places so far, and what one of the next place counts for.
def addPlace (sum : Binary64 × Int) (d : Binary64) : Except Fault (Binary64 × Int) :=
  match Binary64.ofInt sum.2 with
  | .infinite _ => .error (.scalar .tooManySixties)
  | factor => .ok (Binary64.add sum.1 (Binary64.mul d factor), sum.2 * 60)

def sixtiesDouble (places : List Binary64) : Except Fault Binary64 :=
  (places.reverse.foldlM addPlace (Binary64.zero false, 1)).map Prod.fst

def size (cs : List Char) : Except Fault Binary64 :=
  let word := String.ofList cs
  if word = ".inf" then .ok (.infinite false)
  else if word = ".nan" then .ok .nan
  else if ':' ∈ cs then ((Implicit.parts cs).mapM double).bind sixtiesDouble
  else double cs

def number (s : String) : Except Fault Value :=
  match (Text.lower (String.ofList (withoutUnderscores s))).toList with
  | [] => .error (.scalar .blankNumber)
  | '-' :: rest => (size rest).map fun x => .double x.negate
  | cs => (size (Implicit.dropSign cs)).map .double

def natural (cs : List Char) : Nat := cs.foldl (fun n c => 10 * n + (c.toNat - 48)) 0

-- Six digits after the point, zeros for those that are missing.
def micros (cs : List Char) : Nat := natural ((cs ++ List.replicate 6 '0').take 6)

def offset (s : Implicit.Stamp) : Option Int :=
  match s.zone with
  | some (isNegative, hour, minute) =>
    let seconds : Int := natural hour * 3600 + natural minute * 60
    some (if isNegative then -seconds else seconds)
  | none => if s.isUniversal then some 0 else none

def stampValue (s : Implicit.Stamp) : Except CalendarFault Value :=
  match s.time with
  | none => (Date.ofFields (natural s.year) (natural s.month) (natural s.day)).map .date
  | some (hour, minute, second) =>
    (Instant.ofFields (natural s.year, natural s.month, natural s.day) (natural hour)
      (natural minute) (natural second) (micros s.fraction) (offset s)).map .instant

def timestamp (s : String) : Except Fault Value :=
  match Implicit.stamp? (Implicit.dropLineEnd s.toList) with
  | some stamp => (stampValue stamp).mapError fun f => .scalar (.noDate f)
  | none => .error (.scalar .notTimestamp)

def binary (s : String) : Except Fault Value :=
  if s.toList.all fun c => c.toNat < 128 then
    match Base64.decode s.toList with
    | some bytes => .ok (.bytes bytes)
    | none => .error (.malformed .content)
  else .error (.malformed .content)

def ofText (tag : String) (n : Node) : Except Fault Value := do
  let s ← n.textFrom
  if tag = Implicit.nullTag then return .null
  else if tag = Implicit.boolTag then boolWord s
  else if tag = Implicit.intTag then integer s
  else if tag = Implicit.floatTag then number s
  else if tag = Implicit.timestampTag then timestamp s
  else if tag = Implicit.binaryTag then binary s
  else return .text s

def scalarTags : List String :=
  [Implicit.nullTag, Implicit.boolTag, Implicit.intTag, Implicit.floatTag, Implicit.timestampTag,
    Implicit.binaryTag, Implicit.textTag]

def tag : Node → String
  | scalar tag _ => tag
  | sequence tag _ => tag
  | mapping tag _ => tag
  | enclosing isMap => if isMap then Implicit.mappingTag else Implicit.sequenceTag

def entries? : Node → Option (List (Node × Node))
  | mapping _ entries => some entries
  | _ => none

-- A key `=` is the text of its own sign.
def plainKey : Node → Node
  | scalar tag text => .scalar (if tag = Implicit.valueTag then Implicit.textTag else tag) text
  | n => n

abbrev Entries := List (Node × Node)

-- Entries with the merged ones apart. `<<` merges the mapping, or each mapping of the list, that stands
-- under it; earlier mappings of a list win over later ones, and own entries over all.
mutual

def split : Entries → Except Fault (Entries × Entries)
  | [] => .ok ([], [])
  | (key, value) :: rest => do
    if key.tag = Implicit.mergeTag then
      let here ← merged value
      let (more, own) ← split rest
      return (here ++ more, own)
    else
      let (more, own) ← split rest
      return (more, (plainKey key, value) :: own)

def merged : Node → Except Fault Entries
  | mapping _ entries => do
    let (more, own) ← split entries
    return more ++ own
  | sequence _ items => mergedItems items
  | _ => .error (.malformed .content)

def mergedItems : List Node → Except Fault Entries
  | [] => .ok []
  | mapping _ entries :: rest => do
    let (more, own) ← split entries
    let later ← mergedItems rest
    return later ++ (more ++ own)
  | _ :: _ => .error (.malformed .content)

end

def flatten (entries : Entries) : Except Fault Entries := do
  let (more, own) ← split entries
  return more ++ own

-- A pair of an ordered list is a mapping of one entry.
def single? : Node → Option (Node × Node)
  | mapping _ [entry] => some entry
  | _ => none

-- `fuel` bounds how deep nodes are nested, counting those that merging brings in.
mutual

def fill : Nat → Nat → Node → Filled Value
  | 0, level, _ => .bad level (.malformed .content)
  | fuel + 1, level, n =>
    match n with
    | enclosing isMap => .good (.enclosing isMap)
    | n =>
      let t := n.tag
      if t ∈ scalarTags then .ofExcept level (ofText t n)
      else if t = Implicit.sequenceTag then
        match n with
        | sequence _ items =>
          let r := fillItems fuel (level + 1) items
          ⟨.list r.content, r.faults⟩
        | _ => .bad (level + 1) (.malformed .content)
      else if t = Implicit.mappingTag then
        let r := fillMapping fuel (level + 1) n
        ⟨.map (Value.ofEntries r.content), r.faults⟩
      else if t = Implicit.setTag then
        let r := fillMapping fuel (level + 1) n
        ⟨.set ((Value.ofEntries r.content).map Prod.fst), r.faults⟩
      else if t = Implicit.orderedTag ∨ t = Implicit.pairsTag then
        match n with
        | sequence _ items =>
          let r := fillPairs fuel (level + 1) items
          ⟨.list r.content, r.faults⟩
        | _ => .bad (level + 1) (.malformed .content)
      else .bad level (.malformed .content)

def fillItems : Nat → Nat → List Node → Filled (List Value)
  | 0, level, _ => ⟨[], [(level, .malformed .content)]⟩
  | _ + 1, _, [] => .good []
  | fuel + 1, level, n :: rest =>
    let first := fill fuel level n
    let others := fillItems fuel level rest
    ⟨first.content :: others.content, first.faults ++ others.faults⟩

def fillMapping : Nat → Nat → Node → Filled (List (Value × Value))
  | 0, level, _ => ⟨[], [(level, .malformed .content)]⟩
  | fuel + 1, level, n =>
    match n.entries? with
    | none => ⟨[], [(level, .malformed .content)]⟩
    | some entries =>
      match flatten entries with
      | .error fault => ⟨[], [(level, fault)]⟩
      | .ok entries => fillEntries fuel level entries

def fillEntries : Nat → Nat → Entries → Filled (List (Value × Value))
  | 0, level, _ => ⟨[], [(level, .malformed .content)]⟩
  | _ + 1, _, [] => .good []
  | fuel + 1, level, (k, v) :: rest =>
    let key := fill fuel level k
    let unusable : List (Nat × Fault) := if key.content.isKey then [] else [(level, .malformed .content)]
    let value := fill fuel level v
    let others := fillEntries fuel level rest
    ⟨(key.content, value.content) :: others.content,
      key.faults ++ unusable ++ value.faults ++ others.faults⟩

def fillPairs : Nat → Nat → List Node → Filled (List Value)
  | 0, level, _ => ⟨[], [(level, .malformed .content)]⟩
  | _ + 1, _, [] => .good []
  | fuel + 1, level, n :: rest =>
    match single? n with
    | none => ⟨[], [(level, .malformed .content)]⟩
    | some (k, v) =>
      let key := fill fuel level k
      let value := fill fuel level v
      let others := fillPairs fuel level rest
      ⟨.tuple [key.content, value.content] :: others.content,
        key.faults ++ value.faults ++ others.faults⟩

end

-- How many steps down and along the fill of a node can take.
mutual

def reach : Node → Nat
  | scalar .. => 1
  | sequence _ items => reachItems items + 1
  | mapping _ entries => reachEntries entries + 2
  | enclosing _ => 1

def reachItems : List Node → Nat
  | [] => 1
  | n :: rest => n.reach + reachItems rest + 1

def reachEntries : Entries → Nat
  | [] => 1
  | (k, v) :: rest => k.reach + v.reach + reachEntries rest + 1

end

def value (n : Node) : Except Fault Value :=
  let r := fill (n.reach + 1) 0 n
  match Filled.first r.faults with
  | some fault => .error fault
  | none => .ok r.content

end Node

def read (text : String) : Except Fault (Option Value) := do
  let cs := text.toList
  if !cs.all isAllowed then throw (.malformed .characters)
  match ← Node.ofTokens (tokens cs) with
  | none => return none
  | some node => return some (← node.value)

end AbiBuild.Markup
