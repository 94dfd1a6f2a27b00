import AbiBuild.FileFault
import AbiBuild.FileTree.Basic

namespace AbiBuild.FileTree

inductive Reach
  | found (place : Location)
  | follow (base : Location) (target : String) (rest : List String)
  | refused (refusal : Refusal)
  deriving Repr

def maxNameSize : Nat := 255

-- Goes down name by name, up to the first link that has to be followed. The place found need not hold
-- anything: only its directory has to.
def advance (t : FileTree) (followLast : Bool) (l : Location) : List String → Reach
  | [] => .found l
  | name :: rest =>
    match t.node? l with
    | some .directory =>
      if name = ".." then advance t followLast l.dropLast rest
      else if maxNameSize < name.utf8ByteSize then .refused .nameTooLong
      else
        match t.node? (l ++ [name]) with
        | some (.link target) =>
          if rest.isEmpty && !followLast then .found (l ++ [name]) else .follow l target rest
        | some _ => advance t followLast (l ++ [name]) rest
        | none => if rest.isEmpty then .found (l ++ [name]) else .refused .noEntry
    | some (.file ..) => .refused .notDirectory
    | _ => .refused .noEntry

def base (l : Location) (p : FilePath) : Location := if p.isAbsolute then [] else l

-- At most so many links are followed.
def walk (t : FileTree) (followLast : Bool) : Nat → Location → List String → Except Refusal Location
  | links, l, names =>
    match advance t followLast l names with
    | .found place => .ok place
    | .refused refusal => .error refusal
    | .follow from_ target rest =>
      match links with
      | 0 => .error .tooManyLinks
      | links + 1 =>
        let path := FilePath.ofText target
        walk t followLast links (base from_ path) (path.names ++ rest)

def maxLinks : Nat := 40

def locate (t : FileTree) (followLast : Bool) (p : FilePath) : Except FileFault Location :=
  if p.hasNul then .error .nulInPath
  else
    match walk t followLast maxLinks (base t.here p) p.names with
    | .ok place => .ok place
    | .error refusal => .error (.system refusal (Text.quoted p.text))

def onward (t : FileTree) (follow : Location → String → Option Location) (l : Location) (name : String) :
    Option Location :=
  if name = ".." then some l.dropLast
  else
    match t.node? (l ++ [name]) with
    | some (.link target) => follow l target
    | _ => some (l ++ [name])

-- The location that a path names once links are replaced by what they name; `..` leads up from there.
-- Links nested deeper than `depth` form a loop.
def unlinked (t : FileTree) : Nat → Location → List String → Option Location
  | 0, l, names => names.foldlM (t.onward fun _ _ => none) l
  | depth + 1, l, names =>
    names.foldlM (t.onward fun l target =>
      let path := FilePath.ofText target
      unlinked t depth (base l path) path.names) l

def linkCount (t : FileTree) : Nat :=
  ((t.entries.filter fun e => e.2.isLink && t.node? e.1 == some e.2).map Prod.fst).eraseDups.length

-- What a path comes to where links are in a loop, and whether it was gone on with to its end: a link that
-- is met inside itself stays, with all the names that were still to come behind it.
def stepping (t : FileTree) (follow : Location → String → Location × Bool) :
    Location → List String → Location × Bool
  | l, [] => (l, true)
  | l, name :: rest =>
    if name = ".." then stepping t follow l.dropLast rest
    else
      match t.node? (l ++ [name]) with
      | some (.link target) =>
        match follow (l ++ [name]) target with
        | (m, true) => stepping t follow m rest
        | (m, false) => (m ++ rest, false)
      | _ => stepping t follow (l ++ [name]) rest

-- `inside` are the links that are being replaced.
def cutShort (t : FileTree) : Nat → List Location → Location → List String → Location × Bool
  | 0, _, l, names => (l ++ names, false)
  | depth + 1, inside, l, names =>
    t.stepping (fun m target =>
      if m ∈ inside then (m, false)
      else
        let path := FilePath.ofText target
        cutShort t depth (m :: inside) (base m.dropLast path) path.names) l names

def beside (l : Location) (name : String) : Location := if name = ".." then l.dropLast else l ++ [name]

def lexical (names : List String) : Location := names.foldl beside []

-- A path that runs into a loop is taken by its text from there on, unless that is in a loop as well.
def resolve (t : FileTree) (p : FilePath) : Except FileFault FilePath :=
  if p.hasNul then .error .nulInPath
  else
    match t.unlinked t.linkCount (base t.here p) p.names with
    | some l => .ok ⟨.single, l⟩
    | none =>
      let l := lexical (t.cutShort (t.linkCount + 1) [] (base t.here p) p.names).1
      if (t.unlinked t.linkCount [] l).isSome then .ok ⟨.single, l⟩
      else .error (.linkLoop (FilePath.mk .single l).text)

end AbiBuild.FileTree
