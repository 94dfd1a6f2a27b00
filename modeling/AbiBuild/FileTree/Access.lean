import AbiBuild.FileTree.Walk

namespace AbiBuild.FileTree
open AbiBuild.Text

def refuse (refusal : Refusal) (p : FilePath) : Except FileFault α :=
  .error (.system refusal (quoted p.text))

-- What a path leads to. A path that cannot lead anywhere leads to nothing, except that a name too long
-- to look up is refused.
def probe (t : FileTree) (p : FilePath) : Except FileFault (Option Node) :=
  match t.locate true p with
  | .ok l => .ok (t.node? l)
  | .error (.system .nameTooLong shown) => .error (.system .nameTooLong shown)
  | .error _ => .ok none

def isFile (t : FileTree) (p : FilePath) : Except FileFault Bool :=
  (t.probe p).map fun n => n.any Node.isFile

def isDirectory (t : FileTree) (p : FilePath) : Except FileFault Bool :=
  (t.probe p).map fun n => n.any Node.isDirectory

def exists? (t : FileTree) (p : FilePath) : Except FileFault Bool :=
  (t.probe p).map Option.isSome

def names (t : FileTree) (p : FilePath) : Except FileFault (List String) := do
  let l ← t.locate true p
  match t.node? l with
  | some .directory => .ok (t.children l)
  | some _ => refuse .notDirectory p
  | none => refuse .noEntry p

def read (t : FileTree) (p : FilePath) : Except FileFault Bytes := do
  let l ← t.locate true p
  match t.node? l with
  | some (.file content _) => .ok content
  | some _ => refuse .isDirectory p
  | none => refuse .noEntry p

def readText (t : FileTree) (p : FilePath) : Except FileFault String := do
  match Text.readText (← t.read p) with
  | .ok s => .ok s
  | .error cause => .error (.notText cause)

-- Writing over a file keeps whether it may be executed.
def write (t : FileTree) (p : FilePath) (content : Bytes) : Except FileFault FileTree := do
  let l ← t.locate true p
  match t.node? l with
  | some .directory => refuse .isDirectory p
  | some (.file _ executable) => .ok (t.put l (.file content executable))
  | _ => .ok (t.put l (.file content false))

-- The copy has the content of the file and may be executed if the file may.
def copy (t : FileTree) (src dst : FilePath) : Except FileFault FileTree := do
  let origin ← t.locate true src
  match t.node? origin with
  | some (.file content executable) =>
    let l ← t.locate true dst
    match t.node? l with
    | some .directory => refuse .isDirectory dst
    | _ => .ok (t.put l (.file content executable))
  | some _ => refuse .isDirectory src
  | none => refuse .noEntry src

def unlink (t : FileTree) (p : FilePath) : Except FileFault FileTree := do
  let l ← t.locate false p
  match t.node? l with
  | some .directory => refuse .isDirectory p
  | some _ => .ok (t.erase l)
  | none => refuse .noEntry p

-- Nothing there to remove is no fault.
def unlinkIfThere (t : FileTree) (p : FilePath) : Except FileFault FileTree :=
  match t.unlink p with
  | .error (.system .noEntry _) => .ok t
  | result => result

def makeDirectory (t : FileTree) (p : FilePath) : Except FileFault FileTree := do
  let l ← t.locate false p
  match t.node? l with
  | some _ => refuse .alreadyThere p
  | none => .ok (t.put l .directory)

-- What a series of operations leaves behind.
structure Trail where
  tree : FileTree
  fault : Option FileFault
  deriving DecidableEq, Repr

namespace Trail

def start (t : FileTree) : Trail := ⟨t, none⟩

def next (r : Trail) (operation : FileTree → Except FileFault FileTree) : Trail :=
  match r.fault with
  | some _ => r
  | none =>
    match operation r.tree with
    | .ok after => ⟨after, none⟩
    | .error fault => ⟨r.tree, some fault⟩

end Trail

def series (t : FileTree) (operations : List (FileTree → Except FileFault FileTree)) : Trail :=
  operations.foldl Trail.next (Trail.start t)

-- Removes a directory: all that is in it first, then the directory, which is looked up once more. One that
-- its path reaches through what was in it stays behind, empty. A link is never removed this way.
def removeDirectory (t : FileTree) (p : FilePath) : Trail :=
  match t.locate false p with
  | .error fault => ⟨t, some fault⟩
  | .ok l =>
    match t.node? l with
    | some .directory => (Trail.start (t.eraseBelow l)).next fun t => (t.locate false p).map t.erase
    | some (.file ..) => ⟨t, some (.system .notDirectory p.literal)⟩
    | some (.link _) => ⟨t, some .removalOfLink⟩
    | none => ⟨t, some (.system .noEntry (quoted p.text))⟩

-- A directory that is already there counts as made when `allowThere` holds.
def makeDirectoryOr (allowThere : Bool) (t : FileTree) (p : FilePath) : Except FileFault FileTree :=
  match t.makeDirectory p with
  | .error (.system .noEntry shown) => .error (.system .noEntry shown)
  | .error (.system refusal shown) => do
    if allowThere && (← t.isDirectory p) then .ok t else .error (.system refusal shown)
  | result => result

-- Makes the directory that the first `count` names lead to, and the ones above it first where they are
-- missing.
def makeDirectories (t : FileTree) (root : Root) (names : List String) (allowThere : Bool) :
    Nat → Trail
  | 0 => (Trail.start t).next fun t => makeDirectoryOr allowThere t ⟨root, []⟩
  | count + 1 =>
    match makeDirectoryOr allowThere t ⟨root, names.take (count + 1)⟩ with
    | .ok after => ⟨after, none⟩
    | .error (.system .noEntry _) =>
      (makeDirectories t root names true count).next fun above =>
        makeDirectoryOr allowThere above ⟨root, names.take (count + 1)⟩
    | .error fault => ⟨t, some fault⟩

def ensureDirectory (t : FileTree) (p : FilePath) : Trail :=
  makeDirectories t p.root p.names true p.names.length

def newDirectory (t : FileTree) (p : FilePath) : Trail :=
  makeDirectories t p.root p.names false p.names.length

end AbiBuild.FileTree
