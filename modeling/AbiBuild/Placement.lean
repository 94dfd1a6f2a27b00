import AbiBuild.Elf
import AbiBuild.FileTree.Access
import AbiBuild.Invocation
import AbiBuild.Notice

namespace AbiBuild.Placement

def abiDir (root : FilePath) (v : Variant) (abi : Abi) : FilePath :=
  (root.child v.text).child abi.text

structure Placed where
  library : String
  abi : Abi
  path : FilePath
  deriving DecidableEq, Repr

-- A placing under way. It stops at the first failure and keeps what was done until then.
structure Progress where
  tree : FileTree
  placed : List Placed
  notices : List Notice
  failure : Option Failure

def Progress.start (t : FileTree) : Progress := ⟨t, [], [], none⟩

def Progress.fail (p : Progress) (fault : FileFault) : Progress :=
  { p with failure := some (.mishap (.file fault)) }

-- A pair placed again keeps its first place.
def Progress.add (p : Progress) (item : Placed) : Progress :=
  if p.placed.any fun old => old.library = item.library && old.abi = item.abi then p
  else { p with placed := p.placed ++ [item] }

-- An empty directory where there may have been a full one.
def renew (t : FileTree) (dir : FilePath) : FileTree.Trail :=
  match t.exists? dir with
  | .error fault => ⟨t, some fault⟩
  | .ok there =>
    let cleared := if there then t.removeDirectory dir else .start t
    match cleared.fault with
    | some _ => cleared
    | none => cleared.tree.newDirectory dir

def source (t : FileTree) (artifacts : List (String × FilePath)) (library : String) :
    Except FileFault (Option FilePath) :=
  match artifacts.lookup library with
  | none => .ok none
  | some path => (t.isFile path).map fun there => if there then some path else none

def placeLibrary (abi : Abi) (dir : FilePath) (artifacts : List (String × FilePath)) (p : Progress)
    (library : String) : Progress :=
  if p.failure.isSome then p
  else
    match source p.tree artifacts library with
    | .error fault => p.fail fault
    | .ok none =>
      let notice := Notice.warning .placement s!"{abi.text}: {library} was not produced by cargo"
      { p with notices := p.notices ++ [notice] }
    | .ok (some path) =>
      let target := dir.child library
      match p.tree.copy path target with
      | .error fault => p.fail fault
      | .ok after => { p with tree := after }.add ⟨library, abi, target⟩

def placeAbi (i : Invocation) (libraries : List String) (root : FilePath) (p : Progress) (abi : Abi) :
    Progress :=
  if p.failure.isSome then p
  else
    let dir := abiDir root i.variant abi
    let renewed := renew p.tree dir
    let p := { p with tree := renewed.tree }
    match renewed.fault with
    | some fault => p.fail fault
    | none =>
      let artifacts := ((i.result? abi).map Compilation.artifacts).getD []
      libraries.foldl (placeLibrary abi dir artifacts) p

-- Nothing is touched unless every compilation succeeded.
def place (t : FileTree) (i : Invocation) (libraries : List String) (root : FilePath) : Progress :=
  match i.check with
  | .error failure => { Progress.start t with failure := some failure }
  | .ok () => i.architectures.foldl (placeAbi i libraries root) (.start t)

structure Mismatch where
  library : String
  abi : Abi
  machine : Nat
  deriving DecidableEq, Repr

structure Report where
  missing : List (String × Abi)
  mismatched : List Mismatch
  deriving DecidableEq, Repr

namespace Report

def empty : Report := ⟨[], []⟩

def passed (r : Report) : Bool := r.missing.isEmpty && r.mismatched.isEmpty

def pairs (r : Report) : List (String × Abi) :=
  r.missing ++ r.mismatched.map fun m => (m.library, m.abi)

end Report

inductive Finding
  | right
  | absent
  | foreign (machine : Nat)
  deriving DecidableEq, Repr

-- Files that are not ELF pass for any architecture.
def inspect (t : FileTree) (path : FilePath) (abi : Abi) : Except FileFault Finding := do
  if ← t.isFile path then
    match Elf.machine? (← t.read path) with
    | some machine => return if machine = abi.machine then .right else .foreign machine
    | none => return .right
  else return .absent

def Report.add (r : Report) (library : String) (abi : Abi) : Finding → Report
  | .right => r
  | .absent => { r with missing := r.missing ++ [(library, abi)] }
  | .foreign machine => { r with mismatched := r.mismatched ++ [⟨library, abi, machine⟩] }

def checkAbi (t : FileTree) (root : FilePath) (v : Variant) (libraries : List String) (r : Report)
    (abi : Abi) : Except FileFault Report :=
  libraries.foldlM (fun r library => do
    return r.add library abi (← inspect t ((abiDir root v abi).child library) abi)) r

def check (t : FileTree) (root : FilePath) (v : Variant) (architectures : List Abi)
    (libraries : List String) : Except FileFault Report :=
  architectures.foldlM (checkAbi t root v libraries) .empty

-- The variant's name is only looked at where there is an architecture to check.
def checkNamed (t : FileTree) (root : FilePath) (variant : Value) (architectures : List Abi)
    (libraries : List String) : Except Failure Report :=
  if architectures.isEmpty then .ok .empty
  else do
    let v ← (Variant.parse variant).mapError .variant
    Failure.ofFile (check t root v architectures libraries)

def Mismatch.notice (m : Mismatch) : Notice :=
  .error .placement
    s!"{m.abi.text}/{m.library} has ELF machine {m.machine}, expected {m.abi.machine}"

-- A report that did not pass is a failure, which every mismatch announces.
def demand (report : Report) : Except Failure Report × List Notice :=
  if report.passed then (.ok report, [])
  else
    (.error (.ofMissing (report.pairs.map fun (library, abi) => (library, .known abi))),
      report.mismatched.map Mismatch.notice)

def require (t : FileTree) (root : FilePath) (variant : Value) (architectures : List Abi)
    (libraries : List String) : Except Failure Report × List Notice :=
  match checkNamed t root variant architectures libraries with
  | .error failure => (.error failure, [])
  | .ok report => demand report

end AbiBuild.Placement
