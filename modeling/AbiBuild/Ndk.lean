import AbiBuild.Failure
import AbiBuild.FileTree.Access
import AbiBuild.Notice
import AbiBuild.Properties
import AbiBuild.Text.Case

namespace AbiBuild.Ndk
open AbiBuild.Text

abbrev Environment := Table String

def ndkVariables : List String := ["ANDROID_NDK_HOME", "ANDROID_NDK_ROOT", "NDK_ROOT"]

def sdkVariables : List String := ["ANDROID_SDK_ROOT", "ANDROID_HOME"]

-- A variable that is set to nothing counts as unset.
def setting? (environ : Environment) (name : String) : Option String :=
  (environ.get? name).filter (!·.isEmpty)

-- The tools of the newest processors' hosts are still those of the older ones.
def hostTag (platform : String) : String :=
  if platform.startsWith "darwin" then "darwin-x86_64"
  else if platform.startsWith "win" then "windows-x86_64"
  else "linux-x86_64"

def environmentKey (triple : String) : String :=
  String.ofList ((upper triple).toList.map fun c => if c = '-' then '_' else c)

def scriptEnding (platform : String) : String := if platform.startsWith "win" then ".cmd" else ""

def toolchain (dir : FilePath) (abi : Abi) (level : Int) (platform : String) : Environment :=
  let bin := dir.below ["toolchains", "llvm", "prebuilt", hostTag platform, "bin"]
  let tool (name : String) := (bin.child name).text
  let clang := tool s!"{abi.clangName}{level}-clang{scriptEnding platform}"
  let clangxx := tool s!"{abi.clangName}{level}-clang++{scriptEnding platform}"
  let ar := tool "llvm-ar"
  let key := environmentKey abi.triple
  let suffix := String.ofList (abi.triple.toList.map fun c => if c = '-' then '_' else c)
  Table.ofList
    [("ANDROID_NDK_HOME", dir.text),
     (s!"CARGO_TARGET_{key}_LINKER", clang),
     (s!"CARGO_TARGET_{key}_AR", ar),
     (s!"CC_{suffix}", clang),
     (s!"CXX_{suffix}", clangxx),
     (s!"AR_{suffix}", ar)]

def revision (t : FileTree) (dir : FilePath) : Except Failure (Option String) := do
  let path := dir.child "source.properties"
  if ← Failure.ofFile (t.isFile path) then
    return (Properties.parse (← Failure.ofFile (t.readText path))).get? "Pkg.Revision"
  else return none

-- Later in order: the greater version, or the name of the greater text where the versions are one.
def newer (a b : List Nat × String) : Bool :=
  Version.listedBefore a.1 b.1 || (a.1 == b.1 && a.2 < b.2)

def newest : List (List Nat × String) → Option (List Nat × String)
  | [] => none
  | a :: rest =>
    match newest rest with
    | none => some a
    | some b => some (if newer a b then b else a)

-- Entries whose names are no versions are passed over.
def versionOf (name : String) : Option (List Nat × String) :=
  match Version.parse name with
  | .ok version => some (version, name)
  | .error _ => none

def newestName (names : List String) : Option String :=
  (newest (names.filterMap versionOf)).map Prod.snd

-- The NDK below an SDK: the pinned one if it is there, else the newest.
def installed (t : FileTree) (sdk : FilePath) (pinned : Option String) :
    Except FileFault (Option FilePath) := do
  let all := sdk.child "ndk"
  let chosen ← match pinned.filter (!·.isEmpty) with
    | some version => do
      let path := all.child version
      if ← t.isDirectory path then pure (some path) else pure none
    | none => pure none
  match chosen with
  | some path => return some path
  | none =>
    if ← t.isDirectory all then
      return (newestName (← t.names all)).map all.child
    else return none

-- The first of the variables that names a directory.
def firstDirectory (t : FileTree) (environ : Environment) :
    List String → Except FileFault (Option FilePath)
  | [] => .ok none
  | name :: rest =>
    match setting? environ name with
    | none => firstDirectory t environ rest
    | some value => do
      if ← t.isDirectory (.ofText value) then return some (.ofText value)
      firstDirectory t environ rest

-- The first of the variables below which an NDK is installed.
def firstInstalled (t : FileTree) (environ : Environment) (pinned : Option String) :
    List String → Except FileFault (Option FilePath)
  | [] => .ok none
  | name :: rest =>
    match setting? environ name with
    | none => firstInstalled t environ pinned rest
    | some value => do
      match ← installed t (.ofText value) pinned with
      | some path => return some path
      | none => firstInstalled t environ pinned rest

def search (t : FileTree) (configured : Option FilePath) (pinned : Option String)
    (environ : Environment) : Except Failure (Option FilePath) := do
  match configured with
  | some dir =>
    if ← Failure.ofFile (t.isDirectory dir) then return some dir
    throw (.ndk (.configuredMissing dir))
  | none =>
    match ← Failure.ofFile (firstDirectory t environ ndkVariables) with
    | some dir => return some dir
    | none => Failure.ofFile (firstInstalled t environ pinned sdkVariables)

-- A revision that is not the pinned version draws a warning.
def mismatch (dir : FilePath) (pinned revision : Option String) : Except Failure (List Notice) := do
  match pinned.filter (!·.isEmpty), revision.filter (!·.isEmpty) with
  | some wanted, some actual =>
    match Version.compareTexts actual wanted with
    | .ok .eq => return []
    | .ok _ =>
      return [.warning .ndk s!"NDK at {dir.text} is {actual}, config expects {wanted}"]
    | .error fault => throw (.mishap (.value (.version fault)))
  | _, _ => return []

def find (t : FileTree) (configured : Option FilePath) (pinned : Option String)
    (environ : Environment) : Except Failure (FilePath × List Notice) := do
  match ← search t configured pinned environ with
  | none => throw (.ndk .notFound)
  | some dir => return (dir, ← mismatch dir pinned (← revision t dir))

end AbiBuild.Ndk
