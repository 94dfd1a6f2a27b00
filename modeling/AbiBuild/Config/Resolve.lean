import AbiBuild.Config.Basic
import AbiBuild.Config.Library
import AbiBuild.Number.Whole

namespace AbiBuild.Config

abbrev Entries := List (Value × Value)

def texts (xs : List String) : Value := .list (xs.map .text)

def defaults : Table Value :=
  [("module", .text "."),
   ("targets", texts ["x86", "arm", "arm64"]),
   ("libraries", .list []),
   ("target_dir", .text "build/rust-target"),
   ("jni_libs_dir", .text "build/rustJniLibs"),
   ("platform", .int 24),
   ("ndk_dir", .null),
   ("ndk_version", .null),
   ("cargo_bin", .null),
   ("extra_cargo_env", .map []),
   ("extra_cargo_build_arguments", .list []),
   ("verbose", .bool false),
   ("jobs", .null),
   ("build_types", .map [(.text "debug", .text "debug"), (.text "release", .text "release")])]

def setting (data : Entries) (key : String) : Value :=
  (Value.lookup key data).getD ((defaults.get? key).getD .null)

def isKnown : Value → Bool
  | .text s => s ∈ defaults.keys
  | _ => false

def textOf? : Value → Option String
  | .text s => some s
  | _ => none

-- Keys outside the table are listed in order; keys that are not text cannot even be listed.
def checkKeys (data : Entries) : Except Failure Unit :=
  let unknown := (data.map Prod.fst).filter fun key => !isKnown key
  if unknown.isEmpty then .ok ()
  else
    match unknown.mapM textOf? with
    | some names => .error (.config (.unknownKeys (names.mergeSort fun a b => decide (a ≤ b))))
    | none => .error (.mishap (.type "a key is not text"))

-- A lone text stands for the list of itself.
def listOf (fault : Fault) : Value → Except Failure (List Value)
  | .text s => .ok [.text s]
  | .list items => .ok items
  | _ => .error (.config fault)

-- Whatever counts as no value stands for an empty list.
def plainList (fault : Fault) (v : Value) : Except Failure (List Value) :=
  if v.isBlank then .ok []
  else
    match v with
    | .list items => .ok items
    | _ => .error (.config fault)

def mapOf (fault : Fault) (v : Value) : Except Failure Entries :=
  if v.isBlank then .ok []
  else
    match v with
    | .map entries => .ok entries
    | _ => .error (.config fault)

def writtenEntries (entries : Entries) : Except Failure (Table String) := do
  return Table.ofList (← entries.mapM fun (key, value) => do
    return (← Failure.ofWriting key, ← Failure.ofWriting value))

-- Either the profile itself or a mapping that holds it, with the variant's own name by default.
def buildType (key : Value) : Value → Value
  | .map entries => (Value.lookup "build_type" entries).getD key
  | profile => profile

def buildTypeTable (entries : Entries) : Except Failure (Table String) :=
  writtenEntries (entries.map fun (key, profile) => (key, buildType key profile))

def whole (v : Value) : Except Failure Int :=
  match v.whole with
  | .ok n => .ok n
  | .error .infinite => .error (.mishap (.overflow NotWhole.infinite.message))
  | .error reason => .error (.config (.notInteger reason.message))

def optionalWhole : Value → Except Failure (Option Int)
  | .null => .ok none
  | v => (whole v).map some

def checkJobs : Option Int → Except Failure Unit
  | some n => if n < 1 then .error (.config .jobsBelowOne) else .ok ()
  | none => .ok ()

-- A failure that shows a value is that of the writing where the value is not written.
def showing (v : Value) (failure : Failure) : Failure :=
  if v.isWritable then failure else .mishap (.value .longInteger)

def targetFailure : Abi.Fault → Failure
  | .unmapped declared => showing declared (.architecture (.unmapped declared))
  | fault => .architecture fault

def libraryFailure : Fault → Failure
  | .notLibraryName name => showing name (.config (.notLibraryName name))
  | fault => .config fault

def location (t : FileTree) (base : FilePath) (v : Value) : Except Failure FilePath := do
  let path := FilePath.ofText (← Failure.ofWriting v)
  if path.isAbsolute then .ok path else Failure.ofFile (t.resolve (base.join path))

def optionalLocation (t : FileTree) (base : FilePath) (v : Value) : Except Failure (Option FilePath) :=
  if v.isBlank then .ok none else (location t base v).map some

def optionalText (v : Value) : Except Failure (Option String) :=
  if v.isBlank then .ok none else (Failure.ofWriting v).map some

def resolve (t : FileTree) (base : Option FilePath) (data : Entries) : Except Failure Config := do
  checkKeys data
  let base ← Failure.ofFile (t.resolve (base.getD ⟨.relative, []⟩))
  let targets ← listOf .targetsNotList (setting data "targets")
  let libraries ← listOf .librariesNotList (setting data "libraries")
  let environment ← mapOf .environmentNotMap (setting data "extra_cargo_env")
  let arguments ← plainList .argumentsNotList (setting data "extra_cargo_build_arguments")
  let types ← mapOf .buildTypesNotMap (setting data "build_types")
  let buildTypes ← buildTypeTable types
  let platform ← whole (setting data "platform")
  let jobs ← optionalWhole (setting data "jobs")
  checkJobs jobs
  let architectures ← (Abi.resolve targets).mapError targetFailure
  let overrides := buildTypes.map fun (key, profile) => (Value.text key, Value.text profile)
  let _ ← (ProfileTable.standard.override overrides).mapError .ofVariant
  let modulePath ← location t base (setting data "module")
  let libraries ← (libraryNames libraries).mapError libraryFailure
  let targetDir ← location t base (setting data "target_dir")
  let jniLibsDir ← location t base (setting data "jni_libs_dir")
  let ndkDir ← optionalLocation t base (setting data "ndk_dir")
  let ndkVersion ← optionalText (setting data "ndk_version")
  let cargoBin ← optionalText (setting data "cargo_bin")
  let environment ← writtenEntries environment
  let arguments ← arguments.mapM Failure.ofWriting
  let verbose := !(setting data "verbose").isBlank
  return {
    modulePath, architectures, libraries, targetDir, jniLibsDir, platform, ndkDir, ndkVersion, cargoBin
    environment, arguments, verbose, jobs, buildTypes }

end AbiBuild.Config
