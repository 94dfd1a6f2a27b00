import AbiBuild.Abi
import AbiBuild.FileFault
import AbiBuild.Number.Numeral
import AbiBuild.Variant
import AbiBuild.Version

namespace AbiBuild

inductive Stage
  | build
  | resolution
  | configuration
  | invocation
  | placement
  | wiring
  deriving DecidableEq, Repr

def Stage.text : Stage → String
  | .build => "build"
  | .resolution => "resolution"
  | .configuration => "configuration"
  | .invocation => "invocation"
  | .placement => "placement"
  | .wiring => "wiring"

namespace Config

inductive Fault
  | unknownKeys (keys : List String)
  | targetsNotList
  | librariesNotList
  | environmentNotMap
  | argumentsNotList
  | buildTypesNotMap
  | notInteger (reason : String)
  | jobsBelowOne
  | noLibraries
  | notLibraryName (name : Value)
  | libraryInPath (name : String)
  | libraryTwice (name : String)
  | notFound (path : FilePath)
  | unreadable (path : FilePath) (detail : String)
  | notMapping (path : FilePath)
  | noManifest (path : FilePath)
  | stated (text : String)
  deriving Repr

def Fault.message : Fault → String
  | unknownKeys keys => "Unknown config keys: " ++ ", ".intercalate keys
  | targetsNotList => "targets must be a list of architecture names"
  | librariesNotList => "libraries must be a list of shared library names"
  | environmentNotMap => "extra_cargo_env must be a mapping"
  | argumentsNotList => "extra_cargo_build_arguments must be a list"
  | buildTypesNotMap => "build_types must be a mapping of variant -> native build type"
  | notInteger reason => "platform and jobs must be integers: " ++ reason
  | jobsBelowOne => "jobs must be >= 1"
  | noLibraries => "No native libraries declared (libraries: [...])"
  | notLibraryName name => s!"Invalid native library name {name.literal}: expected a .so file name"
  | libraryInPath name =>
    s!"Invalid native library name {Text.quoted name}: must not contain a path"
  | libraryTwice name => "Duplicate native library name " ++ Text.quoted name
  | notFound path => "Config not found: " ++ path.text
  | unreadable path detail => s!"Cannot parse {path.text}: {detail}"
  | notMapping path => path.text ++ ": expected a mapping at top level"
  | noManifest path => path.text ++ " not found"
  | stated text => text

end Config

namespace Ndk

inductive Fault
  | configuredMissing (path : FilePath)
  | notFound
  | stated (text : String)
  deriving Repr

def Fault.message : Fault → String
  | configuredMissing path => "Configured ndk_dir does not exist: " ++ path.text
  | notFound =>
    "Android NDK not found. Set ndk_dir in config, or ANDROID_NDK_HOME / ANDROID_SDK_ROOT."
  | stated text => text

end Ndk

-- An architecture as a report names it: one of the known ones, or whatever it was called.
inductive Labelled
  | known (abi : Abi)
  | called (name : String)
  deriving DecidableEq, Repr

def Labelled.text : Labelled → String
  | .known abi => abi.text
  | .called name => name

def Labelled.ofText (s : String) : Labelled :=
  match Abi.named? s with
  | some abi => .known abi
  | none => .called s

-- A compilation that came to its end has the libraries it left; one that did not says why, with the
-- exit status if there was a process to have one.
inductive Outcome
  | built (artifacts : List (String × FilePath))
  | failed (diagnostic : String) (status : Option Int)
  deriving DecidableEq, Repr

structure Compilation where
  abi : Abi
  outcome : Outcome
  duration : Binary64
  deriving DecidableEq, Repr

namespace Compilation

def ok (c : Compilation) : Bool :=
  match c.outcome with
  | .built _ => true
  | .failed .. => false

def artifacts (c : Compilation) : List (String × FilePath) :=
  match c.outcome with
  | .built artifacts => artifacts
  | .failed .. => []

def diagnostic (c : Compilation) : String :=
  match c.outcome with
  | .built _ => ""
  | .failed diagnostic _ => diagnostic

def status (c : Compilation) : Option Int :=
  match c.outcome with
  | .built _ => some 0
  | .failed _ status => status

end Compilation

inductive ValueFault
  | version (fault : Version.Fault)
  | numeral (fault : Numeral.IntegerFault)
  | calendar (fault : CalendarFault)
  | characterPoint
  | halfPair
  | longInteger
  | notNumber (text : String)
  | taskTaken (name : String)
  | noWorkers
  | variableName
  | nulByte
  | stated (text : String)
  deriving Repr

def ValueFault.message : ValueFault → String
  | version fault => fault.message
  | numeral fault => fault.message
  | calendar fault => fault.message
  | notNumber text => "could not convert string to float: " ++ Text.quoted text
  | characterPoint => "chr() arg not in range(0x110000)"
  | halfPair => "surrogates not allowed"
  | longInteger =>
    s!"Exceeds the limit ({Numeral.digitLimit} digits) for integer string conversion; " ++
      "use sys.set_int_max_str_digits() to increase the limit"
  | taskTaken name => "Task already registered: " ++ name
  | noWorkers => "max_workers must be greater than 0"
  | variableName => "illegal environment variable name"
  | nulByte => "embedded null byte"
  | stated text => text

inductive KeyFault
  | unknownTask (name : String)
  | noSuchTask (name : String)
  | stated (text : String)
  deriving DecidableEq, Repr

def KeyFault.message : KeyFault → String
  | unknownTask name => "Unknown task: " ++ name
  | noSuchTask name => name
  | stated text => text

-- How a program is left. Nothing has failed then, and nobody on the way deals with it.
inductive Leaving
  | exit (status : Int)
  | interrupt
  deriving DecidableEq, Repr

def Leaving.text : Leaving → String
  | exit status => toString status
  | interrupt => ""

inductive Mishap
  | file (fault : FileFault)
  | value (fault : ValueFault)
  | key (fault : KeyFault)
  | type (text : String)
  | overflow (text : String)
  | index (text : String)
  | noAttribute (text : String)
  | runtime (text : String)
  | leaving (way : Leaving)
  deriving Repr

-- A missing key is quoted.
def Mishap.text : Mishap → String
  | file fault => fault.message
  | value fault => fault.message
  | key fault => Text.quoted fault.message
  | type text => text
  | overflow text => text
  | index text => text
  | noAttribute text => text
  | runtime text => text
  | leaving way => way.text

inductive Failure
  | general (text : String)
  | architecture (fault : Abi.Fault)
  | variant (fault : Variant.Fault)
  | config (fault : Config.Fault)
  | toolchain (text : String)
  | ndk (fault : Ndk.Fault)
  | compilation (subject : Labelled) (diagnostic : String) (failed : List Compilation)
  | missing (first : String × Labelled) (others : List (String × Labelled))
  | cycle (chain : List String)
  | cycleStated (text : String)
  | task (name : String) (cause : Failure)
  | mishap (cause : Mishap)
  deriving Repr

namespace Failure

def missingText (pair : String × Labelled) : String := s!"{pair.1} ({pair.2.text})"

def message : Failure → String
  | general text => text
  | architecture fault => fault.message
  | variant fault => fault.message
  | config fault => fault.message
  | toolchain text => text
  | ndk fault => fault.message
  | compilation subject diagnostic _ => s!"{subject.text}: {diagnostic}"
  | missing first others =>
    "Missing native libraries: " ++ ", ".intercalate ((first :: others).map missingText)
  | cycle chain => "Task dependency cycle: " ++ " -> ".intercalate chain
  | cycleStated text => text
  | task name cause => s!"Task {name} failed: {cause.message}"
  | mishap cause => cause.text

-- The stage where the build broke; a task breaks where its cause did, and at wiring if that has none.
def stage? : Failure → Option Stage
  | general _ => some .build
  | architecture _ => some .resolution
  | variant _ => some .resolution
  | config _ => some .configuration
  | toolchain _ => some .configuration
  | ndk _ => some .configuration
  | compilation .. => some .invocation
  | missing .. => some .placement
  | cycle _ => some .wiring
  | cycleStated _ => some .wiring
  | task _ cause => some (cause.stage?.getD .wiring)
  | mishap _ => none

def isOfBuild (f : Failure) : Bool := f.stage?.isSome

def text (f : Failure) : String :=
  match f.stage? with
  | some stage => s!"[{stage.text}] {f.message}"
  | none => f.message

-- A profile that cannot be looked up is no matter of variants.
def ofVariant : Variant.Fault → Failure
  | .notAName profile => .mishap (.type (Variant.Fault.notAName profile).message)
  | fault => .variant fault

def ofMissing : List (String × Labelled) → Failure
  | [] => .mishap (.index "list index out of range")
  | first :: others => .missing first others

def isLeaving : Failure → Bool
  | mishap (.leaving _) => true
  | _ => false

-- What a run of tasks lets out as it is.
def passes (f : Failure) : Bool := f.isOfBuild || f.isLeaving

-- What a task's failure surfaces as: any mishap that is not let out as it is comes under the task's name.
def ofTask (name : String) (cause : Failure) : Failure :=
  if cause.passes then cause else .task name cause

def ofFile (r : Except FileFault α) : Except Failure α := r.mapError fun f => .mishap (.file f)

def ofWriting (v : Value) : Except Failure String :=
  if v.isWritable then .ok v.display else .error (.mishap (.value .longInteger))

def report (f : Failure) : List String :=
  ("❌ " ++ f.text) ::
    match f with
    | compilation _ _ failed =>
      (failed.drop 1).map fun c =>
        s!"❌ [{Stage.invocation.text}] {c.abi.text}: {c.diagnostic}"
    | _ => []

end Failure

end AbiBuild
