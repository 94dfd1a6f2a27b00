import AbiBuild.Build.Native
import AbiBuild.Config.Load
import AbiBuild.Tasks.Session

namespace AbiBuild.Console
open AbiBuild.Build

-- A command that is simply over has no status of its own.
inductive Ending
  | over
  | status (code : Nat)
  | broken (cause : Mishap)
  deriving Repr

structure Printed where
  output : List String
  errors : List String
  deriving DecidableEq, Repr

structure Run where
  ending : Ending
  printed : Printed
  workshop : Workshop
  deriving Repr

-- The configuration file, the directory that its paths are taken from if not its own, and what reads it.
structure Source where
  file : FilePath
  root : Option FilePath
  reader : Markup.Reader

def Source.load (s : Source) (t : FileTree) : Except Failure Config := Config.load s.reader t s.file s.root

def Run.finish (code : Nat) (output errors : List String) (w : Workshop) : Run :=
  ⟨.status code, ⟨output, errors⟩, w⟩

-- What was printed before the failure stays printed.
def Run.fail (output : List String) (failure : Failure) (w : Workshop) : Run :=
  match failure with
  | .mishap cause => ⟨.broken cause, ⟨output, []⟩, w⟩
  | failure => .finish 1 output failure.report w

-- The configuration and the variant, read in this order.
def prepare (s : Source) (variant : Value) (t : FileTree) : Except Failure (Config × Variant) := do
  let config ← s.load t
  let v ← (Variant.parse variant).mapError .variant
  return (config, v)

def listed (names : List String) : String := ", ".intercalate names

def openingLine (c : Config) (v : Variant) : String :=
  s!"🔨 Building native libraries ({v.text}) for {listed (c.architectures.map Abi.text)}..."

-- Libraries in the order of their names, whatever the order in which they are configured.
def builtLine (c : Compilation) : String :=
  let names := (Table.keys c.artifacts).mergeSort fun a b => decide (a ≤ b)
  s!"  ✅ {c.abi.text}: {listed names} ({c.duration.tenths}s)"

def closingLines (c : Config) (i : Invocation) : List String :=
  i.results.map builtLine ++
    [s!"📦 Placed in {(c.jniLibsDir.child i.variant.text).text}", "🎉 Native build complete!"]

def build (crew : Crew) (environ overrides : Table String) (s : Source) (variant : Value)
    (w : Workshop) : Run :=
  match prepare s variant w.tree with
  | .error failure => .fail [] failure w
  | .ok (c, v) =>
    match (Builder.of c none overrides none environ).build crew (.text v.text) w with
    | (.error failure, w) => .fail [openingLine c v] failure w
    | (.ok i, w) => .finish 0 (openingLine c v :: closingLines c i) [] w

def missingLine (v : Variant) (pair : String × Abi) : String :=
  s!"❌ {v.text}/{pair.2.text}: missing {pair.1}"

def mismatchLine (v : Variant) (m : Placement.Mismatch) : String :=
  s!"❌ {v.text}/{m.abi.text}: {m.library} is built for ELF machine {m.machine}"

def faultLines (v : Variant) (r : Placement.Report) : List String :=
  r.missing.map (missingLine v) ++ r.mismatched.map (mismatchLine v)

def completeLine (count : Nat) (abi : Abi) : String := s!"✅ {abi.text}: {count}/{count} libraries"

def validate (s : Source) (variant : Value) (w : Workshop) : Run :=
  match prepare s variant w.tree with
  | .error failure => .fail [] failure w
  | .ok (c, v) =>
    match Failure.ofFile (Placement.check w.tree c.jniLibsDir v c.architectures c.libraries) with
    | .error failure => .fail [] failure w
    | .ok report =>
      if report.passed then .finish 0 (c.architectures.map (completeLine c.libraries.length)) [] w
      else .finish 1 [] (faultLines v report) w

-- A task's build begins with a cancel flag of its own.
def nativeAction (b : Builder) (crew : Crew) (v : Variant) : Tasks.Program Workshop :=
  .perform (fun w =>
    match b.build crew (.text v.text) { w with cancelled := false } with
    | (.error failure, w) => (w, some failure)
    | (.ok _, w) => (w, none)) (.orFail .skip)

-- Callbacks of a package's tasks do not call back themselves.
def nesting : Nat := 2

def tooDeep : Failure := .mishap (.runtime "callbacks are nested too deep")

abbrev Package := Tasks.Session Workshop

def package (b : Builder) (crew : Crew) (w : Workshop) : Except Failure Package :=
  match Tasks.execute nesting (Tasks.packageGraph (nativeAction b crew)) (.start w) with
  | none => .error tooDeep
  | some (.error failure, _) => .error failure
  | some (.ok _, p) => .ok p

def loadPackage (crew : Crew) (environ : Table String) (s : Source) (w : Workshop) :
    Except Failure Package := do
  package (.of (← s.load w.tree) none [] none environ) crew w

def unknownTaskLine (task : String) (p : Package) : String :=
  s!"❌ Unknown task: {task}. Available: {listed p.graph.tasks}"

def doneLine (task : String) : String := s!"✅ :{task}"

def runTask (crew : Crew) (environ : Table String) (s : Source) (task : String)
    (w : Workshop) : Run :=
  match loadPackage crew environ s w with
  | .error failure => .fail [] failure w
  | .ok p =>
    if !p.graph.has task then .finish 1 [] [unknownTaskLine task p] p.world
    else
      match Tasks.runOrder (Tasks.execute nesting) task p with
      | none => .fail [] tooDeep p.world
      | some (.error failure, p) => .fail [] failure p.world
      | some (.ok order, p) => .finish 0 (order.map doneLine) [] p.world

def edgeLine (e : Tasks.Edge) : String := s!"{e.after} dependsOn {e.before}"

def listTasks (crew : Crew) (environ : Table String) (s : Source) (w : Workshop) : Run :=
  match loadPackage crew environ s w with
  | .error failure => .fail [] failure w
  | .ok p => .finish 0 (p.graph.edges.map edgeLine) [] w

end AbiBuild.Console
