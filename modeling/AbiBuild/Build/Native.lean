import AbiBuild.Build.Pool
import AbiBuild.Build.Search
import AbiBuild.Placement

namespace AbiBuild.Build

-- Who builds: a configuration with what is asked for on top of it. `ownPath` is where the process itself
-- looks for programs, whatever surroundings it is given to build in.
structure Builder where
  config : Config
  requested : List Value
  cargo : String
  overrides : Table String
  workers : Option Int
  environ : Table String
  ownPath : Option String
  platform : String
  deriving Repr

def named (s : Option String) : Option String := s.filter (!·.isEmpty)

def counted (n : Option Int) : Option Int := n.filter (· ≠ 0)

-- What is left out, empty or zero is taken from the configuration.
def Builder.of (config : Config) (cargo : Option String) (overrides : Table String)
    (workers : Option Int) (environ : Table String) : Builder where
  config := config
  requested := config.architectures.map fun a => .text a.text
  cargo := (named cargo).getD ((named config.cargoBin).getD "cargo")
  overrides := overrides
  workers := (counted workers).orElse fun _ => config.jobs
  environ := environ
  ownPath := environ.get? "PATH"
  platform := "linux"

namespace Builder

-- Later layers win: the surroundings, the toolchain, the configuration, the overrides.
def environment (b : Builder) (abi : Abi) (ndk : FilePath) : Table String :=
  (((Table.ofList b.environ).update
    (Ndk.toolchain ndk abi b.config.platform b.platform)).update b.config.environment).update
    b.overrides

def job (b : Builder) (cargo : String) (p : Profile) (ndk : FilePath) (abi : Abi) : Job where
  abi := abi
  profile := p
  libraries := b.config.libraries
  home := b.config.abiDir abi
  cargo := cargo
  command := Command.build b.config cargo abi p
  directory := b.config.modulePath.text
  environment := b.environment abi ndk

-- All that is settled before the first job begins.
structure Plan where
  invocation : Invocation
  jobs : List Job
  notices : List Notice

def searchPath (b : Builder) : String :=
  (b.environ.get? "PATH").getD (b.ownPath.getD systemPath)

def findCargo (b : Builder) (t : FileTree) : Except Failure String :=
  match findProgram t b.searchPath b.cargo with
  | some path => .ok path
  | none =>
    .error (.toolchain s!"cargo not found: {b.cargo} (install Rust or set cargo_bin)")

def checkManifest (b : Builder) (t : FileTree) : Except Failure Unit := do
  if ← Failure.ofFile (t.isFile b.config.manifest) then pure ()
  else throw (.config (.noManifest b.config.manifest))

def plan (b : Builder) (t : FileTree) (variant : Value) : Except Failure Plan := do
  let v ← (Variant.parse variant).mapError .variant
  let p ← (Variant.profile (.text v.text) b.config.overrides).mapError .ofVariant
  let architectures ← (Abi.resolve b.requested).mapError .architecture
  b.checkManifest t
  let cargo ← b.findCargo t
  let (ndk, notices) ← Ndk.find t b.config.ndkDir b.config.ndkVersion b.environ
  let _ ← Failure.ofWriting (.int b.config.platform)
  return ⟨.start v p architectures, architectures.map (b.job cargo p ndk), notices⟩

-- A number of workers below one is found out only when they are to begin.
def checkWorkers (b : Builder) : Except Failure Unit :=
  match b.workers with
  | some n => if n < 1 then .error (.mishap (.value .noWorkers)) else .ok ()
  | none => .ok ()

def invoke (b : Builder) (crew : Crew) (variant : Value) (w : Workshop) :
    Except Failure Invocation × Workshop :=
  match b.plan w.tree variant with
  | .error failure => (.error failure, w)
  | .ok plan =>
    let w := { w with notices := w.notices ++ plan.notices }
    match b.checkWorkers with
    | .error failure => (.error failure, w)
    | .ok () =>
      let (phases, w) := crew.run plan.jobs w
      (Pool.gather plan.invocation phases, w)

def install (b : Builder) (i : Invocation) (w : Workshop) : Except Failure Invocation × Workshop :=
  let progress := Placement.place w.tree i b.config.libraries b.config.jniLibsDir
  let w := { w with tree := progress.tree, notices := w.notices ++ progress.notices }
  match progress.failure with
  | some failure => (.error failure, w)
  | none =>
    let (report, notices) := Placement.require w.tree b.config.jniLibsDir (.text i.variant.text)
      i.architectures b.config.libraries
    let w := { w with notices := w.notices ++ notices }
    match report with
    | .error failure => (.error failure, w)
    | .ok _ => (.ok i, w)

-- Nothing is placed unless every architecture compiled.
def build (b : Builder) (crew : Crew) (variant : Value) (w : Workshop) :
    Except Failure Invocation × Workshop :=
  match b.invoke crew variant w with
  | (.error failure, w) => (.error failure, w)
  | (.ok i, w) =>
    match i.check with
    | .error failure => (.error failure, w)
    | .ok () => b.install i w

end Builder

end AbiBuild.Build
