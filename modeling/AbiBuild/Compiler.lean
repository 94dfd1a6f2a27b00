import AbiBuild.Config.Basic

namespace AbiBuild
open AbiBuild.Text

abbrev Command := List String

namespace Command

-- The word after the first occurrence of an option.
def valueOf (option : String) : Command → Option String
  | [] => none
  | word :: rest => if word = option then rest.head? else valueOf option rest

def triple (c : Command) : String := (valueOf "--target" c).getD ""

def targetDir (c : Command) : FilePath := .ofText ((valueOf "--target-dir" c).getD "")

def profile (c : Command) : Profile := if "--release" ∈ c then .release else .debug

def outputDir (c : Command) : FilePath := (c.targetDir.child c.triple).child c.profile.outputDir

def build (config : Config) (cargo : String) (abi : Abi) (p : Profile) : Command :=
  [cargo, "build", "--lib", "--manifest-path", config.manifest.text, "--target", abi.triple,
    "--target-dir", (config.abiDir abi).text] ++ p.arguments ++
    (if config.verbose then ["--verbose"] else []) ++ config.arguments

end Command

-- How a process comes to its end: the files it has left by then, its exit status, what it wrote to its
-- two streams, and the seconds it took.
structure Exit where
  writes : List (FilePath × Node)
  status : Int
  stdout : Bytes
  stderr : Bytes
  seconds : Binary64
  deriving DecidableEq, Repr

-- Both streams are read as text, standard output first; what is kept is the error stream's.
def Exit.said (e : Exit) : Except Utf8Error String := do
  let _ ← readText e.stdout
  readText e.stderr

-- `own` is the end that the process comes to undisturbed. It is waited for in short polls, and
-- `cancelOnPoll` says at which of them, counted from one, the build is called off. A process that does
-- not end when it is `asked` to is killed.
structure Process where
  own : Exit
  asked : Option Exit
  killed : Exit
  polls : Nat
  cancelOnPoll : Option Nat
  deriving DecidableEq, Repr

namespace Process

def writes (p : Process) : List (FilePath × Node) := p.own.writes

def status (p : Process) : Int := p.own.status

def seconds (p : Process) : Binary64 := p.own.seconds

def stopped (p : Process) : Exit := p.asked.getD p.killed

def left (p : Process) : List (FilePath × Node) := p.stopped.writes

end Process

inductive Start
  | refused (reason : String)
  | started (process : Process)
  deriving DecidableEq, Repr

abbrev Compiler := Command → Start

-- What happens for one target, wherever its command has it put the libraries.
structure Behaviour where
  startError : Option String
  libraries : List (String × Node)
  exit : Int
  stderr : String
  seconds : Binary64
  polls : Nat
  cancelOnPoll : Option Nat
  ignoresTerm : Bool
  deriving DecidableEq, Repr

-- By then a process that is stopped has left nothing, and it dies by the signal it is sent.
def Behaviour.halted (b : Behaviour) (signal : Int) : Exit := ⟨[], -signal, [], [], b.seconds⟩

def Behaviour.process (b : Behaviour) (c : Command) : Process where
  own :=
    { writes := b.libraries.map fun (name, node) => (c.outputDir.child name, node)
      status := b.exit
      stdout := []
      stderr := encode b.stderr
      seconds := b.seconds }
  asked := if b.ignoresTerm then none else some (b.halted 15)
  killed := b.halted 9
  polls := b.polls
  cancelOnPoll := b.cancelOnPoll

def Compiler.ofBehaviours (behaviour : String → Behaviour) : Compiler := fun c =>
  let b := behaviour c.triple
  match b.startError with
  | some reason => .refused reason
  | none => .started (b.process c)

-- A compiler that cannot be started at all.
def Compiler.unavailable (reason : String) : Compiler := fun _ => .refused reason

end AbiBuild
