import AbiBuild.Compiler
import AbiBuild.FileTree.Deposit
import AbiBuild.Invocation
import AbiBuild.Ndk
import AbiBuild.Notice

namespace AbiBuild.Build
open AbiBuild.Text

structure Job where
  abi : Abi
  profile : Profile
  libraries : List String
  home : FilePath
  cargo : String
  command : Command
  directory : String
  environment : Table String
  deriving DecidableEq, Repr

structure Call where
  command : Command
  directory : String
  environment : Table String
  deriving DecidableEq, Repr

-- All the texts that are handed over to the operating system when a process is started.
def Call.texts (c : Call) : List String :=
  c.command ++ c.directory :: c.environment.keys ++ c.environment.map Prod.snd

-- The bytes that a text is handed over as.
def handedOver (text : String) : Text.Bytes := text.toUTF8.data.toList

-- What no process can be started with.
def Call.fault? (c : Call) : Option ValueFault :=
  if c.environment.keys.any fun name => '='.toUInt8 ∈ handedOver name then some .variableName
  else if c.texts.any fun text => 0 ∈ handedOver text then some .nulByte
  else none

-- What jobs share. `alive` holds the architectures whose process has started and not ended.
structure Workshop where
  tree : FileTree
  cancelled : Bool
  calls : List Call
  notices : List Notice
  alive : List Abi
  deriving DecidableEq, Repr

def Workshop.opened (t : FileTree) : Workshop := ⟨t, false, [], [], []⟩

def Workshop.note (w : Workshop) (n : Notice) : Workshop := { w with notices := w.notices ++ [n] }

def Workshop.reap (w : Workshop) (abi : Abi) : Workshop := { w with alive := w.alive.erase abi }

namespace Job

def marker (j : Job) : FilePath := j.home.child Config.markerName

def outputDir (j : Job) (p : Profile) : FilePath := (j.home.child j.abi.triple).child p.outputDir

def libraryPath (j : Job) (p : Profile) (library : String) : FilePath :=
  (j.outputDir p).child library

def clearOutputs (j : Job) (t : FileTree) (p : Profile) : FileTree.Trail :=
  t.series (j.libraries.map fun library t => t.unlinkIfThere (j.libraryPath p library))

-- The profiles whose libraries an interrupted run may have left half-written: the recorded one, or all
-- where the record cannot be made out.
def staleProfiles (record : String) : List Profile :=
  match Profile.named? (strip record) with
  | some p => [p]
  | none => Profile.all

def staleNotice (j : Job) (stale : List Profile) : Notice :=
  let dirs := "/".intercalate (stale.map Profile.outputDir)
  .warning .compilation
    s!"{j.abi.text}: previous build was interrupted; discarding its {dirs} libraries"

def clearStale (j : Job) (stale : List Profile) (t : FileTree) : FileTree.Trail :=
  stale.foldl (fun r p =>
    match r.fault with
    | some _ => r
    | none => j.clearOutputs r.tree p) (.start t)

-- Nothing to discard where there is no marker.
def discard (j : Job) (t : FileTree) : FileTree.Trail × List Notice :=
  match t.isFile j.marker with
  | .error fault => (⟨t, some fault⟩, [])
  | .ok false => (.start t, [])
  | .ok true =>
    match t.readText j.marker with
    | .error fault => (⟨t, some fault⟩, [])
    | .ok record =>
      let stale := staleProfiles record
      (j.clearStale stale t, [j.staleNotice stale])

def mark (j : Job) (t : FileTree) : FileTree.Trail :=
  t.series [fun t => t.write j.marker (encode (j.profile.outputDir ++ "\n"))]

def failed (j : Job) (diagnostic : String) (status : Option Int) (duration : Binary64) : Compilation :=
  ⟨j.abi, .failed diagnostic status, duration⟩

def built (j : Job) (artifacts : List (String × FilePath)) (duration : Binary64) : Compilation :=
  ⟨j.abi, .built artifacts, duration⟩

def collect (j : Job) (t : FileTree) : Except FileFault (List (String × FilePath)) :=
  j.libraries.filterMapM fun library => do
    let path := j.libraryPath j.profile library
    return if ← t.isFile path then some (library, path) else none

def diagnostic (said : String) (status : Int) : String :=
  let tail := tailLines said 20
  if tail.isEmpty then s!"cargo exited with status {status}" else tail

def call (j : Job) : Call := ⟨j.command, j.directory, j.environment⟩

end Job

inductive Phase
  | ready
  | discarding
  | makingHome
  | clearing
  | marking
  | starting
  | running (process : Process) (polls : Nat)
  | stopping (process : Process)
  | exited (process : Process)
  | unmarking (process : Process) (artifacts : List (String × FilePath))
  | ended (result : Compilation)
  | broken (cause : Failure)
  deriving Repr

def Phase.isOver : Phase → Bool
  | .ended _ => true
  | .broken _ => true
  | _ => false

def Phase.result? : Phase → Option Compilation
  | .ended result => some result
  | _ => none

namespace Job

def processId : Nat := 4242

-- A refusal by the operating system fails this architecture alone; anything else breaks the build.
def afterPreparing (j : Job) (r : FileTree.Trail) (next : Phase) (w : Workshop) : Phase × Workshop :=
  let w := { w with tree := r.tree }
  match r.fault with
  | none => (next, w)
  | some fault =>
    if fault.isSystem then
      let text := s!"cannot prepare {j.home.text}: {fault.message}"
      (.ended (j.failed text none (.zero false)), w.note (.error .compilation s!"{j.abi.text}: {text}"))
    else (.broken (.mishap (.file fault)), w)

def launch (j : Job) (compiler : Compiler) (w : Workshop) : Phase × Workshop :=
  match j.call.fault? with
  | some fault => (.broken (.mishap (.value fault)), w)
  | none =>
    let w := { w with calls := w.calls ++ [j.call] }
    match compiler j.command with
    | .refused reason => (.ended (j.failed s!"cannot run {j.cargo}: {reason}" none (.zero false)), w)
    | .started process => (.running process 0, { w with alive := w.alive ++ [j.abi] })

-- One wait for the process: it ends, or the wait times out and the cancel flag is looked at.
def poll (j : Job) (p : Process) (polls : Nat) (w : Workshop) : Phase × Workshop :=
  if polls < p.polls then
    let w := { w with cancelled := w.cancelled || p.cancelOnPoll == some (polls + 1) }
    if w.cancelled then
      (.stopping p,
        w.note (.warning .compilation s!"{j.abi.text}: cancelling cargo (pid {processId})"))
    else (.running p (polls + 1), w)
  else (.exited p, { w.reap j.abi with tree := w.tree.depositAll p.writes })

-- The end of a process that is called off is waited for, and what it said by then is read as well.
def stop (j : Job) (p : Process) (w : Workshop) : Phase × Workshop :=
  let w := { w.reap j.abi with tree := w.tree.depositAll p.left }
  match p.stopped.said with
  | .error cause => (.broken (.mishap (.file (.notText cause))), w)
  | .ok _ => (.ended (j.failed "cancelled" (some p.stopped.status) p.stopped.seconds), w)

def judge (j : Job) (p : Process) (w : Workshop) : Phase × Workshop :=
  match p.own.said with
  | .error cause => (.broken (.mishap (.file (.notText cause))), w)
  | .ok said =>
    if p.status ≠ 0 then
      (.ended (j.failed (diagnostic said p.status) (some p.status) p.seconds),
        w.note (.error .compilation s!"{j.abi.text}: cargo failed with status {p.status}"))
    else
      match j.collect w.tree with
      | .error fault => (.broken (.mishap (.file fault)), w)
      | .ok artifacts => (.unmarking p artifacts, w)

def unmark (j : Job) (p : Process) (artifacts : List (String × FilePath)) (w : Workshop) :
    Phase × Workshop :=
  match w.tree.unlinkIfThere j.marker with
  | .error fault => (.broken (.mishap (.file fault)), w)
  | .ok after => (.ended (j.built artifacts p.seconds), { w with tree := after })

def step (j : Job) (compiler : Compiler) (phase : Phase) (w : Workshop) : Phase × Workshop :=
  match phase with
  | .ready =>
    if w.cancelled then (.ended (j.failed "cancelled" none (.zero false)), w) else (.discarding, w)
  | .discarding =>
    let (trail, notices) := j.discard w.tree
    j.afterPreparing trail .makingHome { w with notices := w.notices ++ notices }
  | .makingHome => j.afterPreparing (w.tree.ensureDirectory j.home) .clearing w
  | .clearing => j.afterPreparing (j.clearOutputs w.tree j.profile) .marking w
  | .marking => j.afterPreparing (j.mark w.tree) .starting w
  | .starting => j.launch compiler w
  | .running process polls => j.poll process polls w
  | .stopping process => j.stop process w
  | .exited process => j.judge process w
  | .unmarking process artifacts => j.unmark process artifacts w
  | .ended result => (.ended result, w)
  | .broken cause => (.broken cause, w)

def steps (j : Job) (compiler : Compiler) : Nat → Phase × Workshop → Phase × Workshop
  | 0, s => s
  | n + 1, s => steps j compiler n (j.step compiler s.1 s.2)

-- After the six steps of preparing and starting, the polls and at most four more are left.
def stepsLeft : Phase → Nat
  | .running p polls => p.polls - polls + 4
  | _ => 4

def run (j : Job) (compiler : Compiler) (w : Workshop) : Phase × Workshop :=
  let started := j.steps compiler 6 (.ready, w)
  j.steps compiler (stepsLeft started.1) started

end Job

end AbiBuild.Build
