import AbiBuild.Build.Job

namespace AbiBuild.Build

structure Pool where
  jobs : List (Job × Phase)
  workshop : Workshop
  deriving Repr

inductive Move
  | advance (index : Nat)
  | cancel
  deriving DecidableEq, Repr

namespace Pool

def start (jobs : List Job) (w : Workshop) : Pool := ⟨jobs.map fun j => (j, .ready), w⟩

def isOver (p : Pool) : Bool := p.jobs.all fun s => s.2.isOver

def hasBegun : Phase → Bool
  | .ready => false
  | _ => true

def busy (p : Pool) : Nat := (p.jobs.filter fun s => hasBegun s.2 && !s.2.isOver).length

-- Whether a job may take a step: it is under way, or it is next to begin and a worker is free.
def mayAdvance (workers : Nat) (p : Pool) (index : Nat) : Bool :=
  match p.jobs[index]? with
  | none => false
  | some (_, phase) =>
    !phase.isOver &&
      (hasBegun phase ||
        ((p.jobs.take index).all fun s => hasBegun s.2) && decide (p.busy < workers))

def apply (compiler : Compiler) (p : Pool) : Move → Pool
  | .cancel => { p with workshop := { p.workshop with cancelled := true } }
  | .advance index =>
    match p.jobs[index]? with
    | none => p
    | some (job, phase) =>
      let (phase, workshop) := job.step compiler phase p.workshop
      ⟨p.jobs.set index (job, phase), workshop⟩

def allowed (workers : Nat) (p : Pool) : Move → Bool
  | .cancel => true
  | .advance index => p.mayAdvance workers index

-- The pools that a number of workers can reach, in whatever way their steps fall.
inductive Reaches (compiler : Compiler) (workers : Nat) : Pool → List Move → Pool → Prop
  | nil (p : Pool) : Reaches compiler workers p [] p
  | cons {p last : Pool} {move : Move} {rest : List Move}
      (may : p.allowed workers move = true)
      (later : Reaches compiler workers (p.apply compiler move) rest last) :
      Reaches compiler workers p (move :: rest) last

def runInOrder (compiler : Compiler) : List Job → Workshop → List Phase × Workshop
  | [], w => ([], w)
  | j :: rest, w =>
    let (phase, w) := j.run compiler w
    let (phases, w) := runInOrder compiler rest w
    (phase :: phases, w)

def breakage : List Phase → Option Failure
  | [] => none
  | .broken cause :: _ => some cause
  | _ :: rest => breakage rest

def record (i : Invocation) (phases : List Phase) : Invocation :=
  (phases.filterMap Phase.result?).foldl Invocation.record i

-- The invocation with a result for every job, unless something broke.
def gather (i : Invocation) (phases : List Phase) : Except Failure Invocation :=
  match breakage phases with
  | some cause => .error cause
  | none => .ok (record i phases)

end Pool

-- Those who do the jobs, letting their steps fall as they may: they leave the phase that each job has come to.
structure Crew where
  run : List Job → Workshop → List Phase × Workshop

def Crew.inOrder (compiler : Compiler) : Crew := ⟨Pool.runInOrder compiler⟩

-- Where nothing is said of the crew, the jobs are done one after the other.
instance : Coe Compiler Crew := ⟨Crew.inOrder⟩

end AbiBuild.Build
