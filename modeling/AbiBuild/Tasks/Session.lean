import AbiBuild.Tasks.Wiring

namespace AbiBuild.Tasks

-- Runs are numbered in the order they begin, listeners in the order they were installed. What is
-- registered or wired is noted when the call returns.
inductive Event
  | registered (name : String)
  | installed (listener : Nat)
  | called (listener : Nat) (name : String)
  | callFailed (listener : Nat) (name : String)
  | wired (variants : List Variant)
  | began (run : Nat) (order : List String)
  | started (run : Nat) (task : String)
  | finished (run : Nat) (task : String)
  | raised (run : Nat) (task : String)
  deriving DecidableEq, Repr

structure Graph (σ : Type) where
  actions : Table (Program σ)
  needs : Needs
  listeners : List (String → Program σ)

structure Session (σ : Type) where
  graph : Graph σ
  world : σ
  journal : List Event
  runs : Nat

abbrev Delivery (σ : Type) := Nat × (String → Program σ) × String

namespace Graph

def empty : Graph σ := ⟨[], [], []⟩

def has (g : Graph σ) (name : String) : Bool := (g.actions.get? name).isSome

def tasks (g : Graph σ) : List String := g.actions.keys

def edges (g : Graph σ) : List Edge := Tasks.edges g.needs

end Graph

def unknownTask (name : String) : Failure := .mishap (.key (.unknownTask name))

namespace Graph

def order (g : Graph σ) (name : String) : Except Failure (List String) :=
  if g.has name then Tasks.order g.needs name else .error (unknownTask name)

def answer (g : Graph σ) : Question → Except Failure Answer
  | .contains name => .ok (.flag (g.has name))
  | .tasks => .ok (.names g.tasks)
  | .edges => .ok (.edges g.edges)
  | .needs task => (needsOf g.needs task).map .names
  | .order name => (g.order name).map .names

def addNeed (g : Graph σ) (task before : String) : Except Failure (Graph σ) := do
  if !g.has task then throw (unknownTask task)
  if !g.has before then throw (unknownTask before)
  return { g with needs := ← Tasks.addNeed g.needs task before }

def enter (g : Graph σ) (name : String) (action : Program σ) : Graph σ :=
  ⟨g.actions ++ [(name, action)], g.needs ++ [(name, [])], g.listeners⟩

def install (g : Graph σ) (listener : String → Program σ) : Graph σ :=
  ⟨g.actions, g.needs, g.listeners ++ [listener]⟩

def registering (g : Graph σ) (name : String) : List (Delivery σ) :=
  ((List.range g.listeners.length).zip g.listeners).map fun (index, listener) =>
    (index, listener, name)

def installing (g : Graph σ) (listener : String → Program σ) : List (Delivery σ) :=
  g.tasks.map fun name => (g.listeners.length, listener, name)

end Graph

def Session.start (world : σ) : Session σ := ⟨.empty, world, [], 0⟩

def Session.note (s : Session σ) (event : Event) : Session σ :=
  { s with journal := event :: s.journal }

def Session.enter (s : Session σ) (name : String) (action : Program σ) : Session σ :=
  { s with graph := s.graph.enter name action }

def Session.install (s : Session σ) (listener : String → Program σ) : Session σ :=
  { s with graph := s.graph.install listener }.note (.installed s.graph.listeners.length)

def Session.begin (s : Session σ) (order : List String) : Session σ :=
  { s with runs := s.runs + 1 }.note (.began s.runs order)

-- What running a callback gives; nothing where it would nest too deep.
abbrev Callback (σ : Type) := Program σ → Session σ → Option (Except Failure Answer × Session σ)

abbrev Step (σ : Type) := Option (Option Failure × Session σ)

def call (callback : Callback σ) (index : Nat) (listener : String → Program σ) (name : String)
    (s : Session σ) : Step σ :=
  (callback (listener name) (s.note (.called index name))).map fun
    | (.ok _, s) => (none, s)
    | (.error cause, s) => (some cause, s.note (.callFailed index name))

def callAll (callback : Callback σ) : List (Delivery σ) → Session σ → Step σ
  | [], s => some (none, s)
  | (index, listener, name) :: rest, s =>
    (call callback index listener name s).bind fun
      | (none, s) => callAll callback rest s
      | (some cause, s) => some (some cause, s)

-- The listeners installed when the task is entered are called, each once.
def register (callback : Callback σ) (name : String) (action : Program σ) (s : Session σ) : Step σ :=
  if s.graph.has name then some (some (.mishap (.value (.taskTaken name))), s)
  else
    (callAll callback (s.graph.registering name) (s.enter name action)).map fun
      | (none, s) => (none, s.note (.registered name))
      | failed => failed

-- A new listener is called for the tasks that are there when it is installed.
def whenAdded (callback : Callback σ) (listener : String → Program σ) (s : Session σ) : Step σ :=
  callAll callback (s.graph.installing listener) (s.install listener)

def registerNatives (callback : Callback σ) (build : Variant → Program σ) :
    List Variant → Session σ → Step σ
  | [], s => some (none, s)
  | v :: others, s =>
    (register callback (nativeTask v) (build v) s).bind fun
      | (none, s) => registerNatives callback build others s
      | (some cause, s) => some (some cause, s)

-- The native tasks first, then the listener that makes the hooks need them. The answer is the edges
-- there are right after the wiring.
def wireIn (callback : Callback σ) (variants : List Variant) (build : Variant → Program σ)
    (s : Session σ) : Option (Except Failure Answer × Session σ) :=
  (registerNatives callback build variants s).bind fun
    | (some cause, s) => some (.error cause, s)
    | (none, s) =>
      (whenAdded callback (hookListener variants) s).map fun
        | (some cause, s) => (.error cause, s)
        | (none, s) => (.ok (.edges (nativeEdges variants s.graph.edges)), s.note (.wired variants))

def runTask (callback : Callback σ) (run : Nat) (task : String) (s : Session σ) : Step σ :=
  match s.graph.actions.get? task with
  | none => some (some (.mishap (.key (.noSuchTask task))), s)
  | some action =>
    (callback action (s.note (.started run task))).map fun
      | (.ok _, s) => (none, s.note (.finished run task))
      | (.error cause, s) => (some (.ofTask task cause), s.note (.raised run task))

def runTasks (callback : Callback σ) (run : Nat) : List String → Session σ → Step σ
  | [], s => some (none, s)
  | task :: rest, s =>
    (runTask callback run task s).bind fun
      | (none, s) => runTasks callback run rest s
      | (some cause, s) => some (some cause, s)

-- The order is fixed when the run begins.
def runOrder (callback : Callback σ) (name : String) (s : Session σ) :
    Option (Except Failure (List String) × Session σ) :=
  match s.graph.order name with
  | .error cause => some (.error cause, s)
  | .ok order =>
    (runTasks callback s.runs order (s.begin order)).map fun
      | (none, s) => (.ok order, s)
      | (some cause, s) => (.error cause, s)

def executeWith (callback : Callback σ) : Callback σ
  | .done answer, s => some (.ok answer, s)
  | .fail cause, s => some (.error cause, s)
  | .perform effect next, s =>
    let (world, failed) := effect s.world
    executeWith callback (next failed) { s with world := world }
  | .register name action next, s =>
    (register callback name action s).bind fun (failed, s) => executeWith callback (next failed) s
  | .addNeed task before next, s =>
    match s.graph.addNeed task before with
    | .ok graph => executeWith callback (next none) { s with graph := graph }
    | .error cause => executeWith callback (next (some cause)) s
  | .whenAdded listener next, s =>
    (whenAdded callback listener s).bind fun (failed, s) => executeWith callback (next failed) s
  | .ask question next, s => executeWith callback (next (s.graph.answer question)) s
  | .run name next, s =>
    (runOrder callback name s).bind fun (result, s) => executeWith callback (next result) s
  | .wire variants build next, s =>
    (wireIn callback variants build s).bind fun (result, s) => executeWith callback (next result) s

def execute : Nat → Callback σ
  | 0 => executeWith fun _ _ => none
  | depth + 1 => executeWith (execute depth)

end AbiBuild.Tasks
