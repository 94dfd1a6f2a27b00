import AbiBuild.Proofs.Tasks.Order
import AbiBuild.Tasks.Session

namespace AbiBuild.Tasks

def nested : Nat → Callback σ
  | 0 => fun _ _ => none
  | depth + 1 => execute depth

theorem execute_eq (depth : Nat) : (execute depth : Callback σ) = executeWith (nested depth) := by
  cases depth <;> rfl

-- The first operation of a program is over, and the rest of the program goes on.
inductive Continues (callback : Callback σ) : Program σ → Session σ → Program σ → Session σ → Prop
  | perform : Continues callback (.perform effect next) s (next (effect s.world).2)
      { s with world := (effect s.world).1 }
  | register (ran : register callback name action s = some (failed, t)) :
      Continues callback (.register name action next) s (next failed) t
  | added (accepted : s.graph.addNeed task before = .ok graph) :
      Continues callback (.addNeed task before next) s (next none) { s with graph := graph }
  | refused (cause_ : s.graph.addNeed task before = .error cause) :
      Continues callback (.addNeed task before next) s (next (some cause)) s
  | whenAdded (ran : whenAdded callback listener s = some (failed, t)) :
      Continues callback (.whenAdded listener next) s (next failed) t
  | ask : Continues callback (.ask question next) s (next (s.graph.answer question)) s
  | run (ran : runOrder callback name s = some (result, t)) :
      Continues callback (.run name next) s (next result) t
  | wire (ran : wireIn callback variants build s = some (result, t)) :
      Continues callback (.wire variants build next) s (next result) t

-- One of several calls begins, those before it having succeeded.
inductive CallStarts (callback : Callback σ) :
    List (Delivery σ) → Session σ → Program σ → Session σ → Prop
  | here : CallStarts callback ((index, listener, name) :: rest) s (listener name)
      (s.note (.called index name))
  | later (ran : call callback index listener name s = some (none, t))
      (starts : CallStarts callback rest t q u) :
      CallStarts callback ((index, listener, name) :: rest) s q u

-- The action of a task begins, those of the tasks before it in the order having succeeded.
inductive TaskStarts (callback : Callback σ) (run : Nat) :
    List String → Session σ → String → Program σ → Session σ → Prop
  | here (found : s.graph.actions.get? task = some action) :
      TaskStarts callback run (task :: rest) s task action (s.note (.started run task))
  | later (ran : runTask callback run first s = some (none, t))
      (starts : TaskStarts callback run rest t task action u) :
      TaskStarts callback run (first :: rest) s task action u

-- A listener is told of one of the native tasks that a wiring registers.
inductive NativeStarts (callback : Callback σ) (build : Variant → Program σ) :
    List Variant → Session σ → Program σ → Session σ → Prop
  | here (free : s.graph.has (nativeTask v) = false)
      (starts : CallStarts callback (s.graph.registering (nativeTask v))
        (s.enter (nativeTask v) (build v)) q t) :
      NativeStarts callback build (v :: others) s q t
  | later (ran : register callback (nativeTask v) (build v) s = some (none, t))
      (starts : NativeStarts callback build others t q u) :
      NativeStarts callback build (v :: others) s q u

-- The first operation of a program calls a listener or an action back.
inductive Enters (callback : Callback σ) : Program σ → Session σ → Program σ → Session σ → Prop
  | register (free : s.graph.has name = false)
      (starts : CallStarts callback (s.graph.registering name) (s.enter name action) q t) :
      Enters callback (.register name action next) s q t
  | whenAdded (starts : CallStarts callback (s.graph.installing listener) (s.install listener) q t) :
      Enters callback (.whenAdded listener next) s q t
  | run (fixed : s.graph.order name = .ok list)
      (starts : TaskStarts callback s.runs list (s.begin list) task q t) :
      Enters callback (.run name next) s q t
  | native (starts : NativeStarts callback build variants s q t) :
      Enters callback (.wire variants build next) s q t
  | hooked (ran : registerNatives callback build variants s = some (none, t))
      (starts : CallStarts callback (t.graph.installing (hookListener variants))
        (t.install (hookListener variants)) q u) :
      Enters callback (.wire variants build next) s q u

-- All that control passes through, from a program and a session on. A callback is one level deeper.
inductive Reaches : Nat → Program σ → Session σ → Program σ → Session σ → Prop
  | refl : Reaches depth p s p s
  | continues (taken : Continues (nested depth) p s q t) (later : Reaches depth q t p' u) :
      Reaches depth p s p' u
  | enters (into : Enters (nested (depth + 1)) p s q t) (later : Reaches depth q t p' u) :
      Reaches (depth + 1) p s p' u

-- An execution is a chain of operations that ends where the program is done or fails.
inductive Chain (callback : Callback σ) : Program σ → Session σ → Except Failure Answer → Session σ → Prop
  | done : Chain callback (.done answer) s (.ok answer) s
  | fail : Chain callback (.fail cause) s (.error cause) s
  | step (taken : Continues callback p s q t) (later : Chain callback q t result u) :
      Chain callback p s result u

-- The call of a listener is over. That it failed is noted behind what it did.
inductive CallEnds (callback : Callback σ) (index : Nat) (listener : String → Program σ) (name : String)
    (s : Session σ) : Option Failure → Session σ → Prop
  | returned (ran : callback (listener name) (s.note (.called index name)) = some (.ok answer, t)) :
      CallEnds callback index listener name s none t
  | raised (ran : callback (listener name) (s.note (.called index name)) = some (.error cause, t)) :
      CallEnds callback index listener name s (some cause) (t.note (.callFailed index name))

-- A registration is over: refused, noted once the listeners were told, or broken off by one of these.
inductive RegisterEnds (callback : Callback σ) (name : String) (action : Program σ) (s : Session σ) :
    Option Failure → Session σ → Prop
  | taken (there : s.graph.has name = true) :
      RegisterEnds callback name action s (some (.mishap (.value (.taskTaken name)))) s
  | noted (free : s.graph.has name = false)
      (told : callAll callback (s.graph.registering name) (s.enter name action) = some (none, t)) :
      RegisterEnds callback name action s none (t.note (.registered name))
  | broken (free : s.graph.has name = false)
      (broke : callAll callback (s.graph.registering name) (s.enter name action) = some (some cause, t)) :
      RegisterEnds callback name action s (some cause) t

-- A wiring is over, by its native tasks, by the listener behind these or with both.
inductive WireEnds (callback : Callback σ) (variants : List Variant) (build : Variant → Program σ)
    (s : Session σ) : Except Failure Answer → Session σ → Prop
  | unregistered (broke : registerNatives callback build variants s = some (some cause, t)) :
      WireEnds callback variants build s (.error cause) t
  | unhooked (natives : registerNatives callback build variants s = some (none, t))
      (broke : whenAdded callback (hookListener variants) t = some (some cause, u)) :
      WireEnds callback variants build s (.error cause) u
  | wired (natives : registerNatives callback build variants s = some (none, t))
      (added : whenAdded callback (hookListener variants) t = some (none, u)) :
      WireEnds callback variants build s (.ok (.edges (nativeEdges variants u.graph.edges)))
        (u.note (.wired variants))

-- The turn of a task in a run is over.
inductive TaskEnds (callback : Callback σ) (run : Nat) (task : String) (s : Session σ) :
    Option Failure → Session σ → Prop
  | unknown (absent : s.graph.actions.get? task = none) :
      TaskEnds callback run task s (some (.mishap (.key (.noSuchTask task)))) s
  | finished (found : s.graph.actions.get? task = some action)
      (ran : callback action (s.note (.started run task)) = some (.ok answer, t)) :
      TaskEnds callback run task s none (t.note (.finished run task))
  | raised (found : s.graph.actions.get? task = some action)
      (ran : callback action (s.note (.started run task)) = some (.error cause, t)) :
      TaskEnds callback run task s (some (.ofTask task cause)) (t.note (.raised run task))

-- A run is over. Without an order it has not begun.
inductive RunEnds (callback : Callback σ) (name : String) (s : Session σ) :
    Except Failure (List String) → Session σ → Prop
  | unordered (fixed : s.graph.order name = .error cause) : RunEnds callback name s (.error cause) s
  | followed (fixed : s.graph.order name = .ok list)
      (ran : runTasks callback s.runs list (s.begin list) = some (none, t)) :
      RunEnds callback name s (.ok list) t
  | stopped (fixed : s.graph.order name = .ok list)
      (broke : runTasks callback s.runs list (s.begin list) = some (some cause, t)) :
      RunEnds callback name s (.error cause) t

variable {σ : Type} {callback : Callback σ} {s t u : Session σ} {p q : Program σ}

variable {depth : Nat}

section Endings

variable {index run : Nat} {listener : String → Program σ} {name task : String} {action : Program σ}
  {failed : Option Failure} {variants : List Variant} {build : Variant → Program σ}

theorem call_cases (ran : call callback index listener name s = some (failed, t)) :
    CallEnds callback index listener name s failed t := by
  obtain ⟨⟨result, m⟩, called, same⟩ := Option.map_eq_some_iff.mp ran
  cases result with
  | ok answer =>
    cases same
    exact .returned called
  | error cause =>
    cases same
    exact .raised called

theorem register_cases (ran : register callback name action s = some (failed, t)) :
    RegisterEnds callback name action s failed t := by
  unfold register at ran
  split at ran
  · rename_i there
    cases ran
    exact .taken there
  · rename_i free
    rw [Bool.not_eq_true] at free
    obtain ⟨⟨outcome, m⟩, called, same⟩ := Option.map_eq_some_iff.mp ran
    cases outcome with
    | none =>
      cases same
      exact .noted free called
    | some cause =>
      cases same
      exact .broken free called

theorem wireIn_cases {result : Except Failure Answer}
    (ran : wireIn callback variants build s = some (result, t)) : WireEnds callback variants build s result t := by
  obtain ⟨⟨outcome, m⟩, natives, later⟩ := Option.bind_eq_some_iff.mp ran
  cases outcome with
  | some cause =>
    cases later
    exact .unregistered natives
  | none =>
    obtain ⟨⟨failed, k⟩, added, same⟩ := Option.map_eq_some_iff.mp later
    cases failed with
    | some cause =>
      cases same
      exact .unhooked natives added
    | none =>
      cases same
      exact .wired natives added

theorem runTask_cases (ran : runTask callback run task s = some (failed, t)) :
    TaskEnds callback run task s failed t := by
  unfold runTask at ran
  cases found : s.graph.actions.get? task with
  | none =>
    simp only [found] at ran
    cases ran
    exact .unknown found
  | some action =>
    simp only [found] at ran
    obtain ⟨⟨result, m⟩, performed, same⟩ := Option.map_eq_some_iff.mp ran
    cases result with
    | ok answer =>
      cases same
      exact .finished found performed
    | error cause =>
      cases same
      exact .raised found performed

theorem runOrder_cases {result : Except Failure (List String)}
    (ran : runOrder callback name s = some (result, t)) : RunEnds callback name s result t := by
  unfold runOrder at ran
  cases fixed : s.graph.order name with
  | error cause =>
    simp only [fixed] at ran
    cases ran
    exact .unordered fixed
  | ok order =>
    simp only [fixed] at ran
    obtain ⟨⟨outcome, m⟩, inside, same⟩ := Option.map_eq_some_iff.mp ran
    cases outcome with
    | none =>
      cases same
      exact .followed fixed inside
    | some cause =>
      cases same
      exact .stopped fixed inside

end Endings

theorem chain_reaches {result : Except Failure Answer} (chain : Chain (nested depth) p s result t) :
    ∃ q, Reaches depth p s q t := by
  induction chain with
  | done => exact ⟨_, .refl⟩
  | fail => exact ⟨_, .refl⟩
  | step taken _ ih =>
    obtain ⟨q, later⟩ := ih
    exact ⟨q, .continues taken later⟩

-- A relation between sessions that every operation of a program establishes.
structure Respects (callback : Callback σ) (related : Session σ → Session σ → Prop) : Prop where
  refl : ∀ s, related s s
  trans : ∀ {s t u}, related s t → related t u → related s u
  world : ∀ s world, related s { s with world := world }
  addNeed : ∀ {s task before graph}, s.graph.addNeed task before = .ok graph →
    related s { s with graph := graph }
  register : ∀ {name action s failed t}, register callback name action s = some (failed, t) →
    related s t
  whenAdded : ∀ {listener s failed t}, whenAdded callback listener s = some (failed, t) → related s t
  run : ∀ {name s result t}, runOrder callback name s = some (result, t) → related s t
  wire : ∀ {variants build s result t}, wireIn callback variants build s = some (result, t) →
    related s t

theorem Respects.continues {related : Session σ → Session σ → Prop} (kept : Respects callback related)
    (taken : Continues callback p s q t) : related s t := by
  cases taken with
  | perform => exact kept.world _ _
  | register ran => exact kept.register ran
  | added accepted => exact kept.addNeed accepted
  | refused => exact kept.refl _
  | whenAdded ran => exact kept.whenAdded ran
  | ask => exact kept.refl _
  | run ran => exact kept.run ran
  | wire ran => exact kept.wire ran

theorem executeWith_chain {result : Except Failure Answer}
    (ran : executeWith callback p s = some (result, t)) : Chain callback p s result t := by
  induction p generalizing s with
  | done answer => cases ran; exact .done
  | fail cause => cases ran; exact .fail
  | perform effect next ih => exact .step .perform (ih _ ran)
  | register name action next _ ih =>
    obtain ⟨⟨failed, m⟩, first, rest⟩ := Option.bind_eq_some_iff.mp ran
    exact .step (.register first) (ih failed rest)
  | addNeed task before next ih =>
    simp only [executeWith] at ran
    cases outcome : s.graph.addNeed task before with
    | ok graph =>
      rw [outcome] at ran
      exact .step (.added outcome) (ih _ ran)
    | error cause =>
      rw [outcome] at ran
      exact .step (.refused outcome) (ih _ ran)
  | whenAdded listener next _ ih =>
    obtain ⟨⟨failed, m⟩, first, rest⟩ := Option.bind_eq_some_iff.mp ran
    exact .step (.whenAdded first) (ih failed rest)
  | ask question next ih => exact .step .ask (ih _ ran)
  | run name next ih =>
    obtain ⟨⟨result, m⟩, first, rest⟩ := Option.bind_eq_some_iff.mp ran
    exact .step (.run first) (ih result rest)
  | wire variants build next _ ih =>
    obtain ⟨⟨result, m⟩, first, rest⟩ := Option.bind_eq_some_iff.mp ran
    exact .step (.wire first) (ih result rest)

theorem execute_reaches {result : Except Failure Answer}
    (ran : execute depth p s = some (result, t)) : ∃ q, Reaches depth p s q t := by
  rw [execute_eq] at ran
  exact chain_reaches (executeWith_chain ran)

theorem Respects.chain {related : Session σ → Session σ → Prop} {result : Except Failure Answer}
    (kept : Respects callback related) (chain : Chain callback p s result t) : related s t := by
  induction chain with
  | done => exact kept.refl _
  | fail => exact kept.refl _
  | step taken _ ih => exact kept.trans (kept.continues taken) ih

def Event.isCall : Event → Bool
  | .called _ _ => true
  | _ => false

-- A relation that callbacks and deliveries establish, and every smaller step. Runs and wirings consist of these.
structure Spans (callback : Callback σ) (related : Session σ → Session σ → Prop) : Prop where
  refl : ∀ s, related s s
  trans : ∀ {s t u}, related s t → related t u → related s u
  world : ∀ s world, related s { s with world := world }
  note : ∀ s event, event.isCall = false → related s (s.note event)
  begin : ∀ s order, related s (s.begin order)
  addNeed : ∀ {s task before graph}, s.graph.addNeed task before = .ok graph →
    related s { s with graph := graph }
  callee : ∀ {p s result t}, callback p s = some (result, t) → related s t
  register : ∀ {name action s failed t}, register callback name action s = some (failed, t) →
    related s t
  whenAdded : ∀ {listener s failed t}, whenAdded callback listener s = some (failed, t) → related s t

namespace Spans

variable {related : Session σ → Session σ → Prop} {run : Nat} {name task : String} {failed : Option Failure}
  {variants : List Variant} {build : Variant → Program σ} {order : List String}

theorem registerNatives (spans : Spans callback related)
    (ran : registerNatives callback build variants s = some (failed, t)) : related s t := by
  induction variants generalizing s with
  | nil =>
    cases ran
    exact spans.refl _
  | cons v others ih =>
    obtain ⟨⟨outcome, m⟩, first, later⟩ := Option.bind_eq_some_iff.mp ran
    have entered := spans.register first
    cases outcome with
    | some cause =>
      cases later
      exact entered
    | none => exact spans.trans entered (ih later)

theorem wireIn {result : Except Failure Answer} (spans : Spans callback related)
    (ran : wireIn callback variants build s = some (result, t)) : related s t := by
  cases wireIn_cases ran with
  | unregistered broke => exact spans.registerNatives broke
  | unhooked natives broke => exact spans.trans (spans.registerNatives natives) (spans.whenAdded broke)
  | wired natives added =>
    exact spans.trans (spans.trans (spans.registerNatives natives) (spans.whenAdded added)) (spans.note _ _ rfl)

theorem runTask (spans : Spans callback related)
    (ran : runTask callback run task s = some (failed, t)) : related s t := by
  have inside : ∀ {action result m}, callback action (s.note (.started run task)) = some (result, m) → related s m :=
    fun ran => spans.trans (spans.note s (.started run task) rfl) (spans.callee ran)
  cases runTask_cases ran with
  | unknown _ => exact spans.refl _
  | finished _ performed => exact spans.trans (inside performed) (spans.note _ _ rfl)
  | raised _ performed => exact spans.trans (inside performed) (spans.note _ _ rfl)

theorem runTasks (spans : Spans callback related)
    (ran : runTasks callback run order s = some (failed, t)) : related s t := by
  induction order generalizing s with
  | nil =>
    cases ran
    exact spans.refl _
  | cons first rest ih =>
    obtain ⟨⟨outcome, m⟩, head, later⟩ := Option.bind_eq_some_iff.mp ran
    have inside := spans.runTask head
    cases outcome with
    | some cause =>
      cases later
      exact inside
    | none => exact spans.trans inside (ih later)

theorem runOrder {result : Except Failure (List String)} (spans : Spans callback related)
    (ran : runOrder callback name s = some (result, t)) : related s t := by
  cases runOrder_cases ran with
  | unordered _ => exact spans.refl _
  | followed _ performed => exact spans.trans (spans.begin s _) (spans.runTasks performed)
  | stopped _ broke => exact spans.trans (spans.begin s _) (spans.runTasks broke)

theorem respects (spans : Spans callback related) : Respects callback related where
  refl := spans.refl
  trans := spans.trans
  world := spans.world
  addNeed := spans.addNeed
  register := spans.register
  whenAdded := spans.whenAdded
  run ran := spans.runOrder ran
  wire ran := spans.wireIn ran

end Spans

end AbiBuild.Tasks
