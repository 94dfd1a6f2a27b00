import AbiBuild.Proofs.Tasks.Cycles
import AbiBuild.Proofs.Tasks.Hooks

namespace AbiBuild.Tasks

def Event.starts? (run : Nat) : Event → Option String
  | .started other task => if other = run then some task else none
  | _ => none

-- The tasks that a run has started, the first one first; a journal has the latest event first.
def started (run : Nat) (journal : List Event) : List String :=
  journal.reverse.filterMap (Event.starts? run)

-- The task whose action raised, and why: in the run itself or, where the action let out the failure of a
-- run inside it, in that run, and so on down.
inductive Blames : Nat → String → Session σ → String → Failure → Prop
  | own (fixed : s.graph.order name = .ok list)
      (starts : TaskStarts (nested level) s.runs list (s.begin list) task action u)
      (raised : nested level action u = some (.error cause, v)) : Blames level name s task cause
  | inside (fixed : s.graph.order name = .ok list)
      (starts : TaskStarts (nested level) s.runs list (s.begin list) outer action u)
      (raised : nested level action u = some (.error surfaced, v))
      (reached : Reaches depth action u q m)
      (ran : runOrder (nested lower) called m = some (.error surfaced, w))
      (blames : Blames lower called m task cause) : Blames level name s task cause

-- What comes of a run for the failure that a task's action raised.
structure Surfaces (task : String) (cause : Failure) (result : Except Failure (List String)) : Prop where
  ofBuild : cause.isOfBuild = true → result = .error cause
  leaving : cause.isLeaving = true → result = .error cause
  other : cause.isOfBuild = false → cause.isLeaving = false → result = .error (.task task cause)

variable {σ : Type} {callback : Callback σ} {s t u v : Session σ} {p q action : Program σ}
  {run depth level : Nat} {name task : String} {failed : Option Failure} {list : List String}
  {new old : List Event} {cause : Failure} {result : Except Failure (List String)}

theorem started_append : started run (new ++ old) = started run old ++ started run new := by
  simp [started]

theorem started_others (others : ∀ event ∈ new, event.run? ≠ some run) : started run new = [] := by
  refine List.filterMap_eq_nil_iff.mpr ?_
  intro event member
  have other := others event (List.mem_reverse.mp member)
  cases event with
  | started number task =>
    have apart : number ≠ run := fun same => other (congrArg some same)
    simp [Event.starts?, apart]
  | _ => rfl

theorem started_around {event : Event} (quiet : started run new = []) (last : event.starts? run = none) :
    started run (event :: new ++ [.started run task]) = [task] := by
  have none : started run [event] = [] := by simp [started, last]
  have one : started run [.started run task] = [task] := by simp [started, Event.starts?]
  calc started run (event :: new ++ [.started run task])
      = started run [.started run task] ++ started run ([event] ++ new) := started_append
    _ = [task] ++ (started run new ++ started run [event]) := by rw [one, started_append]
    _ = [task] := by rw [quiet, none]; rfl

theorem Grows.get?_action {since : Nat} (grows : Grows since s t)
    (found : s.graph.actions.get? task = some action) : t.graph.actions.get? task = some action := by
  obtain ⟨rest, more⟩ := grows.actions
  unfold Table.get? at found ⊢
  rw [← more, List.lookup_append, found]
  rfl

theorem action_of_mem_tasks {g : Graph σ} (present : task ∈ g.tasks) :
    ∃ action, g.actions.get? task = some action :=
  Option.isSome_iff_exists.mp (mem_tasks_iff.mp present)

theorem runTask_parts (sound : Sound callback) (inside : run < s.runs)
    (found : s.graph.actions.get? task = some action)
    (ran : runTask callback run task s = some (failed, t)) :
    Grows 0 s t ∧ ∃ new, t.journal = new ++ s.journal ∧ started run new = [task] ∧
      (failed = none ∨ ∃ cause m, callback action (s.note (.started run task)) = some (.error cause, m)) := by
  refine ⟨(runTask_keeps sound (Nat.zero_le _) (Nat.zero_le _) ran).grows, ?_⟩
  have quiet : ∀ {own result m}, callback own (s.note (.started run task)) = some (result, m) →
      ∃ new, m.journal = new ++ (s.note (.started run task)).journal ∧ started run new = [] := by
    intro own result m performed
    obtain ⟨new, journal, recent⟩ := (sound.keeps performed).grows.journal
    refine ⟨new, journal, started_others fun event member same => ?_⟩
    have bound : s.runs ≤ run := recent event member run same
    omega
  cases runTask_cases ran with
  | unknown absent => cases found.symm.trans absent
  | finished _ performed =>
    obtain ⟨new, journal, none_⟩ := quiet performed
    exact ⟨.finished run task :: new ++ [.started run task], by simp [Session.note, journal],
      started_around none_ rfl, .inl rfl⟩
  | raised there performed =>
    cases found.symm.trans there
    obtain ⟨new, journal, none_⟩ := quiet performed
    exact ⟨.raised run task :: new ++ [.started run task], by simp [Session.note, journal],
      started_around none_ rfl, .inr ⟨_, _, performed⟩⟩

theorem runTask_known (ran : runTask callback run task s = some (none, t)) :
    ∃ action, s.graph.actions.get? task = some action := by
  cases runTask_cases ran with
  | finished found _ => exact ⟨_, found⟩

theorem runTasks_ends (sound : Sound callback) (inside : run < s.runs)
    (known : ∀ task ∈ list, ∃ action, s.graph.actions.get? task = some action)
    (ran : runTasks callback run list s = some (failed, t)) : ∃ new, t.journal = new ++ s.journal ∧
      ((failed = none ∧ started run new = list) ∨ ∃ task action u cause v,
        TaskStarts callback run list s task action u ∧ callback action u = some (.error cause, v)) := by
  -- Induction on the tasks. A task that has an action when the run begins has the same one when it is started.
  induction list generalizing s with
  | nil =>
    cases ran
    exact ⟨[], rfl, .inl ⟨rfl, rfl⟩⟩
  | cons first rest ih =>
    obtain ⟨⟨outcome, m⟩, head, later⟩ := Option.bind_eq_some_iff.mp ran
    obtain ⟨action, found⟩ := known first (by simp)
    obtain ⟨grows, new, journal, one, calm | ⟨cause, v, raised⟩⟩ := runTask_parts sound inside found head
    · subst calm
      have remaining : ∀ task ∈ rest, ∃ action, m.graph.actions.get? task = some action := by
        intro task member
        obtain ⟨own, before⟩ := known task (List.mem_cons_of_mem _ member)
        exact ⟨own, grows.get?_action before⟩
      obtain ⟨newer, after, ending⟩ := ih (Nat.lt_of_lt_of_le inside grows.runs) remaining later
      refine ⟨newer ++ new, by rw [after, journal, List.append_assoc], ?_⟩
      rcases ending with ⟨rfl, all⟩ | ⟨task, own, u, cause, v, starts, raised⟩
      · exact .inl ⟨rfl, by rw [started_append, one, all]; rfl⟩
      · exact .inr ⟨task, own, u, cause, v, .later head starts, raised⟩
    · have journals : ∃ new, t.journal = new ++ s.journal :=
        (runTasks_keeps sound (Nat.zero_le _) (Nat.zero_le _) ran).grows.journal.imp fun _ both => both.1
      obtain ⟨all, split⟩ := journals
      exact ⟨all, split, .inr ⟨first, action, _, cause, v, .here found, raised⟩⟩

theorem taskStarts_action (sound : Sound callback)
    (known : ∀ task ∈ list, ∃ action, s.graph.actions.get? task = some action)
    (starts : TaskStarts callback run list s task action u) :
    task ∈ list ∧ s.graph.actions.get? task = some action := by
  induction starts with
  | here found => exact ⟨by simp, found⟩
  | @later first s m rest task action u ran starts ih =>
    have grows := (runTask_keeps sound (Nat.zero_le _) (Nat.zero_le _) ran).grows
    have remaining : ∀ task ∈ rest, ∃ action, m.graph.actions.get? task = some action := by
      intro other member
      obtain ⟨own, before⟩ := known other (List.mem_cons_of_mem _ member)
      exact ⟨own, grows.get?_action before⟩
    obtain ⟨member, found⟩ := ih remaining
    obtain ⟨own, before⟩ := known task (List.mem_cons_of_mem _ member)
    have same := (grows.get?_action before).symm.trans found
    exact ⟨List.mem_cons_of_mem _ member, by rw [before, Option.some.inj same]⟩

-- An action that raises is the last one started, and the run ends with what becomes of its failure.
theorem taskStarts_stops (sound : Sound callback) (inside : run < s.runs)
    (starts : TaskStarts callback run list s task action u)
    (raised : callback action u = some (.error cause, v)) : ∃ front back new,
      list = front ++ task :: back ∧ started run new = front ++ [task] ∧
      runTasks callback run list s = some (some (.ofTask task cause), v.note (.raised run task)) ∧
      (v.note (.raised run task)).journal = new ++ s.journal := by
  induction starts with
  | @here action task rest s found =>
    have head : runTask callback run task s =
        some (some (.ofTask task cause), v.note (.raised run task)) := by
      simp only [runTask, found, raised, Option.map_some]
    obtain ⟨_, new, journal, one, _⟩ := runTask_parts sound inside found head
    refine ⟨[], rest, new, rfl, one, ?_, journal⟩
    rw [runTasks, head]
    rfl
  | @later first s m rest task action u ran starts ih =>
    obtain ⟨own, found⟩ := runTask_known ran
    obtain ⟨grows, new, journal, one, _⟩ := runTask_parts sound inside found ran
    obtain ⟨front, back, newer, split, upTo, stopped, after⟩ :=
      ih (Nat.lt_of_lt_of_le inside grows.runs) raised
    refine ⟨first :: front, back, newer ++ new, by rw [split]; rfl, ?_, ?_, ?_⟩
    · rw [started_append, one, upTo]
      rfl
    · rw [runTasks, ran]
      exact stopped
    · rw [after, journal, List.append_assoc]

theorem ofTask_passes (name : String) (cause : Failure) : (Failure.ofTask name cause).passes = true := by
  unfold Failure.ofTask
  split
  · assumption
  · rfl

theorem ofTask_ofTask (outer name : String) (cause : Failure) :
    Failure.ofTask outer (.ofTask name cause) = .ofTask name cause :=
  if_pos (ofTask_passes name cause)

theorem ofTask_surfaces (task : String) (cause : Failure) : Surfaces task cause (.error (.ofTask task cause)) := by
  refine ⟨fun ofBuild => ?_, fun leaving => ?_, fun mishap stays => ?_⟩
  · simp [Failure.ofTask, Failure.passes, ofBuild]
  · simp [Failure.ofTask, Failure.passes, leaving]
  · simp [Failure.ofTask, Failure.passes, mishap, stays]

theorem started_begin {order : List String} :
    started run (new ++ [.began run order]) = started run new := by
  rw [started_append]
  rfl

theorem runOrder_ends (fixed : s.graph.order name = .ok list)
    (known : ∀ task ∈ list, ∃ action, s.graph.actions.get? task = some action)
    (ran : runOrder (nested level) name s = some (result, t)) : ∃ new, t.journal = new ++ s.journal ∧
      ((result = .ok list ∧ started s.runs new = list) ∨ ∃ task action u cause v,
        TaskStarts (nested level) s.runs list (s.begin list) task action u ∧
          nested level action u = some (.error cause, v)) := by
  simp only [runOrder, fixed] at ran
  obtain ⟨⟨outcome, m⟩, followed, same⟩ := Option.map_eq_some_iff.mp ran
  obtain ⟨new, journal, ending⟩ :=
    runTasks_ends (s := s.begin list) (nested_sound level) (Nat.lt_succ_self s.runs) known followed
  have last : m = t := by
    cases outcome with
    | none => exact (Prod.mk.inj same).2
    | some cause => exact (Prod.mk.inj same).2
  subst last
  refine ⟨new ++ [.began s.runs list], by rw [journal]; simp [Session.begin, Session.note], ?_⟩
  rcases ending with ⟨rfl, all⟩ | raising
  · exact .inl ⟨(Prod.mk.inj same).1.symm, started_begin.trans all⟩
  · exact .inr raising

theorem runOrder_stops (fixed : s.graph.order name = .ok list)
    (starts : TaskStarts (nested level) s.runs list (s.begin list) task action u)
    (raised : nested level action u = some (.error cause, v)) : ∃ front back new,
      list = front ++ task :: back ∧ started s.runs new = front ++ [task] ∧
      runOrder (nested level) name s =
        some (.error (.ofTask task cause), v.note (.raised s.runs task)) ∧
      (v.note (.raised s.runs task)).journal = new ++ s.journal := by
  obtain ⟨front, back, new, split, upTo, stopped, journal⟩ :=
    taskStarts_stops (nested_sound level) (Nat.lt_succ_self s.runs) starts raised
  refine ⟨front, back, new ++ [.began s.runs list], split, started_begin.trans upTo, ?_, ?_⟩
  · simp only [runOrder, fixed, stopped, Option.map_some]
  · rw [journal]
    simp [Session.begin, Session.note]

theorem blames_surfaces (blames : Blames level name s task cause)
    (ran : runOrder (nested level) name s = some (result, t)) : result = .error (.ofTask task cause) := by
  -- Induction on how far down the failure came from.
  induction blames generalizing result t with
  | own fixed starts raised =>
    obtain ⟨_, _, _, _, _, stopped, _⟩ := runOrder_stops fixed starts raised
    rw [stopped] at ran
    cases ran
    rfl
  | inside fixed starts raised _ within _ ih =>
    obtain ⟨_, _, _, _, _, stopped, _⟩ := runOrder_stops fixed starts raised
    rw [stopped] at ran
    cases Except.error.inj (ih within)
    rw [ofTask_ofTask] at ran
    cases ran
    rfl

-- What "lint" adds comes too late for the run, and "build" lets out the failure of the run inside it.
def release : Program Unit :=
  .register "fetch" (.fail offline) (.orFail
    (.register "lint" (.register "late" .skip (.orFail (.addNeed "build" "late" (.orFail .skip)))) (.orFail
      (.register "build" (.run "fetch" fun | .ok _ => .skip | .error cause => .fail cause) (.orFail
        (.addNeed "build" "lint" (.orFail (.register "deploy" .skip (.orFail
          (.addNeed "deploy" "build" (.orFail .skip)))))))))))

def released : Session Unit := ((execute 0 release (.start ())).map Prod.snd).getD (.start ())

theorem released_blames : Blames 2 "deploy" released "fetch" offline := by
  have fixed : released.graph.order "deploy" = .ok ["lint", "build", "deploy"] := rfl
  refine .inside fixed (.later rfl (.here rfl)) rfl (show Reaches 1 _ _ _ _ from .refl)
    (show runOrder (nested 1) "fetch" _ = _ from rfl) ?_
  exact .own rfl (.here rfl) rfl

def nesting (cause : Failure) : Program Unit :=
  .register "inner" (.fail cause) (.orFail
    (.register "outer" (.run "inner" fun | .ok _ => .skip | .error cause => .fail cause) (.orFail .skip)))

def nestingTasks (cause : Failure) : Session Unit :=
  ((execute 0 (nesting cause) (.start ())).map Prod.snd).getD (.start ())

-- The run ends with the failure that the inner task met, and this is not one under the task's name.
def Unnamed (cause : Failure) : Prop := ∃ q t,
  Reaches 0 (nesting cause) (.start ()) q (nestingTasks cause) ∧
    (nestingTasks cause).graph.has "outer" = true ∧ Blames 2 "outer" (nestingTasks cause) "inner" cause ∧
    runOrder (nested 2) "outer" (nestingTasks cause) = some (.error cause, t) ∧
    ∀ other, cause ≠ .task "inner" other

theorem nestingTasks_blames (cause : Failure) : Blames 2 "outer" (nestingTasks cause) "inner" cause := by
  have fixed : (nestingTasks cause).graph.order "outer" = .ok ["outer"] := rfl
  refine .inside fixed (.here rfl) rfl (show Reaches 1 _ _ _ _ from .refl)
    (show runOrder (nested 1) "inner" _ = _ from rfl) ?_
  exact .own rfl (.here rfl) rfl

theorem nesting_unnamed {cause : Failure} (passes : cause.passes = true)
    (other : ∀ other, cause ≠ .task "inner" other) : Unnamed cause := by
  have executed : execute 0 (nesting cause) (.start ()) = some (.ok .nothing, nestingTasks cause) := rfl
  obtain ⟨q, reached⟩ := execute_reaches executed
  obtain ⟨⟨result, t⟩, ran⟩ :
      ∃ ended, runOrder (nested 2) "outer" (nestingTasks cause) = some ended := ⟨_, rfl⟩
  have blames := nestingTasks_blames cause
  have surfaced : result = .error cause :=
    (blames_surfaces blames ran).trans (congrArg Except.error (if_pos passes))
  exact ⟨q, t, reached, rfl, blames, surfaced ▸ ran, other⟩

end AbiBuild.Tasks
