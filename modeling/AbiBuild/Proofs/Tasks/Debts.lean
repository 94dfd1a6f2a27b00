import AbiBuild.Proofs.Tasks.Growth

namespace AbiBuild.Tasks

def Clean (s : Session σ) : Prop := ∀ index name, Event.callFailed index name ∉ s.journal

def Event.announces : Event → Bool
  | .registered _ | .wired _ => true
  | _ => false

-- `owed index name` holds where the listener of that number has still to be told of the task.
structure Owing (owed : Nat → String → Prop) (s : Session σ) : Prop where
  edge : ∀ index variants v, s.graph.listeners[index]? = some (hookListener variants) →
    v ∈ variants → hookTask v ∈ s.graph.tasks →
    Direct s.graph.needs (hookTask v) (nativeTask v) ∨ owed index (hookTask v)
  wired : ∀ variants, .wired variants ∈ s.journal → ∃ index,
    s.graph.listeners[index]? = some (hookListener variants) ∧
      ∀ name, .registered name ∈ s.journal → ¬ owed index name
  noted : ∀ name, .registered name ∈ s.journal → name ∈ s.graph.tasks
  known : ∀ index name, owed index name → index < s.graph.listeners.length ∧ name ∈ s.graph.tasks

-- What every call leaves as it was: the debts that it found, unless a listener has failed.
structure Keeps (since : Nat) (s t : Session σ) : Prop where
  grows : Grows since s t
  owing : Clean t → ∀ owed, Owing owed s → Owing owed t

structure Sound (callback : Callback σ) : Prop where
  keeps : ∀ {p s result t}, callback p s = some (result, t) → Keeps s.runs s t
  performs : ∀ {task before s answer t},
    callback (.addNeed task before (.orFail .skip)) s = some (.ok answer, t) →
    Direct t.graph.needs task before

-- The debts there are while a list of calls has still to be made.
def Owed (owed : Nat → String → Prop) (list : List (Delivery σ)) (index : Nat) (name : String) : Prop :=
  owed index name ∨ ∃ listener, (index, listener, name) ∈ list

def Listed (list : List (Delivery σ)) (s : Session σ) : Prop :=
  ∀ index listener name, (index, listener, name) ∈ list → s.graph.listeners[index]? = some listener

variable {σ : Type} {callback : Callback σ} {s t u m : Session σ} {p q : Program σ}
  {since index run depth : Nat} {name task : String} {event : Event} {owed : Nat → String → Prop}
  {listener : String → Program σ} {failed : Option Failure} {variants : List Variant} {v : Variant}
  {list : List (Delivery σ)} {build : Variant → Program σ}

theorem hookVariant?_hookTask (v : Variant) : hookVariant? (hookTask v) = some v := by
  cases v <;> decide

theorem hookListener_hookTask (member : v ∈ variants) :
    (hookListener variants (hookTask v) : Program σ) =
      .addNeed (hookTask v) (nativeTask v) (.orFail .skip) := by
  simp only [hookListener, hookVariant?_hookTask, if_pos member]

theorem Clean.back (grows : Grows since s t) (clean : Clean t) : Clean s :=
  fun index name noted => clean index name (grows.mem_journal noted)

theorem Clean.of_note (clean : Clean (s.note event)) : Clean s :=
  clean.back (show Grows 0 _ _ from grows_note fun _ _ => Nat.zero_le _)

-- Debts survive whatever neither enters a task nor installs a listener nor announces anything.
theorem Owing.carry (owing : Owing owed s) (grows : Grows since s t)
    (listeners : t.graph.listeners = s.graph.listeners) (tasks : t.graph.tasks = s.graph.tasks)
    (journal : ∀ event ∈ t.journal, event.announces = true → event ∈ s.journal) : Owing owed t where
  edge index variants v installed member present := by
    rw [listeners] at installed
    rw [tasks] at present
    rcases owing.edge index variants v installed member present with direct | still
    · exact .inl (grows.needs _ _ direct)
    · exact .inr still
  wired variants noted := by
    obtain ⟨index, installed, settled⟩ := owing.wired variants (journal _ noted rfl)
    exact ⟨index, listeners ▸ installed, fun name registered => settled name (journal _ registered rfl)⟩
  noted name registered := tasks ▸ owing.noted name (journal _ registered rfl)
  known index name still := by
    rw [listeners, tasks]
    exact owing.known index name still

theorem Keeps.refl (since : Nat) (s : Session σ) : Keeps since s s := ⟨.refl _ _, fun _ _ owing => owing⟩

theorem Keeps.trans (first : Keeps since s t) (second : Keeps since t u) : Keeps since s u :=
  ⟨first.grows.trans second.grows,
    fun clean owed owing => second.owing clean owed (first.owing (clean.back second.grows) owed owing)⟩

theorem Keeps.weaken {earlier : Nat} (keeps : Keeps since s t) (le : earlier ≤ since) :
    Keeps earlier s t := ⟨keeps.grows.weaken le, keeps.owing⟩

theorem owing_note (quiet : event.announces = false) (owing : Owing owed s) : Owing owed (s.note event) := by
  refine owing.carry (grows_note fun _ _ => Nat.zero_le _) rfl rfl ?_
  intro other noted announced
  rcases List.mem_cons.mp noted with rfl | old
  · rw [quiet] at announced
    cases announced
  · exact old

theorem keeps_note (quiet : event.announces = false)
    (recent : ∀ run, event.run? = some run → since ≤ run) : Keeps since s (s.note event) :=
  ⟨grows_note recent, fun _ _ owing => owing_note quiet owing⟩

theorem keeps_begin (le : since ≤ s.runs) (order : List String) : Keeps since s (s.begin order) := by
  refine ⟨grows_begin le order, ?_⟩
  intro _ owed owing
  refine owing.carry (grows_begin le order) rfl rfl ?_
  intro event noted announced
  rcases List.mem_cons.mp noted with rfl | old
  · cases announced
  · exact old

theorem call_keeps (sound : Sound callback)
    (ran : call callback index listener name s = some (failed, t)) : Keeps s.runs s t := by
  have told : ∀ {result m}, callback (listener name) (s.note (.called index name)) = some (result, m) →
      Keeps s.runs s m :=
    fun called => Keeps.trans (keeps_note rfl (by simp [Event.run?])) (sound.keeps called)
  cases call_cases ran with
  | returned called => exact told called
  | raised called => exact (told called).trans (keeps_note rfl (by simp [Event.run?]))

theorem call_failed {cause : Failure}
    (ran : call callback index listener name s = some (some cause, t)) : ¬ Clean t := by
  cases call_cases ran with
  | raised _ => exact fun clean => clean index name (by simp [Session.note])

theorem call_settles (sound : Sound callback)
    (installed : s.graph.listeners[index]? = some listener)
    (ran : call callback index listener name s = some (none, t))
    (owing : Owing (Owed owed ((index, listener, name) :: list)) t) : Owing (Owed owed list) t where
  edge other variants v found member present := by
    rcases owing.edge other variants v found member present with direct | still | ⟨l, waiting⟩
    · exact .inl direct
    · exact .inr (.inl still)
    · rcases List.mem_cons.mp waiting with head | rest
      · -- The listener is the hooks' own, and it was told of this very hook.
        cases head
        have here := (call_keeps sound ran).grows.listener installed
        have same : listener = hookListener variants := Option.some.inj (here.symm.trans found)
        subst same
        cases call_cases ran with
        | returned called =>
          rw [hookListener_hookTask member] at called
          exact .inl (sound.performs called)
      · exact .inr (.inr ⟨l, rest⟩)
  wired variants noted := by
    obtain ⟨other, found, settled⟩ := owing.wired variants noted
    refine ⟨other, found, ?_⟩
    rintro name registered (still | ⟨l, waiting⟩)
    · exact settled name registered (.inl still)
    · exact settled name registered (.inr ⟨l, List.mem_cons_of_mem _ waiting⟩)
  noted := owing.noted
  known other name := by
    rintro (still | ⟨l, waiting⟩)
    · exact owing.known other name (.inl still)
    · exact owing.known other name (.inr ⟨l, List.mem_cons_of_mem _ waiting⟩)

theorem Listed.tail {item : Delivery σ} (listed : Listed (item :: list) s) (grows : Grows since s t) :
    Listed list t := fun index listener name member =>
  grows.listener (listed index listener name (List.mem_cons_of_mem _ member))

theorem callAll_settles (sound : Sound callback) (listed : Listed list s)
    (ran : callAll callback list s = some (failed, t)) :
    Grows s.runs s t ∧
      (Clean t → ∀ owed, Owing (Owed owed list) s → failed = none ∧ Owing owed t) := by
  -- Induction on the calls: each pays its own debt and keeps those of the calls behind it.
  induction list generalizing s with
  | nil =>
    cases ran
    refine ⟨.refl _ _, fun _ owed owing => ⟨rfl, ?_⟩⟩
    have same : Owed owed ([] : List (Delivery σ)) = owed := by
      funext index name
      simp [Owed]
    exact same ▸ owing
  | cons item rest ih =>
    obtain ⟨index, listener, name⟩ := item
    obtain ⟨⟨outcome, m⟩, first, later⟩ := Option.bind_eq_some_iff.mp ran
    have kept := call_keeps sound first
    cases outcome with
    | some cause =>
      cases later
      exact ⟨kept.grows, fun clean => absurd clean (call_failed first)⟩
    | none =>
      obtain ⟨grows, settles⟩ := ih (listed.tail kept.grows) later
      refine ⟨kept.grows.trans (grows.weaken kept.grows.runs), ?_⟩
      intro clean owed owing
      have installed := listed index listener name (by simp)
      have middle := kept.owing (clean.back grows) _ owing
      exact settles clean owed (call_settles sound installed first middle)

theorem callStarts_owing (sound : Sound callback) (listed : Listed list s)
    (starts : CallStarts callback list s q t) :
    Grows s.runs s t ∧ (Clean t → ∀ owed, Owing (Owed owed list) s → ∃ owed, Owing owed t) := by
  induction starts with
  | here =>
    refine ⟨grows_note (by simp [Event.run?]), fun _ _ owing => ⟨_, owing_note rfl owing⟩⟩
  | @later index listener name s m rest q t ran starts ih =>
    have kept := call_keeps sound ran
    obtain ⟨grows, later⟩ := ih (listed.tail kept.grows)
    refine ⟨kept.grows.trans (grows.weaken kept.grows.runs), ?_⟩
    intro clean owed owing
    have installed := listed index listener name (by simp)
    have middle := kept.owing (clean.back grows) _ owing
    exact later clean owed (call_settles sound installed ran middle)

theorem mem_registering {g : Graph σ} :
    (index, listener, task) ∈ g.registering name ↔ g.listeners[index]? = some listener ∧ task = name := by
  unfold Graph.registering
  rw [List.mem_map]
  constructor
  · rintro ⟨⟨number, other⟩, member, same⟩
    obtain ⟨rfl, rfl, rfl⟩ : number = index ∧ other = listener ∧ name = task := by simpa using same
    obtain ⟨position, found⟩ := List.mem_iff_getElem?.mp member
    obtain ⟨numbered, installed⟩ := List.getElem?_zip_eq_some.mp found
    obtain ⟨bound, equal⟩ := List.getElem?_eq_some_iff.mp numbered
    rw [List.getElem_range] at equal
    have same : position = number := equal
    exact ⟨same ▸ installed, rfl⟩
  · rintro ⟨installed, rfl⟩
    have bound := (List.getElem?_eq_some_iff.mp installed).1
    have numbered : (List.range g.listeners.length)[index]? = some index := List.getElem?_range bound
    refine ⟨(index, listener), List.mem_iff_getElem?.mpr ⟨index, ?_⟩, rfl⟩
    exact List.getElem?_zip_eq_some.mpr ⟨numbered, installed⟩

theorem mem_installing {g : Graph σ} {given : String → Program σ} :
    (index, listener, task) ∈ g.installing given ↔
      index = g.listeners.length ∧ listener = given ∧ task ∈ g.tasks := by
  simp only [Graph.installing, List.mem_map, Prod.mk.injEq]
  constructor
  · rintro ⟨name, member, rfl, rfl, rfl⟩
    exact ⟨rfl, rfl, member⟩
  · rintro ⟨rfl, rfl, member⟩
    exact ⟨task, member, rfl, rfl, rfl⟩

theorem listed_registering (action : Program σ) :
    Listed (s.graph.registering name) (s.enter name action) :=
  fun _ _ _ member => (mem_registering.mp member).1

theorem listed_installing : Listed (s.graph.installing listener) (s.install listener) := by
  intro index other name member
  obtain ⟨rfl, rfl, _⟩ := mem_installing.mp member
  simp [Session.install, Session.note, Graph.install]

theorem tasks_enter (g : Graph σ) (name : String) (action : Program σ) :
    (g.enter name action).tasks = g.tasks ++ [name] := by
  simp [Graph.tasks, Graph.enter, Table.keys]

theorem mem_tasks_enter (s : Session σ) (name : String) (action : Program σ) :
    name ∈ (s.enter name action).graph.tasks := by
  show name ∈ (s.graph.enter name action).tasks
  simp [tasks_enter]

theorem not_mem_tasks {g : Graph σ} (free : g.has name = false) : name ∉ g.tasks := by
  intro member
  unfold Graph.has Table.get? at free
  rw [Option.isSome_eq_false_iff, Option.isNone_iff_eq_none, List.lookup_eq_none_iff] at free
  obtain ⟨⟨key, action⟩, present, rfl⟩ := List.mem_map.mp member
  simpa using free _ present

theorem owing_enter (free : s.graph.has name = false) (action : Program σ) (owing : Owing owed s) :
    Owing (Owed owed (s.graph.registering name)) (s.enter name action) where
  edge index variants v installed member present := by
    have among : hookTask v ∈ s.graph.tasks ++ [name] := tasks_enter s.graph name action ▸ present
    rcases List.mem_append.mp among with old | new
    · rcases owing.edge index variants v installed member old with direct | still
      · exact .inl (direct_enter direct)
      · exact .inr (.inl still)
    · exact .inr (.inr ⟨_, mem_registering.mpr ⟨installed, List.mem_singleton.mp new⟩⟩)
  wired variants noted := by
    obtain ⟨index, installed, settled⟩ := owing.wired variants noted
    refine ⟨index, installed, ?_⟩
    rintro other registered (still | ⟨l, waiting⟩)
    · exact settled other registered still
    · -- The task is not registered yet: its own registration is what is under way.
      obtain ⟨_, rfl⟩ := mem_registering.mp waiting
      exact not_mem_tasks free (owing.noted other registered)
  noted other registered := by
    show other ∈ (s.graph.enter name action).tasks
    rw [tasks_enter]
    exact List.mem_append_left _ (owing.noted other registered)
  known index other := by
    show _ → index < s.graph.listeners.length ∧ other ∈ (s.graph.enter name action).tasks
    rw [tasks_enter]
    rintro (still | ⟨l, waiting⟩)
    · obtain ⟨bound, member⟩ := owing.known index other still
      exact ⟨bound, List.mem_append_left _ member⟩
    · obtain ⟨installed, rfl⟩ := mem_registering.mp waiting
      exact ⟨(List.getElem?_eq_some_iff.mp installed).1, by simp⟩

theorem owing_install (owing : Owing owed s) (listener : String → Program σ) :
    Owing (Owed owed (s.graph.installing listener)) (s.install listener) where
  edge index variants v installed member present := by
    have among : (s.graph.listeners ++ [listener])[index]? = some (hookListener variants) := installed
    rcases Nat.lt_or_ge index s.graph.listeners.length with old | new
    · rw [List.getElem?_append_left old] at among
      rcases owing.edge index variants v among member present with direct | still
      · exact .inl direct
      · exact .inr (.inl still)
    · have last : index = s.graph.listeners.length := by
        have bound := (List.getElem?_eq_some_iff.mp among).1
        simp only [List.length_append, List.length_singleton] at bound
        omega
      exact .inr (.inr ⟨listener, mem_installing.mpr ⟨last, rfl, present⟩⟩)
  wired variants noted := by
    have before : .wired variants ∈ s.journal := by simpa [Session.install, Session.note] using noted
    obtain ⟨index, installed, settled⟩ := owing.wired variants before
    have bound := (List.getElem?_eq_some_iff.mp installed).1
    refine ⟨index, (show Grows 0 _ _ from grows_install listener).listener installed, ?_⟩
    rintro name registered (still | ⟨l, waiting⟩)
    · exact settled name (by simpa [Session.install, Session.note] using registered) still
    · obtain ⟨rfl, _⟩ := mem_installing.mp waiting
      omega
  noted name registered :=
    owing.noted name (by simpa [Session.install, Session.note] using registered)
  known index name := by
    have longer : (s.install listener).graph.listeners.length = s.graph.listeners.length + 1 := by
      simp [Session.install, Session.note, Graph.install]
    rw [longer]
    rintro (still | ⟨l, waiting⟩)
    · obtain ⟨bound, member⟩ := owing.known index name still
      exact ⟨by omega, member⟩
    · obtain ⟨rfl, _, member⟩ := mem_installing.mp waiting
      exact ⟨by omega, member⟩

theorem owing_registered (owing : Owing owed s) (entered : name ∈ s.graph.tasks)
    (settled : ∀ index, ¬ owed index name) : Owing owed (s.note (.registered name)) where
  edge := owing.edge
  wired variants noted := by
    have before : .wired variants ∈ s.journal := by simpa [Session.note] using noted
    obtain ⟨index, installed, clear⟩ := owing.wired variants before
    refine ⟨index, installed, fun other registered => ?_⟩
    rcases List.mem_cons.mp registered with same | old
    · cases same
      exact settled index
    · exact clear other old
  noted other registered := by
    rcases List.mem_cons.mp registered with same | old
    · cases same
      exact entered
    · exact owing.noted other old
  known := owing.known

theorem owing_wired (owing : Owing owed s)
    (installed : s.graph.listeners[index]? = some (hookListener variants))
    (settled : ∀ name, ¬ owed index name) : Owing owed (s.note (.wired variants)) where
  edge := owing.edge
  wired others noted := by
    have among : ∀ name, .registered name ∈ (s.note (.wired variants)).journal →
        .registered name ∈ s.journal := by
      intro name registered
      simpa [Session.note] using registered
    rcases List.mem_cons.mp noted with same | old
    · cases same
      exact ⟨index, installed, fun name _ => settled name⟩
    · obtain ⟨other, found, clear⟩ := owing.wired others old
      exact ⟨other, found, fun name registered => clear name (among name registered)⟩
  noted name registered := owing.noted name (by simpa [Session.note] using registered)
  known := owing.known

theorem register_keeps {action : Program σ} (sound : Sound callback)
    (ran : register callback name action s = some (failed, t)) : Keeps s.runs s t := by
  have entered : Grows s.runs s (s.enter name action) := grows_enter action
  cases register_cases ran with
  | taken _ => exact .refl _ _
  | broken free broke =>
    obtain ⟨grows, settles⟩ := callAll_settles sound (listed_registering action) broke
    refine ⟨entered.trans grows, fun clean owed owing => ?_⟩
    exact (settles clean owed (owing_enter free action owing)).2
  | noted free told =>
    obtain ⟨grows, settles⟩ := callAll_settles sound (listed_registering action) told
    refine ⟨(entered.trans grows).trans (grows_note (by simp [Event.run?])), fun clean owed owing => ?_⟩
    have settled := (settles clean.of_note owed (owing_enter free action owing)).2
    exact owing_registered settled (grows.mem_tasks (mem_tasks_enter s name action)) fun index still =>
      not_mem_tasks free (owing.known index name still).2

theorem whenAdded_keeps (sound : Sound callback)
    (ran : whenAdded callback listener s = some (failed, t)) : Keeps s.runs s t := by
  obtain ⟨grows, settles⟩ := callAll_settles sound listed_installing ran
  refine ⟨(grows_install listener).trans grows, fun clean owed owing => ?_⟩
  exact (settles clean owed (owing_install owing listener)).2

theorem registerNatives_keeps (sound : Sound callback)
    (ran : registerNatives callback build variants s = some (failed, t)) : Keeps s.runs s t := by
  induction variants generalizing s with
  | nil =>
    cases ran
    exact .refl _ _
  | cons v others ih =>
    obtain ⟨⟨outcome, m⟩, first, later⟩ := Option.bind_eq_some_iff.mp ran
    have kept := register_keeps sound first
    cases outcome with
    | some cause =>
      cases later
      exact kept
    | none => exact kept.trans ((ih later).weaken kept.grows.runs)

theorem wireIn_keeps {result : Except Failure Answer} (sound : Sound callback)
    (ran : wireIn callback variants build s = some (result, t)) : Keeps s.runs s t := by
  cases wireIn_cases ran with
  | unregistered broke => exact registerNatives_keeps sound broke
  | unhooked natives broke =>
    have kept := registerNatives_keeps sound natives
    exact kept.trans ((whenAdded_keeps sound broke).weaken kept.grows.runs)
  | @wired m k natives added =>
    have kept := registerNatives_keeps sound natives
    have told := whenAdded_keeps sound added
    have whole := kept.trans (told.weaken kept.grows.runs)
    refine ⟨whole.grows.trans (grows_note (by simp [Event.run?])), fun clean owed owing => ?_⟩
    have before : Clean k := clean.of_note
    have middle := kept.owing (before.back told.grows) owed owing
    have installed : k.graph.listeners[m.graph.listeners.length]? = some (hookListener variants) := by
      obtain ⟨grows, _⟩ := callAll_settles sound listed_installing added
      apply grows.listener
      simp [Session.install, Session.note, Graph.install]
    refine owing_wired (told.owing before owed middle) installed fun name still => ?_
    have bound := (middle.known _ name still).1
    omega

-- The events of a run carry its number, which the runs inside it do not share.
theorem runTask_keeps (sound : Sound callback) (le : since ≤ run) (recent : since ≤ s.runs)
    (ran : runTask callback run task s = some (failed, t)) : Keeps since s t := by
  have kept : ∀ {action result m}, callback action (s.note (.started run task)) = some (result, m) →
      Keeps since s m := fun performed =>
    Keeps.trans (keeps_note rfl (by simpa [Event.run?])) ((sound.keeps performed).weaken recent)
  cases runTask_cases ran with
  | unknown _ => exact .refl _ _
  | finished _ performed => exact (kept performed).trans (keeps_note rfl (by simpa [Event.run?]))
  | raised _ performed => exact (kept performed).trans (keeps_note rfl (by simpa [Event.run?]))

theorem runTasks_keeps {order : List String} (sound : Sound callback) (le : since ≤ run)
    (recent : since ≤ s.runs) (ran : runTasks callback run order s = some (failed, t)) :
    Keeps since s t := by
  induction order generalizing s with
  | nil =>
    cases ran
    exact .refl _ _
  | cons first rest ih =>
    obtain ⟨⟨outcome, m⟩, head, later⟩ := Option.bind_eq_some_iff.mp ran
    have kept := runTask_keeps sound le recent head
    cases outcome with
    | some cause =>
      cases later
      exact kept
    | none => exact kept.trans (ih (Nat.le_trans recent kept.grows.runs) later)

theorem runOrder_keeps {result : Except Failure (List String)} (sound : Sound callback)
    (ran : runOrder callback name s = some (result, t)) : Keeps s.runs s t := by
  have kept : ∀ {order outcome m}, runTasks callback s.runs order (s.begin order) = some (outcome, m) →
      Keeps s.runs s m := fun inside =>
    (keeps_begin (Nat.le_refl s.runs) _).trans (runTasks_keeps sound (Nat.le_refl s.runs) (Nat.le_succ _) inside)
  cases runOrder_cases ran with
  | unordered _ => exact .refl _ _
  | followed _ inside => exact kept inside
  | stopped _ broke => exact kept broke

theorem respects_keeps (sound : Sound callback) : Respects callback (fun s t => Keeps s.runs s t) where
  refl s := .refl _ _
  trans first second := first.trans (second.weaken first.grows.runs)
  world s world :=
    ⟨grows_world world, fun _ _ owing => owing.carry (show Grows 0 _ _ from grows_world world) rfl rfl
      fun _ noted _ => noted⟩
  addNeed accepted := by
    have grows : Grows 0 _ _ := grows_addNeed accepted
    obtain ⟨after, _, rfl, _, _⟩ := graph_addNeed_parts accepted
    exact ⟨grows_addNeed accepted, fun _ _ owing => owing.carry grows rfl rfl fun _ noted _ => noted⟩
  register ran := register_keeps sound ran
  whenAdded ran := whenAdded_keeps sound ran
  run ran := runOrder_keeps sound ran
  wire ran := wireIn_keeps sound ran

theorem executeWith_sound (sound : Sound callback) : Sound (executeWith callback) where
  keeps ran := (respects_keeps sound).chain (executeWith_chain ran)
  performs := by
    intro task before s answer t ran
    unfold executeWith at ran
    cases outcome : s.graph.addNeed task before with
    | error cause =>
      simp only [outcome, Program.orFail, executeWith] at ran
      cases ran
    | ok graph =>
      simp only [outcome, Program.orFail, Program.skip, executeWith] at ran
      cases ran
      obtain ⟨after, added, rfl, _, _⟩ := graph_addNeed_parts outcome
      exact addNeed_direct added

theorem nested_sound (depth : Nat) : Sound (nested depth : Callback σ) := by
  -- Induction on how deep callbacks may nest.
  induction depth with
  | zero =>
    refine ⟨?_, ?_⟩
    · intro p s result t ran
      cases ran
    · intro task before s answer t ran
      cases ran
  | succ depth ih =>
    show Sound (execute depth)
    rw [execute_eq]
    exact executeWith_sound ih

end AbiBuild.Tasks
