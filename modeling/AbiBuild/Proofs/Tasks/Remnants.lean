import AbiBuild.Proofs.Tasks.Wirings

namespace AbiBuild.Tasks

inductive Operation (σ : Type) : Type
  | register (name : String) (action : Program σ)
  | addNeed (task before : String)
  | whenAdded (listener : String → Program σ)
  | wire (build : Variant → Program σ) (names : List Value)

def Operation.program : Operation σ → Program σ
  | register name action => .register name action (.orFail .skip)
  | addNeed task before => .addNeed task before (.orFail .skip)
  | whenAdded listener => .whenAdded listener (.orFail .skip)
  | wire build names => Tasks.wire build names

-- The listeners in front have been told, one has failed, and those behind it are not called.
def Breaks (callback : Callback σ) (list : List (Delivery σ)) (s : Session σ) (cause : Failure) (t : Session σ) :
    Prop :=
  ∃ front index listener name back m, list = front ++ (index, listener, name) :: back ∧
    callAll callback front s = some (none, m) ∧ call callback index listener name m = some (some cause, t)

-- How far an operation has come that fails, and why it fails there.
inductive Remains (callback : Callback σ) : Operation σ → Session σ → Failure → Session σ → Prop
  | unknown {absent : String} (among : absent = task ∨ absent = before) (free : s.graph.has absent = false) :
      Remains callback (.addNeed task before) s (unknownTask absent) s
  | taken (there : s.graph.has name = true) :
      Remains callback (.register name action) s (.mishap (.value (.taskTaken name))) s
  | entered (free : s.graph.has name = false)
      (breaks : Breaks callback (s.graph.registering name) (s.enter name action) cause t) :
      Remains callback (.register name action) s cause t
  | installed (breaks : Breaks callback (s.graph.installing listener) (s.install listener) cause t) :
      Remains callback (.whenAdded listener) s cause t
  | misnamed (odd : names.mapM Variant.parse = .error fault) :
      Remains callback (.wire build names) s (.ofVariant fault) s
  | native {earlier later : List Variant} {v : Variant} {m : Session σ}
      (named : names.mapM Variant.parse = .ok (earlier ++ v :: later))
      (begun : registerNatives callback build earlier s = some (none, m))
      (remains : Remains callback (.register (nativeTask v) (build v)) m cause t) :
      Remains callback (.wire build names) s cause t

-- What the operation itself adds has stayed.
def Operation.Stays (s t : Session σ) : Operation σ → Prop
  | register name _ => name ∉ s.graph.tasks ∧ name ∈ t.graph.tasks
  | addNeed _ _ => False
  | whenAdded listener => s.graph.listeners ++ [listener] <+: t.graph.listeners
  | wire _ names => ∃ variants, names.mapM Variant.parse = .ok variants ∧
      ∃ v ∈ variants, nativeTask v ∉ s.graph.tasks ∧ nativeTask v ∈ t.graph.tasks

-- Nothing is lost or changes its place: more is only put behind it.
structure Kept (g h : Graph σ) : Prop where
  actions : g.actions <+: h.actions
  listeners : g.listeners <+: h.listeners
  needs : ∀ task list, g.needs.get? task = some list → ∃ more, h.needs.get? task = some (list ++ more)

variable {σ : Type} {callback : Callback σ} {s t m u : Session σ} {g h k : Graph σ} {p q : Program σ}
  {op : Operation σ} {name task before : String} {action : Program σ} {listener : String → Program σ}
  {list : List (Delivery σ)} {cause : Failure} {failed : Option Failure} {variants : List Variant}
  {build : Variant → Program σ} {names : List Value} {depth deep index : Nat}

theorem Kept.refl (g : Graph σ) : Kept g g :=
  ⟨List.prefix_refl _, List.prefix_refl _, fun _ list found => ⟨[], by simpa using found⟩⟩

theorem Kept.trans (first : Kept g h) (second : Kept h k) : Kept g k := by
  refine ⟨first.actions.trans second.actions, first.listeners.trans second.listeners, fun task list found => ?_⟩
  obtain ⟨more, middle⟩ := first.needs task list found
  obtain ⟨rest, last⟩ := second.needs task _ middle
  exact ⟨more ++ rest, by rw [last, List.append_assoc]⟩

theorem Kept.mem_tasks (kept : Kept g h) (present : name ∈ g.tasks) : name ∈ h.tasks :=
  mem_tasks_of_prefix kept.actions present

theorem kept_enter (g : Graph σ) (name : String) (action : Program σ) : Kept g (g.enter name action) := by
  refine ⟨List.prefix_append _ _, List.prefix_refl _, fun task list found => ⟨[], ?_⟩⟩
  unfold Table.get? at found ⊢
  rw [Graph.enter, List.lookup_append, found, List.append_nil]
  rfl

theorem kept_install (g : Graph σ) (listener : String → Program σ) : Kept g (g.install listener) :=
  ⟨List.prefix_refl _, List.prefix_append _ _, (Kept.refl g).needs⟩

theorem kept_addNeed (accepted : g.addNeed task before = .ok h) : Kept g h := by
  obtain ⟨after, added, rfl, _, _⟩ := graph_addNeed_parts accepted
  refine ⟨List.prefix_refl _, List.prefix_refl _, fun other list found => ?_⟩
  obtain ⟨present, here, _, ⟨_, rfl⟩ | ⟨_, rfl⟩⟩ := addNeed_put added
  · exact ⟨[], by simpa using found⟩
  · by_cases same : other = task
    · subst same
      cases here.symm.trans found
      exact ⟨[before], Table.get?_put_self _ _ _⟩
    · exact ⟨[], by rw [List.append_nil, Table.get?_put_of_ne _ same, found]⟩

theorem turn_kept (turn : Turn s t) : Kept s.graph t.graph := by
  cases turn with
  | world => exact .refl _
  | note => exact .refl _
  | enter action => exact kept_enter _ _ action
  | install listener => exact kept_install _ listener
  | begin => exact .refl _
  | addNeed accepted => exact kept_addNeed accepted

theorem turns_kept (turns : Turns s t) : Kept s.graph t.graph := by
  induction turns with
  | refl => exact .refl _
  | tail _ turn ih => exact ih.trans (turn_kept turn)

theorem callAll_breaks (ran : callAll callback list s = some (some cause, t)) : Breaks callback list s cause t := by
  induction list generalizing s with
  | nil => cases ran
  | cons item rest ih =>
    obtain ⟨index, listener, name⟩ := item
    obtain ⟨⟨outcome, m⟩, told, later⟩ := Option.bind_eq_some_iff.mp ran
    cases outcome with
    | some other =>
      cases later
      exact ⟨[], index, listener, name, rest, s, rfl, rfl, told⟩
    | none =>
      obtain ⟨front, number, other, task, back, last, rfl, before, broke⟩ := ih later
      refine ⟨(index, listener, name) :: front, number, other, task, back, last, rfl, ?_, broke⟩
      rw [callAll, told]
      exact before

theorem breaks_turns (turning : Turning callback) (breaks : Breaks callback list s cause t) : Turns s t := by
  obtain ⟨_, _, _, _, _, _, _, before, broke⟩ := breaks
  exact (callAll_turns turning before).trans (call_turns turning broke)

theorem register_remains (ran : register callback name action s = some (some cause, t)) :
    Remains callback (.register name action) s cause t := by
  cases register_cases ran with
  | taken there => exact .taken there
  | broken free broke => exact .entered free (callAll_breaks broke)

theorem register_enters (turning : Turning callback) (ran : register callback name action s = some (none, t)) :
    name ∉ s.graph.tasks ∧ name ∈ t.graph.tasks := by
  cases register_cases ran with
  | noted free told =>
    exact ⟨not_mem_tasks free,
      (turns_kept (callAll_turns turning told)).mem_tasks (mem_tasks_enter s name action)⟩

theorem registered_turns (turning : Turning callback) (remains : Remains callback (.register name action) s cause t) :
    Turns s t := by
  cases remains with
  | taken => exact .refl
  | entered free breaks => exact .head (.enter _ free) (breaks_turns turning breaks)

theorem registered_stays (turning : Turning callback) (remains : Remains callback (.register name action) s cause t) :
    t = s ∨ name ∉ s.graph.tasks ∧ name ∈ t.graph.tasks := by
  cases remains with
  | taken => exact .inl rfl
  | entered free breaks =>
    exact .inr ⟨not_mem_tasks free,
      (turns_kept (breaks_turns turning breaks)).mem_tasks (mem_tasks_enter s name action)⟩

theorem registerNatives_fails (ran : registerNatives callback build variants s = some (some cause, t)) :
    ∃ earlier v later m, variants = earlier ++ v :: later ∧ registerNatives callback build earlier s = some (none, m) ∧
      Remains callback (.register (nativeTask v) (build v)) m cause t := by
  induction variants generalizing s with
  | nil => cases ran
  | cons v others ih =>
    obtain ⟨⟨outcome, m⟩, first, rest⟩ := Option.bind_eq_some_iff.mp ran
    cases outcome with
    | some other =>
      cases rest
      exact ⟨[], v, others, s, rfl, rfl, register_remains first⟩
    | none =>
      obtain ⟨earlier, w, later, last, rfl, begun, remains⟩ := ih rest
      refine ⟨v :: earlier, w, later, last, rfl, ?_, remains⟩
      rw [registerNatives, first]
      exact begun

theorem registerNatives_enters (turning : Turning callback)
    (ran : registerNatives callback build variants s = some (none, t)) :
    ∀ v ∈ variants, nativeTask v ∈ t.graph.tasks := by
  induction variants generalizing s with
  | nil => exact fun _ member => by cases member
  | cons v others ih =>
    obtain ⟨⟨outcome, m⟩, first, rest⟩ := Option.bind_eq_some_iff.mp ran
    cases outcome with
    | some other => cases rest
    | none =>
      intro w member
      rcases List.mem_cons.mp member with rfl | inside
      · exact (turns_kept ((spans_turns turning).registerNatives rest)).mem_tasks (register_enters turning first).2
      · exact ih rest w inside

theorem graph_addNeed_refused (tabled : Tabled g) (refused : g.addNeed task before = .error cause) :
    ∃ absent, (absent = task ∨ absent = before) ∧ g.has absent = false ∧ cause = unknownTask absent := by
  unfold Graph.addNeed at refused
  cases hasTask : g.has task with
  | false =>
    simp only [hasTask, Bool.not_false, if_true] at refused
    cases refused
    exact ⟨task, .inl rfl, hasTask, rfl⟩
  | true =>
    cases hasBefore : g.has before with
    | false =>
      simp only [hasTask, hasBefore, Bool.not_true, Bool.not_false, if_true] at refused
      cases refused
      exact ⟨before, .inr rfl, hasBefore, rfl⟩
    | true =>
      -- Both are tasks, so the table has an entry for the one and takes the other into it.
      have present : task ∈ g.needs.keys := tabled.keys ▸ mem_tasks_iff.mpr hasTask
      obtain ⟨list, found⟩ := needsOf_of_mem_keys present
      simp [hasTask, hasBefore, addNeed, found, bind, Except.bind, pure, Except.pure] at refused

theorem hookListener_succeeds (tabled : Tabled s.graph) (present : name ∈ s.graph.tasks)
    (natives : ∀ v ∈ variants, nativeTask v ∈ s.graph.tasks) :
    executeWith callback (hookListener variants name) s ≠ some (.error cause, t) := by
  intro failed
  rcases hookNeeds_cases variants name with ⟨v, member, rfl⟩ | noHook
  · rw [hookListener_hookTask member] at failed
    simp only [executeWith] at failed
    cases outcome : s.graph.addNeed (hookTask v) (nativeTask v) with
    | ok graph =>
      rw [outcome] at failed
      cases failed
    | error other =>
      obtain ⟨absent, rfl | rfl, free, _⟩ := graph_addNeed_refused tabled outcome
      · exact not_mem_tasks free present
      · exact not_mem_tasks free (natives v member)
  · rw [hookListener_other noHook] at failed
    cases failed

theorem installing_succeeds (turning : Turning (executeWith callback)) {rest : List String} (tabled : Tabled s.graph)
    (present : ∀ name ∈ rest, name ∈ s.graph.tasks) (natives : ∀ v ∈ variants, nativeTask v ∈ s.graph.tasks) :
    callAll (executeWith callback) (rest.map fun name => (index, hookListener variants, name)) s ≠
      some (some cause, t) := by
  -- Induction on the tasks it has still to be told of.
  induction rest generalizing s with
  | nil => nofun
  | cons name rest ih =>
    intro failed
    obtain ⟨⟨outcome, m⟩, told, later⟩ := Option.bind_eq_some_iff.mp failed
    cases outcome with
    | some other =>
      cases call_cases told with
      | raised called =>
        have noted : Tabled (s.note (.called index name)).graph := tabled
        exact hookListener_succeeds noted (present name List.mem_cons_self) natives called
    | none =>
      have turns := call_turns turning told
      have kept := turns_kept turns
      exact ih (turns_tabled tabled turns)
        (fun name inside => kept.mem_tasks (present name (List.mem_cons_of_mem _ inside)))
        (fun v member => kept.mem_tasks (natives v member)) later

theorem hooks_installed (tabled : Tabled s.graph) (natives : ∀ v ∈ variants, nativeTask v ∈ s.graph.tasks) :
    whenAdded (nested deep) (hookListener variants) s ≠ some (some cause, t) := by
  intro failed
  cases deep with
  | zero =>
    obtain ⟨_, _, _, _, _, _, _, _, broke⟩ := callAll_breaks failed
    cases broke
  | succ deep =>
    have turning : Turning (nested (deep + 1) : Callback σ) := nested_turns _
    have unfolded : (nested (deep + 1) : Callback σ) = executeWith (nested deep) := execute_eq deep
    unfold whenAdded at failed
    rw [unfolded] at failed turning
    exact installing_succeeds turning (turn_tabled tabled (.install _)) (fun _ member => member) natives failed

theorem wireIn_remains (tabled : Tabled s.graph)
    (ran : wireIn (nested deep) variants build s = some (.error cause, t)) :
    registerNatives (nested deep) build variants s = some (some cause, t) := by
  cases wireIn_cases ran with
  | unregistered broke => exact broke
  | unhooked natives broke =>
    have turns := (spans_turns (nested_turns deep)).registerNatives natives
    exact absurd broke (hooks_installed (turns_tabled tabled turns) (registerNatives_enters (nested_turns deep) natives))

theorem orFail_failed (ran : executeWith callback (Program.orFail .skip failed) m = some (.error cause, t)) :
    failed = some cause ∧ m = t := by
  cases failed with
  | none => cases ran
  | some other =>
    cases ran
    exact ⟨rfl, rfl⟩

theorem operation_remains (tabled : Tabled s.graph) (ran : execute deep op.program s = some (.error cause, t)) :
    Remains (nested deep) op s cause t := by
  rw [execute_eq] at ran
  cases op with
  | register name action =>
    obtain ⟨⟨outcome, m⟩, entered, rest⟩ := Option.bind_eq_some_iff.mp ran
    obtain ⟨rfl, rfl⟩ := orFail_failed rest
    exact register_remains entered
  | addNeed task before =>
    simp only [Operation.program, executeWith] at ran
    cases outcome : s.graph.addNeed task before with
    | ok graph =>
      rw [outcome] at ran
      cases ran
    | error other =>
      rw [outcome] at ran
      obtain ⟨same, rfl⟩ := orFail_failed ran
      cases same
      obtain ⟨absent, among, free, rfl⟩ := graph_addNeed_refused tabled outcome
      exact .unknown among free
  | whenAdded listener =>
    obtain ⟨⟨outcome, m⟩, told, rest⟩ := Option.bind_eq_some_iff.mp ran
    obtain ⟨rfl, rfl⟩ := orFail_failed rest
    exact .installed (callAll_breaks told)
  | wire build names =>
    cases named : names.mapM Variant.parse with
    | error fault =>
      simp only [Operation.program, wire, named] at ran
      cases ran
      exact .misnamed named
    | ok variants =>
      simp only [Operation.program, wire, named] at ran
      obtain ⟨⟨result, m⟩, wired, rest⟩ := Option.bind_eq_some_iff.mp ran
      cases result with
      | ok answer => cases rest
      | error other =>
        cases rest
        obtain ⟨earlier, v, later, n, rfl, begun, remains⟩ := registerNatives_fails (wireIn_remains tabled wired)
        exact .native named begun remains

theorem remains_stays (remains : Remains (nested deep) op s cause t) : t = s ∨ op.Stays s t := by
  have turning : Turning (nested deep : Callback σ) := nested_turns deep
  cases remains with
  | unknown => exact .inl rfl
  | taken => exact .inl rfl
  | entered free breaks => exact registered_stays turning (.entered free breaks)
  | installed breaks => exact .inr (turns_kept (breaks_turns turning breaks)).listeners
  | misnamed => exact .inl rfl
  | @native build s cause t names earlier later v m named begun remains =>
    cases earlier with
    | nil =>
      cases begun
      exact (registered_stays turning remains).imp_right fun stays => ⟨_, named, v, by simp, stays⟩
    | cons first others =>
      obtain ⟨⟨outcome, n⟩, entered, rest⟩ := Option.bind_eq_some_iff.mp begun
      cases outcome with
      | some other => cases rest
      | none =>
        obtain ⟨fresh, there⟩ := register_enters turning entered
        have turns := ((spans_turns turning).registerNatives rest).trans (registered_turns turning remains)
        exact .inr ⟨_, named, first, by simp, fresh, (turns_kept turns).mem_tasks there⟩

theorem failed_operations_take_nothing_back {world : σ} (reached : Reaches depth p (.start world) q s)
    (failed : execute deep op.program s = some (.error cause, t)) :
    Remains (nested deep) op s cause t ∧ (t = s ∨ op.Stays s t) ∧ Kept s.graph t.graph ∧ Tabled t.graph := by
  have tabled := reached_tabled reached
  have turns : Turns s t := nested_turns (deep + 1) failed
  have remains := operation_remains tabled failed
  exact ⟨remains, remains_stays remains, turns_kept turns, turns_tabled tabled turns⟩

def noise : Failure := .mishap (.runtime "no")

def grudge : Program Unit :=
  .whenAdded (fun name => if name = nativeTask .debug then .register "lint" .skip fun _ => .fail noise else .skip)
    (.orFail .skip)

def grudging : Session Unit := ((execute 2 grudge (.start ())).map Prod.snd).getD (.start ())

def bothWired : Operation Unit := .wire (fun _ => .skip) [.text "release", .text "debug"]

def halfWired : Session Unit := ((execute 2 bothWired.program grudging).map Prod.snd).getD grudging

theorem half_wired_stays : (∃ q, Reaches 2 grudge (.start ()) q grudging) ∧
    execute 2 bothWired.program grudging = some (.error noise, halfWired) ∧
    halfWired.graph.tasks = ["buildCargoNdkRelease", "buildCargoNdkDebug", "lint"] ∧
    halfWired.graph.listeners.length = 1 ∧
    Remains (nested 2) bothWired grudging noise halfWired ∧
    (halfWired = grudging ∨ bothWired.Stays grudging halfWired) ∧
    Kept grudging.graph halfWired.graph ∧ Tabled halfWired.graph := by
  have executed : execute 2 grudge (.start ()) = some (.ok .nothing, grudging) := rfl
  have failed : execute 2 bothWired.program grudging = some (.error noise, halfWired) := rfl
  obtain ⟨q, reached⟩ := execute_reaches executed
  exact ⟨⟨q, reached⟩, failed, rfl, rfl, failed_operations_take_nothing_back reached failed⟩

def complaint : Program Unit := .whenAdded (fun _ => .fail noise) (.orFail .skip)

def complaining : Session Unit := ((execute 1 complaint (.start ())).map Prod.snd).getD (.start ())

def complained : Session Unit :=
  ((execute 1 (Operation.register "a" .skip).program complaining).map Prod.snd).getD complaining

-- The task that it is told of is registered all the same.
theorem failed_registration_not_undone : ¬ ∀ (depth deep : Nat) (p q : Program Unit) (op : Operation Unit)
    (s t : Session Unit) (cause : Failure), Reaches depth p (.start ()) q s →
      execute deep op.program s = some (.error cause, t) →
      t.graph.tasks = s.graph.tasks ∧ t.graph.edges = s.graph.edges ∧ t.graph.listeners = s.graph.listeners := by
  intro unchanged
  have executed : execute 1 complaint (.start ()) = some (.ok .nothing, complaining) := rfl
  have failed : execute 1 (Operation.register "a" .skip).program complaining = some (.error noise, complained) := rfl
  obtain ⟨q, reached⟩ := execute_reaches executed
  have same := (unchanged 1 1 complaint q (.register "a" .skip) complaining complained noise reached failed).1
  have before : complaining.graph.tasks = [] := rfl
  have after : complained.graph.tasks = ["a"] := rfl
  rw [before, after] at same
  cases same

end AbiBuild.Tasks
