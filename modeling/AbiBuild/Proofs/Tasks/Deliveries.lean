import AbiBuild.Proofs.Tasks.Tables
import Mathlib.Data.List.Count

namespace AbiBuild.Tasks

def told (s : Session σ) (index : Nat) (name : String) : Nat := s.journal.count (.called index name)

def due (s : Session σ) (index : Nat) (name : String) : Nat :=
  if index < s.graph.listeners.length then s.graph.tasks.count name else 0

def asked (list : List (Delivery σ)) (index : Nat) (name : String) : Nat :=
  (list.map fun d => (d.1, d.2.2)).count (index, name)

-- From one session to the other, the calls in the list have been made and those that have become due; some
-- were missed only if a listener has failed.
structure Settles (list : List (Delivery σ)) (s t : Session σ) : Prop where
  calm : Clean t → Clean s
  balance : ∀ index name, ∃ missed, told t index name + due s index name + missed =
    told s index name + asked list index name + due t index name ∧ (Clean t → missed = 0)

-- A callback that settles all that it makes due.
def Settling (callback : Callback σ) : Prop :=
  ∀ {p s result t}, callback p s = some (result, t) → Settles [] s t

variable {σ : Type} {callback : Callback σ} {s t u : Session σ} {p q : Program σ}
  {index other run depth : Nat} {name task before : String} {event : Event} {failed : Option Failure}
  {listener : String → Program σ} {action : Program σ} {list more : List (Delivery σ)}
  {variants : List Variant} {build : Variant → Program σ} {order : List String}

theorem asked_nil : asked ([] : List (Delivery σ)) index name = 0 := rfl

theorem asked_append : asked (list ++ more) index name = asked list index name + asked more index name := by
  simp [asked]

theorem told_note (quiet : event.isCall = false) : told (s.note event) index name = told s index name := by
  unfold told Session.note
  apply List.count_cons_of_ne
  intro same
  subst same
  cases quiet

theorem told_called (listener : String → Program σ) : told (s.note (.called index name)) other task =
    told s other task + asked [(index, listener, name)] other task := by
  unfold told asked Session.note
  rw [List.count_cons, List.map_singleton, List.count_singleton]
  simp [Prod.ext_iff]

theorem due_enter : due (s.enter name action) index task =
    due s index task + asked (s.graph.registering name) index task := by
  have numbers : (s.graph.registering name).map (fun d => (d.1, d.2.2)) =
      (List.range s.graph.listeners.length).map fun index => (index, name) := by
    have whole : ((List.range s.graph.listeners.length).zip s.graph.listeners).map Prod.fst =
        List.range s.graph.listeners.length := List.map_fst_zip (by simp)
    unfold Graph.registering
    rw [List.map_map, ← congrArg (List.map fun index => (index, name)) whole, List.map_map]
    rfl
  have listeners : (s.enter name action).graph.listeners = s.graph.listeners := rfl
  have tasks : (s.enter name action).graph.tasks = s.graph.tasks ++ [name] := tasks_enter _ _ _
  unfold due asked
  rw [numbers, listeners, tasks, List.count_append, List.count_singleton]
  by_cases same : name = task
  · subst same
    rw [List.count_map_of_injective _ _ (fun _ _ equal => (Prod.mk.inj equal).1), List.nodup_range.count]
    by_cases bound : index < s.graph.listeners.length <;> simp [bound]
  · have absent : ((List.range s.graph.listeners.length).map fun index => (index, name)).count (index, task) = 0 := by
      apply List.count_eq_zero_of_not_mem
      simp [same]
    rw [absent]
    simp [same]

theorem due_install : due (s.install listener) index task =
    due s index task + asked (s.graph.installing listener) index task := by
  have names : (s.graph.installing listener).map (fun d => (d.1, d.2.2)) =
      s.graph.tasks.map fun name => (s.graph.listeners.length, name) := by
    unfold Graph.installing
    rw [List.map_map]
    rfl
  have listeners : (s.install listener).graph.listeners.length = s.graph.listeners.length + 1 := by
    simp [Session.install, Session.note, Graph.install]
  have tasks : (s.install listener).graph.tasks = s.graph.tasks := rfl
  unfold due asked
  rw [names, listeners, tasks]
  by_cases last : index = s.graph.listeners.length
  · subst last
    rw [List.count_map_of_injective _ _ (fun _ _ equal => (Prod.mk.inj equal).2)]
    simp
  · have absent : (s.graph.tasks.map fun name => (s.graph.listeners.length, name)).count (index, task) = 0 := by
      apply List.count_eq_zero_of_not_mem
      simp [Ne.symm last]
    rw [absent]
    by_cases bound : index < s.graph.listeners.length
    · have still : index < s.graph.listeners.length + 1 := by omega
      simp [bound, still]
    · have beyond : ¬ index < s.graph.listeners.length + 1 := by omega
      simp [bound, beyond]

theorem settles_same (calm : Clean t → Clean s) (calls : ∀ index name, told t index name = told s index name)
    (dues : ∀ index name, due t index name = due s index name) : Settles [] s t := by
  refine ⟨calm, fun index name => ⟨0, ?_, fun _ => rfl⟩⟩
  rw [calls, dues, asked_nil]
  omega

theorem Settles.refl (s : Session σ) : Settles [] s s := settles_same id (fun _ _ => rfl) fun _ _ => rfl

theorem Settles.trans (first : Settles list s t) (second : Settles more t u) : Settles (list ++ more) s u := by
  refine ⟨fun clean => first.calm (second.calm clean), fun index name => ?_⟩
  obtain ⟨missed, one, none_⟩ := first.balance index name
  obtain ⟨missedToo, two, noneToo⟩ := second.balance index name
  refine ⟨missed + missedToo, ?_, fun clean => ?_⟩
  · rw [asked_append]
    omega
  · rw [none_ (second.calm clean), noneToo clean]

-- Calls that are made for what has just become due settle it.
theorem Settles.since (made : Settles list t u) (calm : Clean t → Clean s)
    (calls : ∀ index name, told t index name = told s index name)
    (dues : ∀ index name, due t index name = due s index name + asked list index name) : Settles [] s u := by
  refine ⟨fun clean => calm (made.calm clean), fun index name => ?_⟩
  obtain ⟨missed, equal, none_⟩ := made.balance index name
  refine ⟨missed, ?_, none_⟩
  rw [calls, dues] at equal
  rw [asked_nil]
  omega

theorem settles_note (quiet : event.isCall = false) : Settles [] s (s.note event) :=
  settles_same Clean.of_note (fun _ _ => told_note quiet) fun _ _ => rfl

theorem settles_begin (order : List String) : Settles [] s (s.begin order) :=
  settles_same (Clean.back (grows_begin (Nat.zero_le _) order))
    (fun _ _ => told_note (s := { s with runs := s.runs + 1 }) rfl) fun _ _ => rfl

theorem settles_addNeed {graph : Graph σ} (accepted : s.graph.addNeed task before = .ok graph) :
    Settles [] s { s with graph := graph } := by
  obtain ⟨after, added, rfl, _, _⟩ := graph_addNeed_parts accepted
  exact settles_same id (fun _ _ => rfl) fun _ _ => rfl

theorem call_settled (settling : Settling callback)
    (ran : call callback index listener name s = some (failed, t)) : Settles [(index, listener, name)] s t := by
  have made : ∀ {result m}, callback (listener name) (s.note (.called index name)) = some (result, m) →
      Settles [(index, listener, name)] s m := by
    intro result m called
    have inside := settling called
    refine ⟨fun clean => (inside.calm clean).of_note, fun other task => ?_⟩
    obtain ⟨missed, equal, none_⟩ := inside.balance other task
    refine ⟨missed, ?_, none_⟩
    rw [told_called listener, asked_nil] at equal
    exact equal
  cases call_cases ran with
  | returned called => exact made called
  | raised called => exact (made called).trans (settles_note rfl)

theorem callAll_settled (settling : Settling callback)
    (ran : callAll callback list s = some (failed, t)) : Settles list s t := by
  -- Induction on the calls. Those behind one that fails are missed, but then a listener has failed.
  induction list generalizing s with
  | nil =>
    cases ran
    exact .refl _
  | cons item rest ih =>
    obtain ⟨index, listener, name⟩ := item
    obtain ⟨⟨outcome, m⟩, first, later⟩ := Option.bind_eq_some_iff.mp ran
    have made := call_settled settling first
    cases outcome with
    | some cause =>
      cases later
      refine ⟨made.calm, fun other task => ?_⟩
      obtain ⟨missed, equal, _⟩ := made.balance other task
      refine ⟨missed + asked rest other task, ?_, fun clean => absurd clean (call_failed first)⟩
      have split : asked ((index, listener, name) :: rest) other task =
          asked [(index, listener, name)] other task + asked rest other task := by
        rw [← List.singleton_append, asked_append]
      omega
    | none => exact made.trans (ih later)

theorem register_settled (settling : Settling callback)
    (ran : register callback name action s = some (failed, t)) : Settles [] s t := by
  have entered : ∀ {outcome m}, callAll callback (s.graph.registering name) (s.enter name action) = some (outcome, m) →
      Settles [] s m :=
    fun called => (callAll_settled settling called).since id (fun _ _ => rfl) fun _ _ => due_enter
  cases register_cases ran with
  | taken _ => exact .refl s
  | broken _ broke => exact entered broke
  | noted _ told => exact (entered told).trans (settles_note rfl)

theorem whenAdded_settled (settling : Settling callback)
    (ran : whenAdded callback listener s = some (failed, t)) : Settles [] s t := by
  apply (callAll_settled settling ran).since
  · exact Clean.back (show Grows 0 _ _ from grows_install listener)
  · exact fun _ _ => told_note (s := { s with graph := s.graph.install listener }) rfl
  · exact fun _ _ => due_install

theorem spans_settles (settling : Settling callback) : Spans callback (Settles []) where
  refl := .refl
  trans first second := first.trans second
  world _ _ := settles_same id (fun _ _ => rfl) fun _ _ => rfl
  note _ _ quiet := settles_note quiet
  begin _ order := settles_begin order
  addNeed accepted := settles_addNeed accepted
  callee ran := settling ran
  register ran := register_settled settling ran
  whenAdded ran := whenAdded_settled settling ran

theorem execute_settling (depth : Nat) : Settling (execute depth : Callback σ) := by
  have onward : ∀ {callback : Callback σ}, Settling callback → Settling (executeWith callback) :=
    fun settling _ _ _ _ ran => (spans_settles settling).respects.chain (executeWith_chain ran)
  -- Induction on how deep callbacks may nest.
  induction depth with
  | zero =>
    apply onward
    intro p s result t ran
    cases ran
  | succ depth ih => exact onward ih

theorem callStarts_noted (sound : Sound callback) (listed : Listed list s)
    (starts : CallStarts callback list s q t) : ∃ index listener name rest,
      t.journal = .called index name :: rest ∧ t.graph.listeners[index]? = some listener ∧ q = listener name := by
  induction starts with
  | @here index listener name rest s =>
    exact ⟨index, listener, name, s.journal, rfl, listed index listener name (by simp), rfl⟩
  | later ran _ ih => exact ih (listed.tail (call_keeps sound ran).grows)

theorem taskStarts_noted (starts : TaskStarts callback run order s task action t) :
    ∃ rest, t.journal = .started run task :: rest ∧ t.graph.actions.get? task = some action := by
  induction starts with
  | here found => exact ⟨_, rfl, found⟩
  | later _ _ ih => exact ih

theorem nativeStarts_noted (sound : Sound callback) (starts : NativeStarts callback build variants s q t) :
    ∃ index listener name rest,
      t.journal = .called index name :: rest ∧ t.graph.listeners[index]? = some listener ∧ q = listener name := by
  induction starts with
  | here _ starts => exact callStarts_noted sound (listed_registering _) starts
  | later _ _ ih => exact ih

theorem enters_noted (sound : Sound callback) (into : Enters callback p s q t) :
    (∃ run task rest, t.journal = .started run task :: rest ∧ t.graph.actions.get? task = some q) ∨
    ∃ index listener name rest, t.journal = .called index name :: rest ∧
      t.graph.listeners[index]? = some listener ∧ q = listener name := by
  cases into with
  | register _ starts => exact .inr (callStarts_noted sound (listed_registering _) starts)
  | whenAdded starts => exact .inr (callStarts_noted sound listed_installing starts)
  | run _ starts =>
    obtain ⟨rest, journal, found⟩ := taskStarts_noted starts
    exact .inl ⟨_, _, rest, journal, found⟩
  | native starts => exact .inr (nativeStarts_noted sound starts)
  | hooked _ starts => exact .inr (callStarts_noted sound listed_installing starts)

theorem due_known (nodup : s.graph.tasks.Nodup) (installed : index < s.graph.listeners.length)
    (present : name ∈ s.graph.tasks) : due s index name = 1 := by
  unfold due
  rw [if_pos installed]
  exact List.count_eq_one_of_mem nodup present

theorem due_unknown (unknown : ¬ (index < s.graph.listeners.length ∧ name ∈ s.graph.tasks)) :
    due s index name = 0 := by
  unfold due
  split
  · rename_i installed
    exact List.count_eq_zero_of_not_mem fun present => unknown ⟨installed, present⟩
  · rfl

theorem told_due {world : σ} {result : Except Failure Answer}
    (ran : execute depth p (.start world) = some (result, s)) (index : Nat) (name : String) :
    told s index name ≤ due s index name ∧ (Clean s → told s index name = due s index name) := by
  obtain ⟨missed, equal, none_⟩ := (execute_settling depth ran).balance index name
  have untold : told (.start world : Session σ) index name = 0 := rfl
  have nothing : due (.start world : Session σ) index name = 0 := rfl
  rw [untold, nothing, asked_nil] at equal
  refine ⟨by omega, fun clean => ?_⟩
  rw [none_ clean] at equal
  omega

-- The last part says that the journal is right about the calls: a callback is what it is noted as.
theorem listeners_told_once {world : σ} {result : Except Failure Answer}
    (ran : execute depth p (.start world) = some (result, s)) :
    (∀ index name, s.journal.count (.called index name) ≤ 1 ∧ (.called index name ∈ s.journal →
      index < s.graph.listeners.length ∧ name ∈ s.graph.tasks)) ∧
    (Clean s → ∀ index < s.graph.listeners.length, ∀ name ∈ s.graph.tasks,
      s.journal.count (.called index name) = 1) ∧
    ∀ level (p q : Program σ) t u, Enters (nested level) p t q u →
      (∃ run task rest, u.journal = .started run task :: rest ∧ u.graph.actions.get? task = some q) ∨
      ∃ index listener name rest, u.journal = .called index name :: rest ∧
        u.graph.listeners[index]? = some listener ∧ q = listener name := by
  obtain ⟨_, reached⟩ := execute_reaches ran
  have nodup := (reached_tabled reached).nodup
  refine ⟨fun index name => ?_, ?_, fun level p q t u into => enters_noted (nested_sound level) into⟩
  · have bound : s.journal.count (.called index name) ≤ due s index name := (told_due ran index name).1
    by_cases known : index < s.graph.listeners.length ∧ name ∈ s.graph.tasks
    · rw [due_known nodup known.1 known.2] at bound
      exact ⟨bound, fun _ => known⟩
    · rw [due_unknown known] at bound
      refine ⟨by omega, fun noted => ?_⟩
      have some_ := List.count_pos_iff.mpr noted
      omega
  · intro clean index installed name present
    have equal : s.journal.count (.called index name) = due s index name := (told_due ran index name).2 clean
    rw [equal, due_known nodup installed present]

-- Told of "a", the first listener installs another and registers "b", of which that one makes "c".
def gossip : Program Unit :=
  .register "a" .skip (.orFail (.whenAdded (fun name =>
      if name = "a" then
        .whenAdded (fun other => if other = "b" then .register "c" .skip (.orFail .skip) else .skip)
          (.orFail (.register "b" .skip (.orFail .skip)))
      else .skip) (.orFail .skip)))

def gossiped : Session Unit := ((execute 3 gossip (.start ())).map Prod.snd).getD (.start ())

theorem gossip_told_once : execute 3 gossip (.start ()) = some (.ok .nothing, gossiped) ∧ Clean gossiped ∧
    ∀ index < 2, ∀ name ∈ ["a", "b", "c"], gossiped.journal.count (.called index name) = 1 := by
  have executed : execute 3 gossip (.start ()) = some (.ok .nothing, gossiped) := rfl
  have journal : gossiped.journal = [.registered "b", .registered "c", .called 1 "c", .called 0 "c",
      .called 1 "b", .called 0 "b", .called 1 "a", .installed 1, .called 0 "a", .installed 0,
      .registered "a"] := rfl
  have clean : Clean gossiped := fun index name => by simp [journal]
  have listeners : gossiped.graph.listeners.length = 2 := rfl
  have tasks : gossiped.graph.tasks = ["a", "b", "c"] := rfl
  have once := (listeners_told_once executed).2.1 clean
  rw [listeners, tasks] at once
  exact ⟨executed, clean, once⟩

end AbiBuild.Tasks
