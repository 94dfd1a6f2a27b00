import AbiBuild.Proofs.Tasks.Remnants
import AbiBuild.Proofs.Tasks.Snapshots

namespace AbiBuild.Tasks

abbrev Entry (σ : Type) := Program σ × Session σ

def following {σ α : Type} (step : Step σ) (more : Session σ → List α) : List α :=
  match step with
  | some (none, t) => more t
  | _ => []

section Entries

variable {σ : Type} (callback : Callback σ)

def callEntries : List (Delivery σ) → Session σ → List (Entry σ)
  | [], _ => []
  | (index, listener, name) :: rest, s =>
    (listener name, s.note (.called index name)) ::
      following (call callback index listener name s) (callEntries rest)

def registerEntries (name : String) (action : Program σ) (s : Session σ) : List (Entry σ) :=
  if s.graph.has name then [] else callEntries callback (s.graph.registering name) (s.enter name action)

def whenAddedEntries (listener : String → Program σ) (s : Session σ) : List (Entry σ) :=
  callEntries callback (s.graph.installing listener) (s.install listener)

def nativeEntries (build : Variant → Program σ) : List Variant → Session σ → List (Entry σ)
  | [], _ => []
  | v :: others, s =>
    registerEntries callback (nativeTask v) (build v) s ++
      following (register callback (nativeTask v) (build v) s) (nativeEntries build others)

def wireEntries (variants : List Variant) (build : Variant → Program σ) (s : Session σ) : List (Entry σ) :=
  nativeEntries callback build variants s ++
    following (registerNatives callback build variants s) (whenAddedEntries callback (hookListener variants))

def taskEntries (run : Nat) : List String → Session σ → List (Entry σ)
  | [], _ => []
  | task :: rest, s =>
    match s.graph.actions.get? task with
    | none => []
    | some action =>
      (action, s.note (.started run task)) :: following (runTask callback run task s) (taskEntries run rest)

def runEntries (name : String) (s : Session σ) : List (Entry σ) :=
  match s.graph.order name with
  | .error _ => []
  | .ok order => taskEntries callback s.runs order (s.begin order)

-- What the first operation of a program calls back, in the order of the calls.
def entries : Program σ → Session σ → List (Entry σ)
  | .register name action _, s => registerEntries callback name action s
  | .whenAdded listener _, s => whenAddedEntries callback listener s
  | .run name _, s => runEntries callback name s
  | .wire variants build _, s => wireEntries callback variants build s
  | _, _ => []

-- Each operation's session, with those inside its callbacks between it and the next.
def timelineWith (inside : Entry σ → List (Session σ)) : Program σ → Session σ → List (Session σ)
  | .done _, s | .fail _, s => [s]
  | .perform effect next, s =>
    s :: timelineWith inside (next (effect s.world).2) { s with world := (effect s.world).1 }
  | .register name action next, s =>
    s :: ((registerEntries callback name action s).flatMap inside ++
      match register callback name action s with
      | some (failed, t) => timelineWith inside (next failed) t
      | none => [])
  | .addNeed task before next, s =>
    s :: match s.graph.addNeed task before with
      | .ok graph => timelineWith inside (next none) { s with graph := graph }
      | .error cause => timelineWith inside (next (some cause)) s
  | .whenAdded listener next, s =>
    s :: ((whenAddedEntries callback listener s).flatMap inside ++
      match whenAdded callback listener s with
      | some (failed, t) => timelineWith inside (next failed) t
      | none => [])
  | .ask question next, s => s :: timelineWith inside (next (s.graph.answer question)) s
  | .run name next, s =>
    s :: ((runEntries callback name s).flatMap inside ++
      match runOrder callback name s with
      | some (result, t) => timelineWith inside (next result) t
      | none => [])
  | .wire variants build next, s =>
    s :: ((wireEntries callback variants build s).flatMap inside ++
      match wireIn callback variants build s with
      | some (result, t) => timelineWith inside (next result) t
      | none => [])

end Entries

-- The sessions that control passes through from a program on, the earliest first.
def timeline : Nat → Program σ → Session σ → List (Session σ)
  | 0 => timelineWith (nested 0) fun _ => []
  | depth + 1 => timelineWith (nested (depth + 1)) fun entry => timeline depth entry.1 entry.2

-- Things met one after the other, on the way from one session to another or, where it never ends, to none. Each is
-- entered in a session, and what comes after it leads on from the one that it leaves behind.
structure InTurn {σ α : Type} (enters : α → Session σ) (leaves : α → Session σ → Prop) (s : Session σ)
    (list : List α) (stop : Option (Session σ)) : Prop where
  begin : ∀ a ∈ list, Turns s (enters a)
  apart : list.Pairwise fun a b => ∃ m, leaves a m ∧ Turns m (enters b)
  ends : ∀ t, stop = some t → Turns s t ∧ ∀ a ∈ list, ∃ m, leaves a m ∧ Turns m t

-- Callbacks that are over before the next one is entered.
abbrev Visits (callback : Callback σ) : Session σ → List (Entry σ) → Option (Session σ) → Prop :=
  InTurn Prod.snd fun entry m => ∃ result, callback entry.1 entry.2 = some (result, m)

-- Sessions that lead one to the next.
abbrev InLine : Session σ → List (Session σ) → Option (Session σ) → Prop := InTurn id fun u m => m = u

variable {σ : Type} {callback : Callback σ} {s t m u : Session σ} {p q action : Program σ}
  {stop : Option (Session σ)} {deliveries : List (Delivery σ)} {order : List String} {name task : String}
  {run depth : Nat} {build : Variant → Program σ} {variants : List Variant} {inside : Entry σ → List (Session σ)}

section InTurn

variable {α β : Type} {enters : α → Session σ} {leaves : α → Session σ → Prop} {list more : List α}
  {begins : β → Session σ} {ends : β → Session σ → Prop} {within : α → List β}

theorem InTurn.nil (turns : Turns s t) : InTurn enters leaves s [] (some t) :=
  ⟨by simp, .nil, fun _ same => by cases same; exact ⟨turns, by simp⟩⟩

theorem InTurn.append (first : InTurn enters leaves s list (some m)) (second : InTurn enters leaves m more stop) :
    InTurn enters leaves s (list ++ more) stop := by
  obtain ⟨reached, left⟩ := first.ends m rfl
  have later : ∀ {a t}, a ∈ list → Turns m t → ∃ k, leaves a k ∧ Turns k t := by
    intro a t early onward
    obtain ⟨k, behind, turns⟩ := left a early
    exact ⟨k, behind, turns.trans onward⟩
  refine ⟨fun a among => ?_, ?_, fun t same => ?_⟩
  · rcases List.mem_append.mp among with early | late
    · exact first.begin a early
    · exact reached.trans (second.begin a late)
  · exact List.pairwise_append.mpr ⟨first.apart, second.apart,
      fun a early b late => later early (second.begin b late)⟩
  · obtain ⟨onward, all⟩ := second.ends t same
    refine ⟨reached.trans onward, fun a among => ?_⟩
    rcases List.mem_append.mp among with early | late
    · exact later early onward
    · exact all a late

theorem InTurn.after (turns : Turns s m) (turn : InTurn enters leaves m list stop) :
    InTurn enters leaves s list stop :=
  (InTurn.nil turns).append turn

theorem InTurn.before (turn : InTurn enters leaves s list (some m)) (turns : Turns m t) :
    InTurn enters leaves s list (some t) := by
  have longer := turn.append (.nil turns)
  rwa [List.append_nil] at longer

theorem InTurn.endless (turn : InTurn enters leaves s list stop) : InTurn enters leaves s list none :=
  ⟨turn.begin, turn.apart, fun _ never => by cases never⟩

theorem InTurn.following {step : Step σ} {next : Session σ → Step σ} {behind : Session σ → List α}
    (first : InTurn enters leaves s list (step.map Prod.snd))
    (rest : ∀ t, InTurn enters leaves t (behind t) ((next t).map Prod.snd)) :
    InTurn enters leaves s (list ++ following step behind) ((step.bind fun
      | (none, t) => next t
      | (some cause, t) => some (some cause, t)).map Prod.snd) := by
  rcases step with - | ⟨- | cause, t⟩
  · simpa [Tasks.following] using first
  · exact first.append (rest t)
  · simpa [Tasks.following] using first

theorem InTurn.flatMap (turn : InTurn enters leaves s list stop)
    (each : ∀ a, ∃ stop, InTurn begins ends (enters a) (within a) stop ∧ ∀ m, leaves a m → stop = some m) :
    InTurn begins ends s (list.flatMap within) stop := by
  have left : ∀ {a b t}, (∃ m, leaves a m ∧ Turns m t) → b ∈ within a → ∃ k, ends b k ∧ Turns k t := by
    rintro a b t ⟨m, behind, onward⟩ own
    obtain ⟨last, inner, known⟩ := each a
    obtain ⟨k, done, turns⟩ := (inner.ends m (known m behind)).2 b own
    exact ⟨k, done, turns.trans onward⟩
  refine ⟨fun b among => ?_, ?_, fun t same => ?_⟩
  · obtain ⟨a, member, own⟩ := List.mem_flatMap.mp among
    obtain ⟨last, inner, _⟩ := each a
    exact (turn.begin a member).trans (inner.begin b own)
  · refine List.pairwise_flatMap.mpr ⟨fun a _ => ?_, turn.apart.imp fun {a c} behind b early d late => ?_⟩
    · obtain ⟨last, inner, _⟩ := each a
      exact inner.apart
    · obtain ⟨last, inner, _⟩ := each c
      obtain ⟨k, done, turns⟩ := left behind early
      exact ⟨k, done, turns.trans (inner.begin d late)⟩
  · obtain ⟨reached, behind⟩ := turn.ends t same
    refine ⟨reached, fun b among => ?_⟩
    obtain ⟨a, member, own⟩ := List.mem_flatMap.mp among
    exact left (behind a member) own

end InTurn

theorem InLine.self (s : Session σ) : InLine s [s] (some s) :=
  ⟨by simp [Relation.ReflTransGen.refl], List.pairwise_singleton _ _, fun _ same => by
    cases same
    simp [Relation.ReflTransGen.refl]⟩

theorem visits_single (spans : Spans callback Turns) (entered : Turns s u)
    (ended : ∀ t, stop = some t → ∃ result m, callback p u = some (result, m) ∧ Turns m t) :
    Visits callback s [(p, u)] stop := by
  refine ⟨by simpa using entered, List.pairwise_singleton _ _, fun t same => ?_⟩
  obtain ⟨result, m, ran, turns⟩ := ended t same
  refine ⟨entered.trans ((spans.callee ran).trans turns), fun entry among => ?_⟩
  rw [List.mem_singleton.mp among]
  exact ⟨m, ⟨result, ran⟩, turns⟩

theorem call_visits (spans : Spans callback Turns) (index : Nat) (listener : String → Program σ) (name : String)
    (s : Session σ) : Visits callback s [(listener name, s.note (.called index name))]
      ((call callback index listener name s).map Prod.snd) := by
  refine visits_single spans (.single (.note _)) fun t same => ?_
  obtain ⟨⟨failed, k⟩, called, rfl⟩ := Option.map_eq_some_iff.mp same
  cases call_cases called with
  | returned ran => exact ⟨_, _, ran, .refl⟩
  | raised ran => exact ⟨_, _, ran, .single (.note _)⟩

theorem callEntries_visits (spans : Spans callback Turns) (deliveries : List (Delivery σ)) (s : Session σ) :
    Visits callback s (callEntries callback deliveries s) ((callAll callback deliveries s).map Prod.snd) := by
  induction deliveries generalizing s with
  | nil => exact .nil .refl
  | cons item rest ih =>
    obtain ⟨index, listener, name⟩ := item
    exact (call_visits spans index listener name s).following ih

theorem register_visits (spans : Spans callback Turns) (name : String) (action : Program σ) (s : Session σ) :
    Visits callback s (registerEntries callback name action s)
      ((register callback name action s).map Prod.snd) := by
  unfold registerEntries register
  split
  · exact .nil .refl
  · rename_i free
    rw [Bool.not_eq_true] at free
    have line := (callEntries_visits spans (s.graph.registering name) (s.enter name action)).after
      (.single (.enter action free))
    rcases called : callAll callback (s.graph.registering name) (s.enter name action) with - | ⟨- | cause, t⟩
    · rwa [called] at line
    · rw [called] at line
      exact line.before (.single (.note _))
    · rwa [called] at line

theorem whenAdded_visits (spans : Spans callback Turns) (listener : String → Program σ) (s : Session σ) :
    Visits callback s (whenAddedEntries callback listener s) ((whenAdded callback listener s).map Prod.snd) :=
  (callEntries_visits spans _ _).after (.single (.install listener))

theorem nativeEntries_visits (spans : Spans callback Turns) (build : Variant → Program σ) (variants : List Variant)
    (s : Session σ) : Visits callback s (nativeEntries callback build variants s)
      ((registerNatives callback build variants s).map Prod.snd) := by
  induction variants generalizing s with
  | nil => exact .nil .refl
  | cons v others ih => exact (register_visits spans (nativeTask v) (build v) s).following ih

theorem wire_visits (spans : Spans callback Turns) (variants : List Variant) (build : Variant → Program σ)
    (s : Session σ) : Visits callback s (wireEntries callback variants build s)
      ((wireIn callback variants build s).map Prod.snd) := by
  have whole := (nativeEntries_visits spans build variants s).following
    (whenAdded_visits spans (hookListener variants))
  unfold wireEntries wireIn
  rcases natives : registerNatives callback build variants s with - | ⟨- | cause, t⟩
  · rwa [natives] at whole
  · rw [natives, Option.bind_some] at whole
    rcases hooks : whenAdded callback (hookListener variants) t with - | ⟨- | cause, u⟩
    · simpa [hooks] using whole
    · simp only [hooks] at whole
      simpa [hooks] using whole.before (.single (.note (.wired variants)))
    · simpa [hooks] using whole
  · rwa [natives] at whole

theorem task_visits (spans : Spans callback Turns) (run : Nat) (task : String) (s : Session σ)
    (found : s.graph.actions.get? task = some action) :
    Visits callback s [(action, s.note (.started run task))] ((runTask callback run task s).map Prod.snd) := by
  refine visits_single spans (.single (.note _)) fun t same => ?_
  obtain ⟨⟨failed, k⟩, ended, rfl⟩ := Option.map_eq_some_iff.mp same
  cases runTask_cases ended with
  | unknown absent => cases found.symm.trans absent
  | finished there ran =>
    cases found.symm.trans there
    exact ⟨_, _, ran, .single (.note _)⟩
  | raised there ran =>
    cases found.symm.trans there
    exact ⟨_, _, ran, .single (.note _)⟩

theorem taskEntries_visits (spans : Spans callback Turns) (run : Nat) (order : List String) (s : Session σ) :
    Visits callback s (taskEntries callback run order s) ((runTasks callback run order s).map Prod.snd) := by
  induction order generalizing s with
  | nil => exact .nil .refl
  | cons task rest ih =>
    unfold taskEntries runTasks
    cases found : s.graph.actions.get? task with
    | none =>
      simp only [runTask, found]
      exact .nil .refl
    | some action => exact (task_visits spans run task s found).following ih

theorem run_visits (spans : Spans callback Turns) (name : String) (s : Session σ) :
    Visits callback s (runEntries callback name s) ((runOrder callback name s).map Prod.snd) := by
  unfold runEntries runOrder
  cases s.graph.order name with
  | error cause => exact .nil .refl
  | ok order =>
    have line := (taskEntries_visits spans s.runs order (s.begin order)).after (.single (.begin order))
    simp only
    rcases followed : runTasks callback s.runs order (s.begin order) with - | ⟨- | cause, t⟩ <;>
      rwa [followed] at line

theorem entries_visits (spans : Spans callback Turns) (p : Program σ) (s : Session σ) :
    ∃ stop, Visits callback s (entries callback p s) stop ∧ ∀ q t, Continues callback p s q t → stop = some t := by
  cases p with
  | done | fail => exact ⟨_, .nil .refl, fun _ _ taken => by cases taken⟩
  | perform effect next => exact ⟨_, .nil (.single (.world _)), fun _ _ taken => by cases taken; rfl⟩
  | register name action next =>
    refine ⟨_, register_visits spans name action s, fun _ _ taken => ?_⟩
    cases taken with
    | register ran => rw [ran]; rfl
  | addNeed task before next =>
    cases outcome : s.graph.addNeed task before with
    | ok graph =>
      refine ⟨_, .nil (.single (.addNeed outcome)), fun _ _ taken => ?_⟩
      cases taken with
      | added accepted => rw [Except.ok.inj (outcome.symm.trans accepted)]
      | refused cause_ => cases outcome.symm.trans cause_
    | error cause =>
      refine ⟨_, .nil .refl, fun _ _ taken => ?_⟩
      cases taken with
      | added accepted => cases outcome.symm.trans accepted
      | refused => rfl
  | whenAdded listener next =>
    refine ⟨_, whenAdded_visits spans listener s, fun _ _ taken => ?_⟩
    cases taken with
    | whenAdded ran => rw [ran]; rfl
  | ask question next => exact ⟨_, .nil .refl, fun _ _ taken => by cases taken; rfl⟩
  | run name next =>
    refine ⟨_, run_visits spans name s, fun _ _ taken => ?_⟩
    cases taken with
    | run ran => rw [ran]; rfl
  | wire variants build next =>
    refine ⟨_, wire_visits spans variants build s, fun _ _ taken => ?_⟩
    cases taken with
    | wire ran => rw [ran]; rfl

theorem mem_following {α : Type} {step : Step σ} {behind : Session σ → List α} {a : α} :
    a ∈ following step behind ↔ ∃ t, step = some (none, t) ∧ a ∈ behind t := by
  unfold following
  split
  · simp
  · rename_i other
    simpa using fun t same => absurd same (other t)

theorem mem_callEntries : (q, t) ∈ callEntries callback deliveries s ↔ CallStarts callback deliveries s q t := by
  constructor
  · intro among
    induction deliveries generalizing s with
    | nil => cases among
    | cons item rest ih =>
      obtain ⟨index, listener, name⟩ := item
      rcases List.mem_cons.mp among with same | later
      · cases same
        exact .here
      · obtain ⟨m, ran, behind⟩ := mem_following.mp later
        exact .later ran (ih behind)
  · intro starts
    induction starts with
    | here => exact List.mem_cons_self
    | later ran _ ih => exact List.mem_cons_of_mem _ (mem_following.mpr ⟨_, ran, ih⟩)

theorem mem_registerEntries : (q, t) ∈ registerEntries callback name action s ↔
    s.graph.has name = false ∧ CallStarts callback (s.graph.registering name) (s.enter name action) q t := by
  unfold registerEntries
  split
  · rename_i there
    simp [there]
  · rename_i free
    simp [free, mem_callEntries]

theorem mem_nativeEntries :
    (q, t) ∈ nativeEntries callback build variants s ↔ NativeStarts callback build variants s q t := by
  constructor
  · intro among
    induction variants generalizing s with
    | nil => cases among
    | cons v others ih =>
      rcases List.mem_append.mp among with own | later
      · obtain ⟨free, starts⟩ := mem_registerEntries.mp own
        exact .here free starts
      · obtain ⟨m, ran, behind⟩ := mem_following.mp later
        exact .later ran (ih behind)
  · intro starts
    induction starts with
    | here free starts => exact List.mem_append_left _ (mem_registerEntries.mpr ⟨free, starts⟩)
    | later ran _ ih => exact List.mem_append_right _ (mem_following.mpr ⟨_, ran, ih⟩)

theorem mem_taskEntries :
    (q, t) ∈ taskEntries callback run order s ↔ ∃ task, TaskStarts callback run order s task q t := by
  constructor
  · intro among
    induction order generalizing s with
    | nil => cases among
    | cons task rest ih =>
      unfold taskEntries at among
      split at among
      · cases among
      · rename_i action found
        rcases List.mem_cons.mp among with same | later
        · cases same
          exact ⟨task, .here found⟩
        · obtain ⟨m, ran, behind⟩ := mem_following.mp later
          exact (ih behind).imp fun _ starts => .later ran starts
  · rintro ⟨task, starts⟩
    induction starts with
    | here found =>
      simp only [taskEntries, found]
      exact List.mem_cons_self
    | later ran _ ih =>
      obtain ⟨action, found⟩ := runTask_known ran
      simp only [taskEntries, found]
      exact List.mem_cons_of_mem _ (mem_following.mpr ⟨_, ran, ih⟩)

theorem mem_entries : (q, t) ∈ entries callback p s ↔ Enters callback p s q t := by
  constructor
  · intro among
    cases p with
    | register name action next =>
      obtain ⟨free, starts⟩ := mem_registerEntries.mp among
      exact .register free starts
    | whenAdded listener next => exact .whenAdded (mem_callEntries.mp among)
    | run name next =>
      simp only [entries, runEntries] at among
      split at among
      · cases among
      · rename_i fixed
        obtain ⟨task, starts⟩ := mem_taskEntries.mp among
        exact .run fixed starts
    | wire variants build next =>
      rcases List.mem_append.mp among with native | later
      · exact .native (mem_nativeEntries.mp native)
      · obtain ⟨m, ran, hooked⟩ := mem_following.mp later
        exact .hooked ran (mem_callEntries.mp hooked)
    | _ => cases among
  · intro into
    cases into with
    | register free starts => exact mem_registerEntries.mpr ⟨free, starts⟩
    | whenAdded starts => exact mem_callEntries.mpr starts
    | run fixed starts =>
      simp only [entries, runEntries, fixed]
      exact mem_taskEntries.mpr ⟨_, starts⟩
    | native starts => exact List.mem_append_left _ (mem_nativeEntries.mpr starts)
    | hooked ran starts =>
      exact List.mem_append_right _ (mem_following.mpr ⟨_, ran, mem_callEntries.mpr starts⟩)

-- A program goes on only so many times: what it continues with is a part of it.
theorem continues_induction (callback : Callback σ) {motive : Program σ → Session σ → Prop}
    (step : ∀ p s, (∀ q t, Continues callback p s q t → motive q t) → motive p s) (p : Program σ) (s : Session σ) :
    motive p s := by
  induction p generalizing s with
  | done | fail => exact step _ _ fun _ _ taken => by cases taken
  | perform _ _ ih => exact step _ _ fun _ _ taken => by cases taken; exact ih _ _
  | register _ _ _ _ ih => exact step _ _ fun _ _ taken => by cases taken; exact ih _ _
  | addNeed _ _ _ ih => exact step _ _ fun _ _ taken => by cases taken <;> exact ih _ _
  | whenAdded _ _ _ ih => exact step _ _ fun _ _ taken => by cases taken; exact ih _ _
  | ask _ _ ih => exact step _ _ fun _ _ taken => by cases taken; exact ih _ _
  | run _ _ ih => exact step _ _ fun _ _ taken => by cases taken; exact ih _ _
  | wire _ _ _ _ ih => exact step _ _ fun _ _ taken => by cases taken; exact ih _ _

theorem timelineWith_continues (taken : Continues callback p s q t) : timelineWith callback inside p s =
    s :: ((entries callback p s).flatMap inside ++ timelineWith callback inside q t) := by
  cases taken with
  | perform | ask => simp [timelineWith, entries]
  | register ran | whenAdded ran | run ran | wire ran => simp [timelineWith, entries, ran]
  | added outcome | refused outcome => simp [timelineWith, entries, outcome]

theorem timelineWith_parts (callback : Callback σ) (inside : Entry σ → List (Session σ)) (p : Program σ)
    (s : Session σ) : (∃ q t, Continues callback p s q t) ∨
      timelineWith callback inside p s = s :: (entries callback p s).flatMap inside := by
  cases p with
  | done | fail => exact .inr (by simp [timelineWith, entries])
  | perform => exact .inl ⟨_, _, .perform⟩
  | ask => exact .inl ⟨_, _, .ask⟩
  | addNeed task before next =>
    cases outcome : s.graph.addNeed task before with
    | ok graph => exact .inl ⟨_, _, .added outcome⟩
    | error cause => exact .inl ⟨_, _, .refused outcome⟩
  | register name action next =>
    cases ran : register callback name action s with
    | none => exact .inr (by simp [timelineWith, entries, ran])
    | some ended => exact .inl ⟨_, _, .register ran⟩
  | whenAdded listener next =>
    cases ran : whenAdded callback listener s with
    | none => exact .inr (by simp [timelineWith, entries, ran])
    | some ended => exact .inl ⟨_, _, .whenAdded ran⟩
  | run name next =>
    cases ran : runOrder callback name s with
    | none => exact .inr (by simp [timelineWith, entries, ran])
    | some ended => exact .inl ⟨_, _, .run ran⟩
  | wire variants build next =>
    cases ran : wireIn callback variants build s with
    | none => exact .inr (by simp [timelineWith, entries, ran])
    | some ended => exact .inl ⟨_, _, .wire ran⟩

theorem continues_executes (taken : Continues callback p s q t) :
    executeWith callback p s = executeWith callback q t := by
  cases taken with
  | perform | ask => rfl
  | register ran | whenAdded ran | run ran | wire ran => simp [executeWith, ran]
  | added outcome | refused outcome => simp [executeWith, outcome]

theorem mem_timelineWith : u ∈ timelineWith callback inside p s ↔ u = s ∨
    (∃ e ∈ entries callback p s, u ∈ inside e) ∨
    ∃ q t, Continues callback p s q t ∧ u ∈ timelineWith callback inside q t := by
  constructor
  · intro among
    rcases timelineWith_parts callback inside p s with ⟨q, t, taken⟩ | whole
    · rw [timelineWith_continues taken, List.mem_cons, List.mem_append, List.mem_flatMap] at among
      exact among.imp_right fun later => later.imp_right fun onward => ⟨q, t, taken, onward⟩
    · rw [whole, List.mem_cons, List.mem_flatMap] at among
      exact among.imp_right .inl
  · rintro (rfl | entered | ⟨q, t, taken, onward⟩)
    · rcases timelineWith_parts callback inside p u with ⟨q, t, taken⟩ | whole
      · rw [timelineWith_continues taken]
        exact List.mem_cons_self
      · rw [whole]
        exact List.mem_cons_self
    · have called : u ∈ (entries callback p s).flatMap inside := List.mem_flatMap.mpr entered
      rcases timelineWith_parts callback inside p s with ⟨q, t, taken⟩ | whole
      · rw [timelineWith_continues taken]
        exact List.mem_cons_of_mem _ (List.mem_append_left _ called)
      · rw [whole]
        exact List.mem_cons_of_mem _ called
    · rw [timelineWith_continues taken]
      exact List.mem_cons_of_mem _ (List.mem_append_right _ onward)

theorem timelineWith_last {result : Except Failure Answer} (chain : Chain callback p s result t) :
    (timelineWith callback inside p s).getLast? = some t := by
  induction chain with
  | done | fail => simp [timelineWith]
  | step taken _ ih =>
    rw [timelineWith_continues taken]
    simp [List.getLast?_cons, List.getLast?_append, ih]

theorem timelineWith_inLine (spans : Spans callback Turns)
    (each : ∀ e : Entry σ, InLine e.2 (inside e) ((callback e.1 e.2).map Prod.snd)) (p : Program σ)
    (s : Session σ) : InLine s (timelineWith callback inside p s) ((executeWith callback p s).map Prod.snd) := by
  have within : ∀ e : Entry σ, ∃ stop, InLine e.2 (inside e) stop ∧
      ∀ m, (∃ result, callback e.1 e.2 = some (result, m)) → stop = some m := by
    refine fun e => ⟨_, each e, ?_⟩
    rintro m ⟨result, ran⟩
    rw [ran]
    rfl
  -- Induction on how often the program goes on.
  induction p, s using continues_induction callback with
  | step p s ih =>
    obtain ⟨stop, visits, known⟩ := entries_visits spans p s
    by_cases goes : ∃ q t, Continues callback p s q t
    · obtain ⟨q, t, taken⟩ := goes
      rw [timelineWith_continues taken, continues_executes taken]
      rw [known q t taken] at visits
      exact (InLine.self s).append ((visits.flatMap within).append (ih q t taken))
    · rw [(timelineWith_parts callback inside p s).resolve_left goes]
      rcases ran : executeWith callback p s with - | ⟨result, t⟩
      · exact (InLine.self s).append (visits.endless.flatMap within)
      · cases executeWith_chain ran with
        | done | fail => exact .self s
        | step taken _ => exact absurd ⟨_, _, taken⟩ goes

theorem timeline_inLine (depth : Nat) (p : Program σ) (s : Session σ) :
    InLine s (timeline depth p s) ((execute depth p s).map Prod.snd) := by
  -- Induction on how deep callbacks may nest.
  induction depth generalizing p s with
  | zero =>
    refine timelineWith_inLine (spans_turns (nested_turns 0)) (fun e => ⟨by simp, .nil, fun t same => ?_⟩) p s
    cases same
  | succ depth ih =>
    exact timelineWith_inLine (spans_turns (nested_turns (depth + 1))) (fun e => ih e.1 e.2) p s

theorem timeline_apart (depth : Nat) (p : Program σ) (s : Session σ) : (timeline depth p s).Pairwise Turns := by
  refine (timeline_inLine depth p s).apart.imp ?_
  rintro u v ⟨m, rfl, turns⟩
  exact turns

theorem mem_timeline : u ∈ timeline depth p s ↔ ∃ q, Reaches depth p s q u := by
  constructor
  · intro among
    induction depth generalizing p s with
    | zero =>
      induction p, s using continues_induction (nested 0 : Callback σ) with
      | step p s ih =>
        rcases mem_timelineWith.mp among with rfl | ⟨_, _, nothing⟩ | ⟨q, t, taken, onward⟩
        · exact ⟨p, .refl⟩
        · cases nothing
        · exact (ih q t taken onward).imp fun _ => .continues taken
    | succ depth deeper =>
      induction p, s using continues_induction (nested (depth + 1) : Callback σ) with
      | step p s ih =>
        rcases mem_timelineWith.mp among with rfl | ⟨⟨q, t⟩, entered, own⟩ | ⟨q, t, taken, onward⟩
        · exact ⟨p, .refl⟩
        · exact (deeper own).imp fun _ => .enters (mem_entries.mp entered)
        · exact (ih q t taken onward).imp fun _ => .continues taken
  · rintro ⟨q, reached⟩
    induction reached with
    | @refl depth => cases depth <;> exact mem_timelineWith.mpr (.inl rfl)
    | @continues depth _ _ q t _ _ taken _ ih =>
      cases depth <;> exact mem_timelineWith.mpr (.inr (.inr ⟨q, t, taken, ih⟩))
    | @enters depth _ _ q t _ _ into _ ih =>
      exact mem_timelineWith.mpr (.inr (.inl ⟨(q, t), mem_entries.mpr into, ih⟩))

theorem timeline_last {result : Except Failure Answer} (ran : execute depth p s = some (result, t)) :
    (timeline depth p s).getLast? = some t := by
  rw [execute_eq] at ran
  cases depth <;> exact timelineWith_last (executeWith_chain ran)

end AbiBuild.Tasks
