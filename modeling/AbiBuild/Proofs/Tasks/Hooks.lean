import AbiBuild.Proofs.Tasks.Debts

namespace AbiBuild.Tasks

variable {σ : Type} {callback : Callback σ} {s t u : Session σ} {p q : Program σ}
  {since run depth : Nat} {name task before wanted : String} {event : Event} {failed : Option Failure}
  {variants : List Variant} {v : Variant} {action : Program σ} {list : List String}
  {build : Variant → Program σ} {owed : Nat → String → Prop}

-- Control inside a callee: the debts are other ones than before the call, but there is an account of them.
structure Enclosed (s t : Session σ) : Prop where
  grows : Grows s.runs s t
  owing : Clean t → ∀ owed, Owing owed s → ∃ owed, Owing owed t

theorem Enclosed.refl (s : Session σ) : Enclosed s s := ⟨.refl _ _, fun _ owed owing => ⟨owed, owing⟩⟩

theorem Enclosed.trans (first : Enclosed s t) (second : Enclosed t u) : Enclosed s u := by
  refine ⟨first.grows.trans (second.grows.weaken first.grows.runs), fun clean owed owing => ?_⟩
  obtain ⟨middle, account⟩ := first.owing (clean.back second.grows) owed owing
  exact second.owing clean middle account

theorem Keeps.enclosed (keeps : Keeps s.runs s t) : Enclosed s t :=
  ⟨keeps.grows, fun clean owed owing => ⟨owed, keeps.owing clean owed owing⟩⟩

theorem taskStarts_keeps (sound : Sound callback) (le : since ≤ run) (recent : since ≤ s.runs)
    (starts : TaskStarts callback run list s task action t) : Keeps since s t := by
  induction starts with
  | here => exact keeps_note rfl (by simpa [Event.run?])
  | later ran _ ih =>
    have kept := runTask_keeps sound le recent ran
    exact kept.trans (ih (Nat.le_trans recent kept.grows.runs))

theorem enters_registered (sound : Sound callback) (free : s.graph.has name = false)
    (starts : CallStarts callback (s.graph.registering name) (s.enter name action) q t) :
    Enclosed s t := by
  obtain ⟨grows, account⟩ := callStarts_owing sound (listed_registering action) starts
  exact ⟨(grows_enter action).trans grows,
    fun clean owed owing => account clean owed (owing_enter free action owing)⟩

theorem enters_installed {listener : String → Program σ} (sound : Sound callback)
    (starts : CallStarts callback (s.graph.installing listener) (s.install listener) q t) :
    Enclosed s t := by
  obtain ⟨grows, account⟩ := callStarts_owing sound listed_installing starts
  exact ⟨(grows_install listener).trans grows,
    fun clean owed owing => account clean owed (owing_install owing listener)⟩

theorem enters_native (sound : Sound callback) (starts : NativeStarts callback build variants s q t) :
    Enclosed s t := by
  induction starts with
  | here free starts => exact enters_registered sound free starts
  | later ran _ ih => exact (register_keeps sound ran).enclosed.trans ih

theorem enters_enclosed (sound : Sound callback) (into : Enters callback p s q t) : Enclosed s t := by
  cases into with
  | register free starts => exact enters_registered sound free starts
  | whenAdded starts => exact enters_installed sound starts
  | run fixed starts =>
    exact ((keeps_begin (Nat.le_refl s.runs) _).trans
      (taskStarts_keeps sound (Nat.le_refl s.runs) (Nat.le_succ _) starts)).enclosed
  | native starts => exact enters_native sound starts
  | hooked ran starts =>
    exact (registerNatives_keeps sound ran).enclosed.trans (enters_installed sound starts)

theorem reaches_enclosed (reached : Reaches depth p s q t) : Enclosed s t := by
  induction reached with
  | refl => exact .refl _
  | continues taken _ ih =>
    exact (Keeps.enclosed ((respects_keeps (nested_sound _)).continues taken)).trans ih
  | enters into _ ih => exact (enters_enclosed (nested_sound _) into).trans ih

theorem owing_start (world : σ) : Owing (fun _ _ => False) (Session.start world) where
  edge index variants v installed _ _ := by simp [Session.start, Graph.empty] at installed
  wired variants noted := by simp [Session.start] at noted
  noted name registered := by simp [Session.start] at registered
  known index name still := still.elim

-- What a task adds to the journal, as far as the run's own number goes.
structure Performed (run : Nat) (task : String) (failed : Option Failure) (new : List Event) : Prop where
  started : ∀ other, .started run other ∈ new → other = task
  raised : ∀ other, .raised run other ∈ new → other = task ∧ failed ≠ none
  finished : failed = none → .finished run task ∈ new

theorem runTask_performed (sound : Sound callback) (inside : run < s.runs)
    (ran : runTask callback run task s = some (failed, t)) :
    ∃ new, t.journal = new ++ s.journal ∧ Performed run task failed new := by
  -- The runs inside the action have numbers of their own.
  have within : ∀ {action result m}, callback action (s.note (.started run task)) = some (result, m) →
      ∃ new, m.journal = new ++ (s.note (.started run task)).journal ∧
        (∀ other, .started run other ∉ new) ∧ ∀ other, .raised run other ∉ new := by
    intro action result m performed
    obtain ⟨new, journal, recent⟩ := (sound.keeps performed).grows.journal
    have others : ∀ event ∈ new, event.run? ≠ some run := by
      intro event member same
      have bound : s.runs ≤ run := recent event member run same
      omega
    exact ⟨new, journal, fun _ member => others _ member rfl, fun _ member => others _ member rfl⟩
  cases runTask_cases ran with
  | unknown _ => exact ⟨[], rfl, by simp, by simp, by simp⟩
  | finished _ performed =>
    obtain ⟨new, journal, notStarted, notRaised⟩ := within performed
    refine ⟨.finished run task :: new ++ [.started run task], by simp [Session.note, journal], ?_, ?_, by simp⟩
    · simp [notStarted]
    · simp [notRaised]
  | raised _ performed =>
    obtain ⟨new, journal, notStarted, notRaised⟩ := within performed
    refine ⟨.raised run task :: new ++ [.started run task], by simp [Session.note, journal], ?_, ?_, by simp⟩
    · simp [notStarted]
    · simp [notRaised]

-- When a task starts, those in front of it in the order have finished and none has raised.
theorem taskStarts_split (sound : Sound callback) (inside : run < s.runs)
    (starts : TaskStarts callback run list s task action t) : ∃ front back new,
      list = front ++ task :: back ∧ t.journal = new ++ s.journal ∧
      (∀ before ∈ front, .finished run before ∈ new) ∧ ∀ other, .raised run other ∉ new := by
  induction starts with
  | @here s task action rest found =>
    exact ⟨[], _, [.started run task], rfl, rfl, by simp, by simp⟩
  | @later first s m rest task action t ran _ ih =>
    obtain ⟨new, journal, own⟩ := runTask_performed sound inside ran
    have runs : s.runs ≤ m.runs :=
        (runTask_keeps sound (Nat.zero_le _) (Nat.zero_le _) ran).grows.runs
    obtain ⟨front, back, newer, split, later, done, calm⟩ := ih (Nat.lt_of_lt_of_le inside runs)
    refine ⟨first :: front, back, newer ++ new, by simp [split],
      by rw [later, journal, List.append_assoc], ?_, ?_⟩
    · intro before member
      rcases List.mem_cons.mp member with rfl | inFront
      · exact List.mem_append_right _ (own.finished rfl)
      · exact List.mem_append_left _ (done before inFront)
    · intro other member
      rcases List.mem_append.mp member with isNewer | isNew
      · exact calm other isNewer
      · exact (own.raised other isNew).2 rfl

theorem runTasks_raised (sound : Sound callback) (inside : run < s.runs)
    (ran : runTasks callback run list s = some (failed, t)) : ∃ new, t.journal = new ++ s.journal ∧
      ∀ other, .raised run other ∈ new → ∃ front back, list = front ++ other :: back ∧
        ∀ task, .started run task ∈ new → task ∈ front ++ [other] := by
  induction list generalizing s with
  | nil =>
    cases ran
    exact ⟨[], rfl, by simp⟩
  | cons first rest ih =>
    obtain ⟨⟨outcome, m⟩, head, later⟩ := Option.bind_eq_some_iff.mp ran
    obtain ⟨new, journal, own⟩ := runTask_performed sound inside head
    cases outcome with
    | some cause =>
      cases later
      refine ⟨new, journal, fun other raised => ?_⟩
      obtain ⟨rfl, _⟩ := own.raised other raised
      exact ⟨[], rest, rfl, fun task started => by simp [own.started task started]⟩
    | none =>
      have runs : s.runs ≤ m.runs :=
        (runTask_keeps sound (Nat.zero_le _) (Nat.zero_le _) head).grows.runs
      obtain ⟨newer, after, stops⟩ := ih (Nat.lt_of_lt_of_le inside runs) later
      refine ⟨newer ++ new, by rw [after, journal, List.append_assoc], fun other raised => ?_⟩
      have behind : .raised run other ∈ newer := by
        rcases List.mem_append.mp raised with isNewer | isNew
        · exact isNewer
        · exact absurd rfl (own.raised other isNew).2
      obtain ⟨front, back, split, upTo⟩ := stops other behind
      refine ⟨first :: front, back, by simp [split], fun task started => ?_⟩
      rcases List.mem_append.mp started with isNewer | isNew
      · exact List.mem_cons_of_mem _ (upTo task isNewer)
      · simp [own.started task isNew]

theorem graph_order_ordered {g : Graph σ} (fixed : g.order wanted = .ok list) : Ordered g.needs list :=
  (order_ordered (graph_order_parts fixed).2).1

-- From a state in which the wiring of `v` and the registration of its hook are over, whoever made them.
theorem hook_waits_for_native (reached : Reaches depth p (Session.start world) q s) (clean : Clean s)
    (wired : .wired variants ∈ s.journal) (member : v ∈ variants)
    (registered : .registered (hookTask v) ∈ s.journal) :
    Direct s.graph.needs (hookTask v) (nativeTask v) ∧
    ∀ level wanted order, s.graph.order wanted = .ok order →
      (∀ action t, TaskStarts (nested level) s.runs order (s.begin order) (hookTask v) action t →
        ∃ new, t.journal = new ++ s.journal ∧ .finished s.runs (nativeTask v) ∈ new ∧
          ∀ before, Requires s.graph.needs (hookTask v) before →
            .finished s.runs before ∈ new ∧ .raised s.runs before ∉ new) ∧
      ∀ result t, runOrder (nested level) wanted s = some (result, t) →
        ∃ new, t.journal = new ++ s.journal ∧
          ∀ before, Requires s.graph.needs (hookTask v) before → .raised s.runs before ∈ new →
            .started s.runs (hookTask v) ∉ new := by
  obtain ⟨owed, owing⟩ := (reaches_enclosed reached).owing clean _ (owing_start world)
  have direct : Direct s.graph.needs (hookTask v) (nativeTask v) := by
    obtain ⟨index, installed, settled⟩ := owing.wired variants wired
    have present := owing.noted _ registered
    rcases owing.edge index variants v installed member present with direct | still
    · exact direct
    · exact absurd still (settled _ registered)
  refine ⟨direct, fun level wanted order fixed => ⟨?_, ?_⟩⟩
  · intro action t starts
    have ordered := graph_order_ordered fixed
    obtain ⟨front, back, new, split, journal, done, calm⟩ :=
      taskStarts_split (nested_sound level) (Nat.lt_succ_self _) starts
    have finished : ∀ before, Requires s.graph.needs (hookTask v) before →
        .finished s.runs before ∈ new :=
      fun before required => done before (ordered.requires split required)
    refine ⟨new ++ [.began s.runs order], by rw [journal]; simp [Session.begin, Session.note], ?_, ?_⟩
    · exact List.mem_append_left _ (finished _ (.single direct))
    · intro before required
      exact ⟨List.mem_append_left _ (finished before required), by simp [calm]⟩
  · intro result t ran
    have ordered := graph_order_ordered fixed
    simp only [runOrder, fixed] at ran
    obtain ⟨⟨outcome, m⟩, inside, same⟩ := Option.map_eq_some_iff.mp ran
    have last : m = t := by
      cases outcome with
      | none => exact (Prod.mk.inj same).2
      | some cause => exact (Prod.mk.inj same).2
    subst last
    obtain ⟨new, journal, stops⟩ := runTasks_raised (nested_sound level) (Nat.lt_succ_self _) inside
    refine ⟨new ++ [.began s.runs order], by rw [journal]; simp [Session.begin, Session.note], ?_⟩
    intro before required raised started
    obtain ⟨front, back, split, upTo⟩ := stops before (by simpa using raised)
    exact ordered.not_requires split required (upTo _ (by simpa using started))

def offline : Failure := .mishap (.key (.stated "offline"))

-- A listener registers the hook, and only when a later task comes.
def lateHook (native : Program Unit) : Program Unit :=
  .whenAdded (fun name =>
      if name = "assemble" then .register (hookTask .debug) .skip (.orFail .skip) else .skip)
    (.orFail (.wire [.debug] (fun _ => native) fun _ =>
      .register "assemble" .skip (.orFail .skip)))

def lateHooked (native : Program Unit) : Session Unit :=
  ((execute 2 (lateHook native) (.start ())).map Prod.snd).getD (.start ())

def Settled (p : Program Unit) (s : Session Unit) : Prop := (∃ q, Reaches 2 p (.start ()) q s) ∧ Clean s ∧
  .wired [.debug] ∈ s.journal ∧ .registered (hookTask .debug) ∈ s.journal

theorem lateHooked_settled (native : Program Unit) : Settled (lateHook native) (lateHooked native) := by
  have executed : execute 2 (lateHook native) (.start ()) = some (.ok .nothing, lateHooked native) := rfl
  have journal : (lateHooked native).journal =
      [.registered "assemble", .called 1 "assemble", .registered (hookTask .debug),
        .called 1 (hookTask .debug), .called 0 (hookTask .debug), .called 0 "assemble", .wired [.debug],
        .called 1 (nativeTask .debug), .installed 1, .registered (nativeTask .debug),
        .called 0 (nativeTask .debug), .installed 0] := rfl
  exact ⟨execute_reaches executed, fun index name => by simp [journal], by simp [journal], by simp [journal]⟩

-- In the one session the hook is started and the native task has ended before; in the other the native task
-- raises and the hook is not started.
theorem late_hook_waits_for_native :
    (Settled (lateHook .skip) (lateHooked .skip) ∧
      Direct (lateHooked .skip).graph.needs (hookTask .debug) (nativeTask .debug) ∧
      ∃ order action t new, (lateHooked .skip).graph.order (hookTask .debug) = .ok order ∧
        TaskStarts (nested 1) (lateHooked .skip).runs order ((lateHooked .skip).begin order) (hookTask .debug)
          action t ∧ t.journal = new ++ (lateHooked .skip).journal ∧
        .finished (lateHooked .skip).runs (nativeTask .debug) ∈ new) ∧
    Settled (lateHook (.fail offline)) (lateHooked (.fail offline)) ∧
      ∃ result t new, runOrder (nested 1) (hookTask .debug) (lateHooked (.fail offline)) = some (result, t) ∧
        t.journal = new ++ (lateHooked (.fail offline)).journal ∧
        .raised (lateHooked (.fail offline)).runs (nativeTask .debug) ∈ new ∧
        .started (lateHooked (.fail offline)).runs (hookTask .debug) ∉ new := by
  refine ⟨?_, ?_⟩
  · obtain ⟨⟨_, reached⟩, clean, wired, registered⟩ := lateHooked_settled .skip
    have fixed : (lateHooked .skip).graph.order (hookTask .debug) =
        .ok [nativeTask .debug, hookTask .debug] := rfl
    obtain ⟨direct, runs⟩ := hook_waits_for_native reached clean wired (by simp) registered
    have starts : TaskStarts (nested 1) (lateHooked .skip).runs [nativeTask .debug, hookTask .debug]
        ((lateHooked .skip).begin [nativeTask .debug, hookTask .debug]) (hookTask .debug) .skip _ :=
      .later rfl (.here rfl)
    obtain ⟨new, journal, finished, _⟩ := (runs 1 _ _ fixed).1 _ _ starts
    exact ⟨lateHooked_settled .skip, direct, _, _, _, new, fixed, starts, journal, finished⟩
  · obtain ⟨⟨_, reached⟩, clean, wired, registered⟩ := lateHooked_settled (.fail offline)
    have fixed : (lateHooked (.fail offline)).graph.order (hookTask .debug) =
        .ok [nativeTask .debug, hookTask .debug] := rfl
    obtain ⟨direct, runs⟩ := hook_waits_for_native reached clean wired (by simp) registered
    obtain ⟨⟨result, t⟩, ran⟩ : ∃ ended,
        runOrder (nested 1) (hookTask .debug) (lateHooked (.fail offline)) = some ended := ⟨_, rfl⟩
    obtain ⟨new, journal, unstarted⟩ := (runs 1 _ _ fixed).2 result t ran
    have raised : .raised (lateHooked (.fail offline)).runs (nativeTask .debug) ∈ new := by
      have whole : (runOrder (nested 1) (hookTask .debug) (lateHooked (.fail offline))).map (·.2.journal) =
          some ([.raised 0 (nativeTask .debug), .started 0 (nativeTask .debug),
            .began 0 [nativeTask .debug, hookTask .debug]] ++ (lateHooked (.fail offline)).journal) := rfl
      rw [ran] at whole
      have same := List.append_cancel_right (journal.symm.trans (Option.some.inj whole))
      rw [same]
      exact List.mem_cons_self
    exact ⟨lateHooked_settled (.fail offline), result, t, new, ran, journal, raised,
      unstarted _ (.single direct) raised⟩

end AbiBuild.Tasks
