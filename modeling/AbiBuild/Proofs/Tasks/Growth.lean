import AbiBuild.Proofs.Tasks.Reentry

namespace AbiBuild.Tasks

def Event.run? : Event → Option Nat
  | .began run _ | .started run _ | .finished run _ | .raised run _ => some run
  | _ => none

-- `new` is what the journal holds on top; its runs began at number `since` or later.
structure Grows (since : Nat) (s t : Session σ) : Prop where
  actions : s.graph.actions <+: t.graph.actions
  listeners : s.graph.listeners <+: t.graph.listeners
  needs : ∀ task before, Direct s.graph.needs task before → Direct t.graph.needs task before
  runs : s.runs ≤ t.runs
  journal : ∃ new, t.journal = new ++ s.journal ∧
    ∀ event ∈ new, ∀ run, event.run? = some run → since ≤ run

variable {σ : Type} {s t u : Session σ} {since earlier index : Nat} {task before name : String}
  {needs after : Needs} {event : Event}

theorem Grows.refl (since : Nat) (s : Session σ) : Grows since s s := by
  refine ⟨List.prefix_refl _, List.prefix_refl _, fun _ _ direct => direct, Nat.le_refl _, [], rfl, ?_⟩
  intro event member
  cases member

theorem Grows.trans (first : Grows since s t) (second : Grows since t u) : Grows since s u := by
  obtain ⟨new, journal, recent⟩ := first.journal
  obtain ⟨newer, later, recentToo⟩ := second.journal
  refine ⟨first.actions.trans second.actions, first.listeners.trans second.listeners,
    fun task before direct => second.needs task before (first.needs task before direct),
    Nat.le_trans first.runs second.runs, newer ++ new, by rw [later, journal, List.append_assoc], ?_⟩
  intro event member
  rcases List.mem_append.mp member with isNewer | isNew
  · exact recentToo event isNewer
  · exact recent event isNew

theorem Grows.weaken (grows : Grows since s t) (le : earlier ≤ since) : Grows earlier s t := by
  obtain ⟨new, journal, recent⟩ := grows.journal
  refine ⟨grows.actions, grows.listeners, grows.needs, grows.runs, new, journal, ?_⟩
  intro event member run same
  exact Nat.le_trans le (recent event member run same)

theorem mem_tasks_of_prefix {g h : Graph σ} (grown : g.actions <+: h.actions) (present : name ∈ g.tasks) :
    name ∈ h.tasks := by
  obtain ⟨rest, more⟩ := grown
  unfold Graph.tasks Table.keys at present ⊢
  rw [← more, List.map_append]
  exact List.mem_append_left _ present

theorem Grows.mem_tasks (grows : Grows since s t) (present : name ∈ s.graph.tasks) : name ∈ t.graph.tasks :=
  mem_tasks_of_prefix grows.actions present

theorem Grows.listener {listener : String → Program σ} (grows : Grows since s t)
    (installed : s.graph.listeners[index]? = some listener) :
    t.graph.listeners[index]? = some listener := by
  obtain ⟨rest, more⟩ := grows.listeners
  have bound : index < s.graph.listeners.length := (List.getElem?_eq_some_iff.mp installed).1
  rw [← more, List.getElem?_append_left bound]
  exact installed

theorem Grows.mem_journal (grows : Grows since s t) (noted : event ∈ s.journal) : event ∈ t.journal := by
  obtain ⟨new, journal, _⟩ := grows.journal
  rw [journal]
  exact List.mem_append_right _ noted

theorem grows_note (recent : ∀ run, event.run? = some run → since ≤ run) : Grows since s (s.note event) := by
  refine ⟨List.prefix_refl _, List.prefix_refl _, fun _ _ direct => direct, Nat.le_refl _, [event], rfl, ?_⟩
  intro other member
  rw [List.mem_singleton.mp member]
  exact recent

theorem grows_world (world : σ) : Grows since s { s with world := world } :=
  ⟨List.prefix_refl _, List.prefix_refl _, fun _ _ direct => direct, Nat.le_refl _, [], rfl, by simp⟩

theorem direct_enter (direct : Direct needs task before) : Direct (needs ++ [(name, [])]) task before := by
  obtain ⟨list, found, member⟩ := direct
  refine ⟨list, ?_, member⟩
  unfold Table.get? at found ⊢
  rw [List.lookup_append, found]
  rfl

theorem grows_enter (action : Program σ) : Grows since s (s.enter name action) :=
  ⟨List.prefix_append _ _, List.prefix_refl _, fun _ _ direct => direct_enter direct, Nat.le_refl _, [], rfl,
    by simp⟩

theorem grows_install (listener : String → Program σ) : Grows since s (s.install listener) := by
  refine ⟨List.prefix_refl _, List.prefix_append _ _, fun _ _ direct => direct, Nat.le_refl _,
    [.installed s.graph.listeners.length], rfl, ?_⟩
  intro event member run same
  rw [List.mem_singleton.mp member] at same
  cases same

theorem grows_begin (le : since ≤ s.runs) (list : List String) : Grows since s (s.begin list) := by
  refine ⟨List.prefix_refl _, List.prefix_refl _, fun _ _ direct => direct, Nat.le_succ _,
    [.began s.runs list], rfl, ?_⟩
  intro event member run same
  rw [List.mem_singleton.mp member] at same
  cases same
  exact le

theorem addNeed_put (accepted : addNeed needs task before = .ok after) :
    ∃ present, needs.get? task = some present ∧ task ∈ needs.keys ∧
      (before ∈ present ∧ after = needs ∨ before ∉ present ∧ after = needs.put task (present ++ [before])) := by
  unfold addNeed at accepted
  cases found : needsOf needs task with
  | error cause => simp [found, bind, Except.bind] at accepted
  | ok present =>
    simp only [found, bind, Except.bind, pure, Except.pure] at accepted
    refine ⟨present, get?_of_needsOf found, mem_keys_of_needsOf found, ?_⟩
    split at accepted
    · rename_i old
      cases accepted
      exact .inl ⟨old, rfl⟩
    · rename_i new
      cases accepted
      exact .inr ⟨new, rfl⟩

theorem addNeed_direct (accepted : addNeed needs task before = .ok after) : Direct after task before := by
  obtain ⟨present, here, _, ⟨old, rfl⟩ | ⟨_, rfl⟩⟩ := addNeed_put accepted
  · exact ⟨present, here, old⟩
  · exact ⟨present ++ [before], Table.get?_put_self _ _ _, by simp⟩

theorem addNeed_keeps {other needed : String} (accepted : addNeed needs task before = .ok after)
    (direct : Direct needs other needed) : Direct after other needed := by
  obtain ⟨list, got, member⟩ := direct
  obtain ⟨present, here, _, ⟨_, rfl⟩ | ⟨_, rfl⟩⟩ := addNeed_put accepted
  · exact ⟨list, got, member⟩
  · by_cases same : other = task
    · subst same
      have equal : list = present := Option.some.inj (got.symm.trans here)
      exact ⟨present ++ [before], Table.get?_put_self _ _ _, List.mem_append_left _ (equal ▸ member)⟩
    · exact ⟨list, by rw [Table.get?_put_of_ne _ same]; exact got, member⟩

theorem graph_order_parts {g : Graph σ} {name : String} {list : List String} (fixed : g.order name = .ok list) :
    g.has name = true ∧ order g.needs name = .ok list := by
  unfold Graph.order at fixed
  split at fixed
  · rename_i present
    exact ⟨present, fixed⟩
  · cases fixed

theorem graph_addNeed_parts {g h : Graph σ} (accepted : g.addNeed task before = .ok h) :
    ∃ after, addNeed g.needs task before = .ok after ∧ h = { g with needs := after } ∧
      g.has task = true ∧ g.has before = true := by
  unfold Graph.addNeed at accepted
  cases hasTask : g.has task with
  | false => simp [hasTask, bind, Except.bind, throw, throwThe, MonadExceptOf.throw] at accepted
  | true =>
    cases hasBefore : g.has before with
    | false =>
      simp [hasTask, hasBefore, bind, Except.bind, throw, throwThe, MonadExceptOf.throw] at accepted
    | true =>
      cases added : addNeed g.needs task before with
      | error cause => simp [hasTask, hasBefore, added, bind, Except.bind] at accepted
      | ok after =>
        simp only [hasTask, hasBefore, added, bind, Except.bind, pure, Except.pure] at accepted
        cases accepted
        exact ⟨after, rfl, rfl, rfl, rfl⟩

theorem grows_addNeed {graph : Graph σ} (accepted : s.graph.addNeed task before = .ok graph) :
    Grows since s { s with graph := graph } := by
  obtain ⟨after, added, rfl, _, _⟩ := graph_addNeed_parts accepted
  exact ⟨List.prefix_refl _, List.prefix_refl _, fun _ _ direct => addNeed_keeps added direct, Nat.le_refl _,
    [], rfl, by simp⟩

end AbiBuild.Tasks
