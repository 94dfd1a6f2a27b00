import AbiBuild.Proofs.Tasks.Tables
import Mathlib.Data.List.Chain

namespace AbiBuild.Tasks

-- From need to need, the task itself included.
def Leads (needs : Needs) : String → String → Prop := Relation.ReflTransGen (Direct needs)

structure Cycle (needs : Needs) (chain : List String) : Prop where
  linked : chain.IsChain (Direct needs)
  closed : ∃ task middle, chain = task :: middle ++ [task]

-- The whole of what a task leads to, each task after its needs and the task itself last.
structure Sorted (needs : Needs) (name : String) (list : List String) : Prop where
  ordered : Ordered needs list
  members : ∀ task, task ∈ list ↔ Leads needs name task
  last : ∃ front, list = front ++ [name]

variable {needs : Needs} {task before name : String} {path done after list chain front back : List String}
  {cause : Failure} {depth : Nat}

theorem direct_of_needsOf (found : needsOf needs task = .ok list) (member : before ∈ list) :
    Direct needs task before := ⟨list, get?_of_needsOf found, member⟩

theorem Cycle.requires (cycle : Cycle needs chain) : ∃ task ∈ chain, Requires needs task task := by
  obtain ⟨task, middle, rfl⟩ := cycle.closed
  have linked : (task :: middle ++ [task]).IsChain (Requires needs) :=
    cycle.linked.imp fun _ _ direct => .single direct
  have transitive : Trans (Requires needs) (Requires needs) (Requires needs) :=
    ⟨fun first second => first.trans second⟩
  have related : ∀ other ∈ middle ++ [task], Requires needs task other :=
    (List.pairwise_cons.mp linked.pairwise).1
  exact ⟨task, by simp, related task (by simp)⟩

theorem cycleFrom_split (absent : task ∉ front) :
    cycleFrom task (front ++ task :: back) = task :: back ++ [task] := by
  have skipped : ∀ other ∈ front, decide (other ≠ task) = true := by
    intro other member
    exact decide_eq_true fun same => absent (same ▸ member)
  rw [cycleFrom, List.dropWhile_append_of_pos skipped]
  simp

theorem cycleFrom_cycle (onPath : task ∈ path) (trail : (path ++ [task]).IsChain (Direct needs)) :
    Cycle needs (cycleFrom task path) := by
  obtain ⟨front, back, rfl, absent⟩ := List.eq_append_cons_of_mem onPath
  rw [cycleFrom_split absent]
  refine ⟨?_, task, back, rfl⟩
  apply trail.suffix
  exact ⟨front, by simp⟩

theorem mem_cycleFrom {other : String} (member : other ∈ cycleFrom task path) :
    other ∈ path ∨ other = task := by
  rcases List.mem_append.mp member with old | last
  · exact .inl ((List.dropWhile_suffix _).subset old)
  · exact .inr (List.mem_singleton.mp last)

-- The three ways a visit can fail: on its own path, at a name that is no task, and further down.
theorem visit_failure (failed : visit needs (depth + 1) path done task = .error cause) : task ∉ done ∧
    ((task ∈ path ∧ cause = .cycle (cycleFrom task path)) ∨
      task ∉ path ∧ (needsOf needs task = .error cause ∨
        ∃ list, needsOf needs task = .ok list ∧
          list.foldlM (visit needs depth (path ++ [task])) done = .error cause)) := by
  unfold visit at failed
  split at failed
  · cases failed
  · rename_i fresh
    refine ⟨fresh, ?_⟩
    split at failed
    · rename_i onPath
      cases failed
      exact .inl ⟨onPath, rfl⟩
    · rename_i offPath
      refine .inr ⟨offPath, ?_⟩
      cases found : needsOf needs task with
      | error other =>
        simp only [found, bind, Except.bind] at failed
        cases failed
        exact .inl rfl
      | ok list =>
        simp only [found, bind, Except.bind] at failed
        cases inner : list.foldlM (visit needs depth (path ++ [task])) done with
        | error other =>
          simp only [inner] at failed
          cases failed
          exact .inr ⟨list, rfl, inner⟩
        | ok middle => simp [inner, pure, Except.pure] at failed

theorem visits_failure {visitOne : List String → String → Except Failure (List String)}
    (failed : list.foldlM visitOne done = .error cause) : ∃ front task back middle,
      list = front ++ task :: back ∧ front.foldlM visitOne done = .ok middle ∧
        visitOne middle task = .error cause := by
  induction list generalizing done with
  | nil => cases failed
  | cons head rest ih =>
    rw [List.foldlM_cons] at failed
    cases first : visitOne done head with
    | error other =>
      simp only [first, bind, Except.bind] at failed
      cases failed
      exact ⟨[], head, rest, done, rfl, rfl, first⟩
    | ok next =>
      simp only [first, bind, Except.bind] at failed
      obtain ⟨front, task, back, middle, split, ran, last⟩ := ih failed
      refine ⟨head :: front, task, back, middle, by simp [split], ?_, last⟩
      rw [List.foldlM_cons]
      simp only [first, bind, Except.bind]
      exact ran

theorem visits_reached {visitOne : List String → String → Except Failure (List String)}
    (one : ∀ {done task after}, visitOne done task = .ok after →
      ∀ other ∈ after, other ∈ done ∨ Leads needs task other)
    (ran : list.foldlM visitOne done = .ok after) :
    ∀ other ∈ after, other ∈ done ∨ ∃ first ∈ list, Leads needs first other := by
  induction list generalizing done with
  | nil =>
    cases ran
    exact fun other member => .inl member
  | cons head rest ih =>
    rw [List.foldlM_cons] at ran
    cases first : visitOne done head with
    | error cause => simp [first, bind, Except.bind] at ran
    | ok next =>
      simp only [first, bind, Except.bind] at ran
      intro other member
      rcases ih ran other member with inNext | ⟨later, inRest, leads⟩
      · rcases one first other inNext with old | leads
        · exact .inl old
        · exact .inr ⟨head, by simp, leads⟩
      · exact .inr ⟨later, List.mem_cons_of_mem _ inRest, leads⟩

theorem visit_reached (ran : visit needs depth path done task = .ok after) :
    ∀ other ∈ after, other ∈ done ∨ Leads needs task other := by
  induction depth generalizing path done task after with
  | zero =>
    unfold visit at ran
    split at ran
    · cases ran
      exact fun other member => .inl member
    · split at ran
      · cases ran
      · cases ran
        exact fun other member => .inl member
  | succ depth ih =>
    by_cases finished : task ∈ done
    · unfold visit at ran
      rw [if_pos finished] at ran
      cases ran
      exact fun other member => .inl member
    · obtain ⟨_, list, middle, found, inner, rfl⟩ := visit_parts finished ran
      intro other member
      rcases List.mem_append.mp member with earlier | last
      · rcases visits_reached ih inner other earlier with old | ⟨first, inList, leads⟩
        · exact .inl old
        · exact .inr (leads.head (direct_of_needsOf found inList))
      · rw [List.mem_singleton.mp last]
        exact .inr .refl

theorem visit_shows_cycle (known : ∀ {task before}, Direct needs task before → before ∈ needs.keys)
    (room : needs.length < depth + path.length) (ordered : Ordered needs done)
    (under : Under needs path done) (present : task ∈ needs.keys)
    (trail : (path ++ [task]).IsChain (Direct needs))
    (failed : visit needs depth path done task = .error cause) : ∃ chain, cause = .cycle chain ∧
      Cycle needs chain ∧ ∀ other ∈ chain, other ∈ path ∨ Leads needs task other := by
  -- Induction on the depth. The path is a chain of needs down to the task, every name on it has an entry,
  -- and there is room as in `visit_ordered`; so the first visit to fail has come back to its own path.
  induction depth generalizing path done task with
  | zero =>
    have bound := under.length_le
    omega
  | succ depth ih =>
    obtain ⟨fresh, ⟨onPath, rfl⟩ | ⟨offPath, missing | ⟨list, found, inner⟩⟩⟩ := visit_failure failed
    · refine ⟨_, rfl, cycleFrom_cycle onPath trail, ?_⟩
      intro other member
      rcases mem_cycleFrom member with old | rfl
      · exact .inl old
      · exact .inr .refl
    · obtain ⟨list, found⟩ := needsOf_of_mem_keys present
      rw [found] at missing
      cases missing
    · have pushed := under.push found fresh offPath
      have deeper : needs.length < depth + (path ++ [task]).length := by
        simp only [List.length_append, List.length_singleton]
        omega
      obtain ⟨front, first, back, middle, rfl, earlier, stuck⟩ := visits_failure inner
      obtain ⟨visited, _⟩ := visits_ordered (visit_ordered deeper) ordered pushed earlier
      have needed : Direct needs task first := direct_of_needsOf found (by simp)
      have longer : (path ++ [task] ++ [first]).IsChain (Direct needs) := by
        refine trail.append (List.isChain_singleton _) ?_
        intro last isLast next isNext
        simp only [List.getLast?_concat, Option.mem_some_iff, List.head?_cons] at isLast isNext
        exact isLast ▸ isNext ▸ needed
      obtain ⟨chain, rfl, cycle, along⟩ :=
        ih deeper visited.ordered visited.under (known needed) longer stuck
      refine ⟨chain, rfl, cycle, ?_⟩
      intro other member
      rcases along other member with onPath | leads
      · rcases List.mem_append.mp onPath with old | last
        · exact .inl old
        · rw [List.mem_singleton.mp last]
          exact .inr .refl
      · exact .inr (leads.head needed)

theorem Ordered.not_circular (ordered : Ordered needs list) (member : task ∈ list) :
    ¬ Requires needs task task := by
  intro required
  obtain ⟨front, back, split⟩ := List.append_of_mem member
  exact ordered.not_requires split required (by simp)

theorem order_sorted (ran : order needs name = .ok list) : Sorted needs name list := by
  obtain ⟨ordered, present⟩ := order_ordered ran
  refine ⟨ordered, ?_, ?_⟩
  · intro task
    constructor
    · intro member
      rcases visit_reached ran task member with none | leads
      · cases none
      · exact leads
    · intro leads
      -- The list is closed under what its tasks need, and the wanted task is in it.
      induction leads with
      | refl => exact present
      | tail _ needed ih =>
        obtain ⟨front, back, split⟩ := List.append_of_mem ih
        rw [split]
        exact List.mem_append_left _ (ordered.closed split needed)
  · obtain ⟨_, _, middle, _, _, split⟩ := visit_parts List.not_mem_nil ran
    exact ⟨middle, split⟩

theorem order_shows_cycle (known : ∀ {task before}, Direct needs task before → before ∈ needs.keys)
    (present : name ∈ needs.keys) (failed : order needs name = .error cause) :
    ∃ chain, cause = .cycle chain ∧ Cycle needs chain ∧ ∀ task ∈ chain, Leads needs name task := by
  have under : Under needs [] [] := ⟨List.nodup_nil, List.nil_subset _, by simp⟩
  obtain ⟨chain, same, cycle, along⟩ := visit_shows_cycle known (by simp) (ordered_nil needs) under
    present (List.isChain_singleton name) failed
  refine ⟨chain, same, cycle, ?_⟩
  intro task member
  rcases along task member with none | leads
  · cases none
  · exact leads

section Reached

variable {σ : Type} {world : σ} {s : Session σ} {p q : Program σ}

theorem graph_order_sorted {g : Graph σ} (fixed : g.order name = .ok list) : Sorted g.needs name list :=
  order_sorted (graph_order_parts fixed).2

theorem graph_order_cycle {g : Graph σ} (tabled : Tabled g) (present : g.has name = true)
    (failed : g.order name = .error cause) :
    ∃ chain, cause = .cycle chain ∧ Cycle g.needs chain ∧ ∀ task ∈ chain, Leads g.needs name task := by
  rw [Graph.order, if_pos present] at failed
  apply order_shows_cycle _ _ failed
  · intro task before direct
    rw [tabled.keys]
    exact tabled.known direct
  · rw [tabled.keys]
    exact mem_tasks_iff.mpr present

theorem Tabled.mem_of_leads {g : Graph σ} (tabled : Tabled g) (present : name ∈ g.tasks)
    (leads : Leads g.needs name task) : task ∈ g.tasks := by
  induction leads with
  | refl => exact present
  | tail _ direct _ => exact tabled.known direct

-- Wherever control is in a program, callbacks included, and whatever was done to the graph before.
theorem order_is_topological (reached : Reaches depth p (Session.start world) q s)
    (present : s.graph.has name = true) :
    ((∃ chain, s.graph.order name = .error (.cycle chain)) ↔
      ∃ task, Leads s.graph.needs name task ∧ Requires s.graph.needs task task) ∧
    (∀ list, s.graph.order name = .ok list → list.Nodup ∧
      (∀ task, task ∈ list ↔ Leads s.graph.needs name task) ∧
      (∀ front task back, list = front ++ task :: back →
        ∀ before, Direct s.graph.needs task before → before ∈ front) ∧
      ∃ front, list = front ++ [name]) ∧
    ∀ cause, s.graph.order name = .error cause → ∃ chain, cause = .cycle chain ∧
      cause.message = "Task dependency cycle: " ++ " -> ".intercalate chain ∧
      chain.IsChain (Direct s.graph.needs) ∧
      (∃ task middle, chain = task :: middle ++ [task]) ∧
      ∀ task ∈ chain, Leads s.graph.needs name task := by
  have tabled := reached_tabled reached
  refine ⟨⟨?_, ?_⟩, ?_, ?_⟩
  · rintro ⟨chain, failed⟩
    obtain ⟨_, same, cycle, along⟩ := graph_order_cycle tabled present failed
    cases same
    obtain ⟨task, member, required⟩ := cycle.requires
    exact ⟨task, along task member, required⟩
  · rintro ⟨task, leads, required⟩
    cases outcome : s.graph.order name with
    | error cause =>
      obtain ⟨chain, rfl, _⟩ := graph_order_cycle tabled present outcome
      exact ⟨chain, rfl⟩
    | ok list =>
      have sorted := graph_order_sorted outcome
      exact absurd required (sorted.ordered.not_circular ((sorted.members task).mpr leads))
  · intro list fixed
    have sorted := graph_order_sorted fixed
    exact ⟨sorted.ordered.nodup, sorted.members,
      fun front task back split before direct => sorted.ordered.closed split direct, sorted.last⟩
  · intro cause failed
    obtain ⟨chain, rfl, cycle, along⟩ := graph_order_cycle tabled present failed
    exact ⟨chain, rfl, rfl, cycle.linked, cycle.closed, along⟩

def tangle : Program Unit :=
  .register "check" .skip (.orFail (.register "lint" .skip (.orFail (.register "docs" .skip (.orFail
    (.addNeed "check" "lint" (.orFail (.addNeed "lint" "docs" (.orFail
      (.addNeed "docs" "lint" (.orFail .skip)))))))))))

theorem tangle_graph : (execute 0 tangle (.start ())).map (fun r => (r.2.graph.has "check", r.2.graph.needs)) =
    some (true, [("check", ["lint"]), ("lint", ["docs"]), ("docs", ["lint"])]) := by
  rfl

theorem tangle_order_shows_cycle : ∃ q s, Reaches 0 tangle (.start ()) q s ∧
    s.graph.has "check" = true ∧ s.graph.order "check" = .error (.cycle ["lint", "docs", "lint"]) ∧
    ∃ task, Leads s.graph.needs "check" task ∧ Requires s.graph.needs task task := by
  obtain ⟨⟨result, s⟩, ran, outcome⟩ := Option.map_eq_some_iff.mp tangle_graph
  obtain ⟨q, reached⟩ := execute_reaches ran
  obtain ⟨present, needs⟩ := Prod.mk.inj outcome
  replace needs : s.graph.needs = _ := needs
  have failed : s.graph.order "check" = .error (.cycle ["lint", "docs", "lint"]) := by
    rw [Graph.order, if_pos present, needs]
    rfl
  exact ⟨q, s, reached, present, failed, (order_is_topological reached present).1.mp ⟨_, failed⟩⟩

end Reached

end AbiBuild.Tasks
