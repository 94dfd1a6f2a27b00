import AbiBuild.Proofs.Tasks.Timelines

namespace AbiBuild.Tasks

-- No name stands twice in what a task needs, and none but those of tasks.
def Graph.Neat (g : Graph σ) : Prop :=
  ∀ entry ∈ g.needs, entry.2.Nodup ∧ ∀ before ∈ entry.2, before ∈ g.tasks

-- On a cycle, before anything is run, or with what becomes of the failure of an action.
inductive RunFails (level : Nat) (name : String) (s : Session σ) : Failure → Session σ → Prop
  | tangled (cycle : s.graph.order name = .error (.cycle chain)) : RunFails level name s (.cycle chain) s
  | raised (fixed : s.graph.order name = .ok list)
      (starts : TaskStarts (nested level) s.runs list (s.begin list) task action m)
      (raises : nested level action m = some (.error cause, v)) :
      RunFails level name s (.ofTask task cause) (v.note (.raised s.runs task))

variable {σ : Type} {s t : Session σ} {g h : Graph σ} {name task before : String} {level : Nat} {needs : Needs}
  {present more : List String} {cause : Failure}

theorem mem_put {entry : String × List String} (member : entry ∈ needs.put task present) :
    entry ∈ needs ∨ entry = (task, present) := by
  induction needs with
  | nil => exact .inr (List.mem_singleton.mp member)
  | cons first rest ih =>
    unfold Table.put at member
    split at member
    · rcases List.mem_cons.mp member with here | there
      · rename_i same
        exact .inr (here.trans (by rw [same]))
      · exact .inl (List.mem_cons_of_mem _ there)
    · rcases List.mem_cons.mp member with here | there
      · exact .inl (here ▸ List.mem_cons_self)
      · exact (ih there).imp_left (List.mem_cons_of_mem _)

theorem mem_of_get? (found : needs.get? task = some present) : (task, present) ∈ needs := by
  obtain ⟨front, back, split, _⟩ := List.lookup_eq_some_iff.mp found
  rw [split]
  simp

theorem neat_enter (neat : g.Neat) (name : String) (action : Program σ) : (g.enter name action).Neat := by
  intro entry member
  rw [tasks_enter]
  rcases List.mem_append.mp member with old | new
  · exact ⟨(neat entry old).1, fun before among => List.mem_append_left _ ((neat entry old).2 before among)⟩
  · rw [List.mem_singleton.mp new]
    exact ⟨.nil, by simp⟩

theorem neat_addNeed (neat : g.Neat) (accepted : g.addNeed task before = .ok h) : h.Neat := by
  obtain ⟨after, added, rfl, _, there⟩ := graph_addNeed_parts accepted
  have registered : before ∈ g.tasks := mem_tasks_iff.mpr there
  obtain ⟨present, here, _, ⟨_, rfl⟩ | ⟨new, rfl⟩⟩ := addNeed_put added
  · exact neat
  · intro entry member
    rcases mem_put member with old | rfl
    · exact neat entry old
    · obtain ⟨once, known⟩ := neat _ (mem_of_get? here)
      refine ⟨List.nodup_append.mpr ⟨once, List.nodup_singleton _, ?_⟩, fun other among => ?_⟩
      · intro old among last final
        rw [List.mem_singleton.mp final]
        exact fun same => new (same ▸ among)
      · rcases List.mem_append.mp among with old | last
        · exact known other old
        · exact List.mem_singleton.mp last ▸ registered

theorem turn_neat (neat : s.graph.Neat) (turn : Turn s t) : t.graph.Neat := by
  cases turn with
  | world | note | begin | install => exact neat
  | enter action => exact neat_enter neat _ action
  | addNeed accepted => exact neat_addNeed neat accepted

theorem turns_neat (neat : s.graph.Neat) (turns : Turns s t) : t.graph.Neat := by
  induction turns with
  | refl => exact neat
  | tail _ turn ih => exact turn_neat ih turn

theorem edges_put (found : needs.get? task = some present) :
    (edges needs).Sublist (edges (needs.put task (present ++ more))) := by
  induction needs with
  | nil => cases found
  | cons first rest ih =>
    obtain ⟨key, list⟩ := first
    unfold Table.get? at found
    rw [List.lookup_cons] at found
    unfold Table.put
    split at found
    · rename_i same
      cases found
      rw [if_pos (beq_iff_eq.mp same).symm]
      simp [edges]
    · rename_i other
      rw [if_neg fun same => by simp [same] at other]
      exact List.Sublist.append_left (ih found) _

theorem turn_edges (turn : Turn s t) : s.graph.edges.Sublist t.graph.edges := by
  cases turn with
  | world | note | begin | install => exact .refl _
  | enter action => simp [Graph.edges, edges, Session.enter, Graph.enter]
  | addNeed accepted =>
    obtain ⟨after, added, rfl, _, _⟩ := graph_addNeed_parts accepted
    obtain ⟨present, here, _, ⟨_, rfl⟩ | ⟨_, rfl⟩⟩ := addNeed_put added
    · exact .refl _
    · exact edges_put here

theorem turns_edges (turns : Turns s t) : s.graph.edges.Sublist t.graph.edges := by
  induction turns with
  | refl => exact .refl _
  | tail _ turn ih => exact ih.trans (turn_edges turn)

theorem ordered_actions (tabled : Tabled g) (there : g.has name = true) {order : List String}
    (fixed : g.order name = .ok order) : ∀ task ∈ order, ∃ action, g.actions.get? task = some action := by
  intro task member
  have leads := ((graph_order_sorted fixed).members task).mp member
  exact action_of_mem_tasks (tabled.mem_of_leads (mem_tasks_iff.mpr there) leads)

-- Every task in the order has an action, so that it is an action that fails.
theorem runOrder_fails (tabled : Tabled s.graph) (there : s.graph.has name = true)
    (failed : runOrder (nested level) name s = some (.error cause, t)) : RunFails level name s cause t := by
  cases fixed : s.graph.order name with
  | error other =>
    obtain ⟨chain, rfl, _⟩ := graph_order_cycle tabled there fixed
    simp only [runOrder, fixed] at failed
    cases failed
    exact .tangled fixed
  | ok order =>
    obtain ⟨_, _, ⟨ended, _⟩ | ⟨task, action, u, raised, v, starts, raises⟩⟩ :=
      runOrder_ends fixed (ordered_actions tabled there fixed) failed
    · cases ended
    · obtain ⟨_, _, _, _, _, stopped, _⟩ := runOrder_stops fixed starts raises
      rw [stopped] at failed
      cases failed
      exact .raised fixed starts raises

def meddling : Program Unit :=
  .whenAdded (fun name =>
    if name = "build" then
      .register "lint" (.fail noise) fun _ => .addNeed "build" "lint" fun _ => .fail noise
    else .skip) fun _ =>
  .register "build" .skip fun _ => .register "deploy" .skip fun _ => .addNeed "deploy" "build" fun _ =>
  .run "deploy" fun _ => .skip

def meddled : Session Unit := ((execute 2 meddling (.start ())).map Prod.snd).getD (.start ())

example : (timeline 2 meddling (.start ())).map (fun s => s.graph.tasks.length) =
    [0, 0, 1, 2, 2, 2, 2, 3, 3, 3, 3, 3] := rfl

end AbiBuild.Tasks
