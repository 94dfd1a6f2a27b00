import AbiBuild.Proofs.Tasks.Debts

namespace AbiBuild.Tasks

inductive Turn : Session σ → Session σ → Prop
  | world (world : σ) : Turn s { s with world := world }
  | note (event : Event) : Turn s (s.note event)
  | enter (action : Program σ) (free : s.graph.has name = false) : Turn s (s.enter name action)
  | install (listener : String → Program σ) : Turn s (s.install listener)
  | begin (order : List String) : Turn s (s.begin order)
  | addNeed (accepted : s.graph.addNeed task before = .ok graph) : Turn s { s with graph := graph }

abbrev Turns : Session σ → Session σ → Prop := Relation.ReflTransGen Turn

-- A callback that leaves nothing but turns behind.
def Turning (callback : Callback σ) : Prop :=
  ∀ {p s result t}, callback p s = some (result, t) → Turns s t

structure Tabled (g : Graph σ) : Prop where
  keys : g.needs.keys = g.tasks
  nodup : g.tasks.Nodup
  known : ∀ {task before}, Direct g.needs task before → before ∈ g.tasks

variable {σ : Type} {callback : Callback σ} {s t u : Session σ} {p q : Program σ} {g h : Graph σ}
  {index run depth : Nat} {name task before : String} {listener : String → Program σ}
  {failed : Option Failure} {variants : List Variant} {action : Program σ} {list : List (Delivery σ)}
  {order : List String} {build : Variant → Program σ} {needs after : Needs}

theorem call_turns (turning : Turning callback)
    (ran : call callback index listener name s = some (failed, t)) : Turns s t := by
  cases call_cases ran with
  | returned called => exact .head (.note _) (turning called)
  | raised called => exact .tail (.head (.note _) (turning called)) (.note _)

theorem callAll_turns (turning : Turning callback)
    (ran : callAll callback list s = some (failed, t)) : Turns s t := by
  induction list generalizing s with
  | nil =>
    cases ran
    exact .refl
  | cons item rest ih =>
    obtain ⟨index, listener, name⟩ := item
    obtain ⟨⟨outcome, m⟩, first, later⟩ := Option.bind_eq_some_iff.mp ran
    have told := call_turns turning first
    cases outcome with
    | some cause =>
      cases later
      exact told
    | none => exact told.trans (ih later)

theorem register_turns (turning : Turning callback)
    (ran : register callback name action s = some (failed, t)) : Turns s t := by
  cases register_cases ran with
  | taken _ => exact .refl
  | broken free broke => exact .head (.enter action free) (callAll_turns turning broke)
  | noted free told => exact .tail (.head (.enter action free) (callAll_turns turning told)) (.note _)

theorem whenAdded_turns (turning : Turning callback)
    (ran : whenAdded callback listener s = some (failed, t)) : Turns s t :=
  .head (.install listener) (callAll_turns turning ran)

theorem spans_turns (turning : Turning callback) : Spans callback Turns where
  refl _ := .refl
  trans first second := first.trans second
  world _ world := .single (.world world)
  note _ event _ := .single (.note event)
  begin _ order := .single (.begin order)
  addNeed accepted := .single (.addNeed accepted)
  callee ran := turning ran
  register ran := register_turns turning ran
  whenAdded ran := whenAdded_turns turning ran

theorem nested_turns (depth : Nat) : Turning (nested depth : Callback σ) := by
  -- Induction on how deep callbacks may nest.
  induction depth with
  | zero =>
    intro p s result t ran
    cases ran
  | succ depth ih =>
    intro p s result t ran
    have executed : execute depth p s = some (result, t) := ran
    rw [execute_eq] at executed
    exact (spans_turns ih).respects.chain (executeWith_chain executed)

theorem callStarts_turns (turning : Turning callback) (starts : CallStarts callback list s q t) :
    Turns s t := by
  induction starts with
  | here => exact .single (.note _)
  | later ran _ ih => exact (call_turns turning ran).trans ih

theorem taskStarts_turns (turning : Turning callback)
    (starts : TaskStarts callback run order s task action t) : Turns s t := by
  induction starts with
  | here => exact .single (.note _)
  | later ran _ ih => exact ((spans_turns turning).runTask ran).trans ih

theorem nativeStarts_turns (turning : Turning callback)
    (starts : NativeStarts callback build variants s q t) : Turns s t := by
  induction starts with
  | here free starts => exact .head (.enter _ free) (callStarts_turns turning starts)
  | later ran _ ih => exact (register_turns turning ran).trans ih

theorem enters_turns (turning : Turning callback) (into : Enters callback p s q t) : Turns s t := by
  cases into with
  | register free starts => exact .head (.enter _ free) (callStarts_turns turning starts)
  | whenAdded starts => exact .head (.install _) (callStarts_turns turning starts)
  | run fixed starts => exact .head (.begin _) (taskStarts_turns turning starts)
  | native starts => exact nativeStarts_turns turning starts
  | hooked ran starts =>
    exact ((spans_turns turning).registerNatives ran).trans (.head (.install _) (callStarts_turns turning starts))

theorem reaches_turns (reached : Reaches depth p s q t) : Turns s t := by
  induction reached with
  | refl => exact .refl
  | continues taken _ ih => exact ((spans_turns (nested_turns _)).respects.continues taken).trans ih
  | enters into _ ih => exact (enters_turns (nested_turns _) into).trans ih

theorem mem_tasks_iff : name ∈ g.tasks ↔ g.has name = true := by
  constructor
  · intro present
    by_contra absent
    exact not_mem_tasks (Bool.not_eq_true _ ▸ absent) present
  · intro present
    obtain ⟨action, found⟩ := Option.isSome_iff_exists.mp present
    obtain ⟨front, back, split, _⟩ := List.lookup_eq_some_iff.mp found
    unfold Graph.tasks Table.keys
    rw [split]
    simp

theorem addNeed_direct_only {other needed : String} (accepted : addNeed needs task before = .ok after)
    (direct : Direct after other needed) : Direct needs other needed ∨ needed = before := by
  obtain ⟨present, here, _, ⟨_, rfl⟩ | ⟨_, rfl⟩⟩ := addNeed_put accepted
  · exact .inl direct
  · obtain ⟨found, got, member⟩ := direct
    by_cases same : other = task
    · subst same
      rw [Table.get?_put_self, Option.some.injEq] at got
      subst got
      rcases List.mem_append.mp member with old | new
      · exact .inl ⟨present, here, old⟩
      · exact .inr (List.mem_singleton.mp new)
    · rw [Table.get?_put_of_ne _ same] at got
      exact .inl ⟨found, got, member⟩

theorem addNeed_keys (accepted : addNeed needs task before = .ok after) : after.keys = needs.keys := by
  obtain ⟨present, _, member, ⟨_, rfl⟩ | ⟨_, rfl⟩⟩ := addNeed_put accepted
  · rfl
  · rw [Table.keys_put, if_pos member]

theorem direct_of_enter (direct : Direct (needs ++ [(name, [])]) task before) :
    Direct needs task before := by
  obtain ⟨list, found, member⟩ := direct
  unfold Table.get? at found
  rw [List.lookup_append] at found
  cases old : needs.lookup task with
  | some present =>
    rw [old] at found
    exact ⟨list, by rw [Table.get?, old]; exact found, member⟩
  | none =>
    -- The task that is entered needs nothing yet.
    rw [old, Option.none_or] at found
    obtain ⟨front, back, split, _⟩ := List.lookup_eq_some_iff.mp found
    have entry : (task, list) ∈ [(name, ([] : List String))] := by
      rw [split]
      simp
    cases List.mem_singleton.mp entry
    cases member

theorem tabled_enter (tabled : Tabled g) (free : g.has name = false) (action : Program σ) :
    Tabled (g.enter name action) := by
  refine ⟨?_, ?_, ?_⟩
  · rw [tasks_enter, ← tabled.keys]
    simp [Graph.enter, Table.keys]
  · rw [tasks_enter]
    refine List.nodup_append.mpr ⟨tabled.nodup, List.nodup_singleton _, ?_⟩
    intro old present new last
    rw [List.mem_singleton] at last
    subst last
    exact fun same => not_mem_tasks free (same ▸ present)
  · intro task before direct
    rw [tasks_enter]
    exact List.mem_append_left _ (tabled.known (direct_of_enter direct))

theorem tabled_addNeed (tabled : Tabled g) (accepted : g.addNeed task before = .ok h) : Tabled h := by
  obtain ⟨after, added, rfl, _, present⟩ := graph_addNeed_parts accepted
  refine ⟨?_, tabled.nodup, ?_⟩
  · exact (addNeed_keys added).trans tabled.keys
  · intro other needed direct
    rcases addNeed_direct_only added direct with old | rfl
    · exact tabled.known old
    · exact mem_tasks_iff.mpr present

theorem turn_tabled (tabled : Tabled s.graph) (turn : Turn s t) : Tabled t.graph := by
  cases turn with
  | world => exact tabled
  | note => exact tabled
  | enter action free => exact tabled_enter tabled free action
  | install => exact ⟨tabled.keys, tabled.nodup, tabled.known⟩
  | begin => exact tabled
  | addNeed accepted => exact tabled_addNeed tabled accepted

theorem turns_tabled (tabled : Tabled s.graph) (turns : Turns s t) : Tabled t.graph := by
  induction turns with
  | refl => exact tabled
  | tail _ turn ih => exact turn_tabled ih turn

theorem tabled_empty : Tabled (Graph.empty : Graph σ) := by
  refine ⟨rfl, List.nodup_nil, ?_⟩
  rintro task before ⟨list, found, _⟩
  cases found

theorem reached_tabled {world : σ} (reached : Reaches depth p (Session.start world) q s) :
    Tabled s.graph := turns_tabled tabled_empty (reaches_turns reached)

end AbiBuild.Tasks
