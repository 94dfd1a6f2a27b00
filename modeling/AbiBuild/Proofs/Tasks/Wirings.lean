import AbiBuild.Proofs.Tasks.Tables

namespace AbiBuild.Tasks

def hookNeeds (variants : List Variant) (name : String) : List String :=
  ((variants.find? fun v => hookTask v = name).map nativeTask).toList

def hookEdges (variants : List Variant) (names : List String) : List Edge :=
  names.flatMap fun name => (hookNeeds variants name).map fun before => ⟨before, name⟩

def registerAll (tasks : List (String × Program σ)) (next : Program σ) : Program σ :=
  tasks.foldr (fun task rest => .register task.1 task.2 (.orFail rest)) next

def wiredAmid (variants : List Variant) (build : Variant → Program σ)
    (before after : List (String × Program σ)) : Program σ :=
  registerAll before (.wire variants build fun
    | .ok answer => registerAll after (.done answer)
    | .error cause => .fail cause)

structure Holds (s : Session σ) (names : List String) (needed : String → List String)
    (listeners : List (String → Program σ)) : Prop where
  tasks : s.graph.tasks = names
  needs : s.graph.needs = names.map fun name => (name, needed name)
  listeners : s.graph.listeners = listeners

variable {σ : Type} {callback : Callback σ} {s t : Session σ} {names rest : List String} {name : String}
  {needed other : String → List String} {listeners : List (String → Program σ)}
  {listener : String → Program σ} {variants : List Variant} {build : Variant → Program σ}
  {action next : Program σ} {tasks : List (String × Program σ)} {v : Variant} {value : List String}

theorem hookTask_injective {w : Variant} (same : hookTask v = hookTask w) : v = w := by
  have found := hookVariant?_hookTask v
  rw [same, hookVariant?_hookTask] at found
  exact (Option.some.inj found).symm

theorem nativeTask_ne_hookTask (v w : Variant) : hookTask v ≠ nativeTask w := by
  cases v <;> cases w <;> decide

theorem nativeTask_injective {w : Variant} (same : nativeTask v = nativeTask w) : v = w := by
  cases v <;> cases w
  · rfl
  · exact absurd same (by decide)
  · exact absurd same (by decide)
  · rfl

theorem hookNeeds_hookTask (member : v ∈ variants) : hookNeeds variants (hookTask v) = [nativeTask v] := by
  unfold hookNeeds
  cases found : variants.find? fun w => hookTask w = hookTask v with
  | none =>
    have none_ := List.find?_eq_none.mp found v member
    simp at none_
  | some w =>
    have same : hookTask w = hookTask v := by simpa using List.find?_some found
    rw [hookTask_injective same]
    rfl

theorem hookNeeds_other (noHook : ∀ v ∈ variants, name ≠ hookTask v) : hookNeeds variants name = [] := by
  have none_ : variants.find? (fun v => hookTask v = name) = none :=
    List.find?_eq_none.mpr fun v member => by simpa using (noHook v member).symm
  simp [hookNeeds, none_]

theorem hookNeeds_native (v : Variant) : hookNeeds variants (nativeTask v) = [] :=
  hookNeeds_other fun w _ same => nativeTask_ne_hookTask w v same.symm

theorem hookNeeds_cases (variants : List Variant) (name : String) :
    (∃ v ∈ variants, name = hookTask v) ∨ ∀ v ∈ variants, name ≠ hookTask v := by
  by_cases hook : ∃ v ∈ variants, name = hookTask v
  · exact .inl hook
  · exact .inr fun v member same => hook ⟨v, member, same⟩

theorem hookListener_other (noHook : ∀ v ∈ variants, name ≠ hookTask v) :
    (hookListener variants name : Program σ) = .skip := by
  unfold hookListener
  split
  · rfl
  · rename_i v found
    have same : hookTask v = name := by simpa using List.find?_some found
    exact if_neg fun member => noHook v member same.symm

theorem get?_named (member : name ∈ names) :
    Table.get? (names.map fun name => (name, needed name)) name = some (needed name) := by
  induction names with
  | nil => cases member
  | cons first rest ih =>
    unfold Table.get? at ih ⊢
    rw [List.map_cons, List.lookup_cons]
    by_cases same : name = first
    · simp [same]
    · have later : name ∈ rest := (List.mem_cons.mp member).resolve_left same
      simpa [beq_eq_false_iff_ne.mpr same] using ih later

theorem put_named (nodup : names.Nodup) (member : name ∈ names) :
    Table.put (names.map fun name => (name, needed name)) name value =
      names.map fun other => (other, if other = name then value else needed other) := by
  induction names with
  | nil => cases member
  | cons first rest ih =>
    obtain ⟨fresh, nodup⟩ := List.nodup_cons.mp nodup
    rw [List.map_cons, List.map_cons, Table.put]
    by_cases same : first = name
    · subst same
      have kept : ∀ other ∈ rest, (other, needed other) = (other, if other = first then value else needed other) := by
        intro other inside
        have apart : other ≠ first := fun equal => fresh (equal ▸ inside)
        rw [if_neg apart]
      rw [if_pos rfl, if_pos rfl, List.map_congr_left kept]
    · have later : name ∈ rest := (List.mem_cons.mp member).resolve_left (Ne.symm same)
      rw [if_neg same, if_neg same, ih nodup later]

namespace Holds

theorem note (holds : Holds s names needed listeners) (event : Event) : Holds (s.note event) names needed listeners :=
  ⟨holds.tasks, holds.needs, holds.listeners⟩

theorem has (holds : Holds s names needed listeners) (member : name ∈ names) : s.graph.has name = true := by
  apply mem_tasks_iff.mp
  rw [holds.tasks]
  exact member

theorem free (holds : Holds s names needed listeners) (fresh : name ∉ names) : s.graph.has name = false := by
  rw [← holds.tasks, mem_tasks_iff, Bool.not_eq_true] at fresh
  exact fresh

theorem congr (holds : Holds s names needed listeners) (same : ∀ name ∈ names, needed name = other name) :
    Holds s names other listeners := by
  refine ⟨holds.tasks, ?_, holds.listeners⟩
  rw [holds.needs]
  exact List.map_congr_left fun name member => by rw [same name member]

theorem enter (holds : Holds s names needed listeners) (fresh : name ∉ names) (action : Program σ) :
    Holds (s.enter name action) (names ++ [name]) (fun other => if other = name then [] else needed other)
      listeners := by
  refine ⟨?_, ?_, holds.listeners⟩
  · rw [← holds.tasks]
    exact tasks_enter _ _ _
  · have kept : ∀ other ∈ names, (other, needed other) = (other, if other = name then [] else needed other) := by
      intro other member
      have apart : other ≠ name := fun same => fresh (same ▸ member)
      rw [if_neg apart]
    show s.graph.needs ++ [(name, [])] = _
    rw [holds.needs, List.map_append, List.map_congr_left kept]
    simp

theorem addNeed {before : String} (holds : Holds s names needed listeners) (nodup : names.Nodup)
    (task : name ∈ names) (there : before ∈ names) (nothing : needed name = []) :
    ∃ graph, s.graph.addNeed name before = .ok graph ∧ Holds { s with graph := graph } names
      (fun other => if other = name then [before] else needed other) listeners := by
  have found : needsOf s.graph.needs name = .ok [] := by
    unfold needsOf
    rw [holds.needs, get?_named task, nothing]
  have added : Tasks.addNeed s.graph.needs name before = .ok (s.graph.needs.put name [before]) := by
    simp [Tasks.addNeed, found, bind, Except.bind, pure, Except.pure]
  refine ⟨{ s.graph with needs := s.graph.needs.put name [before] }, ?_, holds.tasks, ?_, holds.listeners⟩
  · simp [Graph.addNeed, holds.has task, holds.has there, added, bind, Except.bind, pure, Except.pure]
  · show s.graph.needs.put name [before] = _
    rw [holds.needs, put_named nodup task]

theorem hooked (callback : Callback σ) (holds : Holds s names needed listeners) (nodup : names.Nodup)
    (task : name ∈ names) (natives : ∀ v ∈ variants, nativeTask v ∈ names) (nothing : needed name = []) :
    ∃ t, executeWith callback (hookListener variants name) s = some (.ok .nothing, t) ∧
      Holds t names (fun other => if other = name then hookNeeds variants name else needed other) listeners := by
  rcases hookNeeds_cases variants name with ⟨v, member, rfl⟩ | noHook
  · obtain ⟨graph, added, after⟩ := holds.addNeed nodup task (natives v member) nothing
    refine ⟨{ s with graph := graph }, ?_, ?_⟩
    · rw [hookListener_hookTask member]
      simp only [executeWith, added, Program.orFail, Program.skip]
    · rw [hookNeeds_hookTask member]
      exact after
  · refine ⟨s, ?_, ?_⟩
    · rw [hookListener_other noHook]
      rfl
    · rw [hookNeeds_other noHook]
      apply holds.congr
      intro other _
      split
      · rename_i same
        rw [same, nothing]
      · rfl

theorem call (callback : Callback σ) (index : Nat) (holds : Holds s names needed listeners) (nodup : names.Nodup)
    (task : name ∈ names) (natives : ∀ v ∈ variants, nativeTask v ∈ names) (nothing : needed name = []) :
    ∃ t, call (executeWith callback) index (hookListener variants) name s = some (none, t) ∧
      Holds t names (fun other => if other = name then hookNeeds variants name else needed other) listeners := by
  obtain ⟨t, told, after⟩ := (holds.note (.called index name)).hooked callback nodup task natives nothing
  refine ⟨t, ?_, after⟩
  unfold Tasks.call
  rw [told]
  rfl

theorem callAll (callback : Callback σ) (index : Nat) (holds : Holds s names needed listeners) (nodup : names.Nodup)
    (distinct : rest.Nodup) (among : ∀ name ∈ rest, name ∈ names)
    (natives : ∀ v ∈ variants, nativeTask v ∈ names) (nothing : ∀ name ∈ rest, needed name = []) :
    ∃ t, callAll (executeWith callback) (rest.map fun name => (index, hookListener variants, name)) s =
        some (none, t) ∧
      Holds t names (fun name => if name ∈ rest then hookNeeds variants name else needed name) listeners := by
  -- Induction on the tasks it has still to be told of.
  induction rest generalizing s needed with
  | nil => exact ⟨s, rfl, by simpa using holds⟩
  | cons first rest ih =>
    obtain ⟨fresh, distinct⟩ := List.nodup_cons.mp distinct
    obtain ⟨m, told, middle⟩ := holds.call callback index nodup
      (among first List.mem_cons_self) natives (nothing first List.mem_cons_self)
    have untold : ∀ name ∈ rest,
        (if name = first then hookNeeds variants first else needed name) = [] := by
      intro name member
      have apart : name ≠ first := fun same => fresh (same ▸ member)
      rw [if_neg apart]
      exact nothing name (List.mem_cons_of_mem _ member)
    obtain ⟨t, later, after⟩ :=
      ih middle distinct (fun name member => among name (List.mem_cons_of_mem _ member)) untold
    refine ⟨t, ?_, ?_⟩
    · rw [List.map_cons, Tasks.callAll, told]
      exact later
    · apply after.congr
      intro name _
      by_cases same : name = first
      · subst same
        simp [fresh]
      · simp [same]

end Holds

def Takes (callback : Callback σ) (known : List String) (needed : String → List String)
    (listeners : List (String → Program σ)) : Prop :=
  ∀ {s names name} action, Holds s names needed listeners → (∀ name ∈ known, name ∈ names) →
    (names ++ [name]).Nodup → ∃ t, register callback name action s = some (none, t) ∧
      Holds t (names ++ [name]) needed listeners

theorem fresh_of_nodup (distinct : (names ++ [name]).Nodup) : name ∉ names := fun member =>
  (List.nodup_append.mp distinct).2.2 name member name (List.mem_singleton_self name) rfl

theorem takes_unheard (callback : Callback σ) : Takes callback [] (fun _ => []) [] := by
  intro s names name action holds _ distinct
  have fresh := fresh_of_nodup distinct
  have entered := holds.enter fresh action
  have nobody : s.graph.registering name = [] := by simp [Graph.registering, holds.listeners]
  refine ⟨(s.enter name action).note (.registered name), ?_, ?_⟩
  · simp [register, holds.free fresh, nobody, callAll]
  · apply (entered.note _).congr
    intro other _
    exact ite_self _

theorem takes_heard : Takes (executeWith callback) (variants.map nativeTask) (hookNeeds variants)
    [hookListener variants] := by
  intro s names name action holds natives distinct
  have fresh := fresh_of_nodup distinct
  have entered := holds.enter fresh action
  have one : s.graph.registering name = [(0, hookListener variants, name)] := by
    simp [Graph.registering, holds.listeners]
  obtain ⟨t, told, after⟩ := entered.call callback 0 distinct (by simp)
    (fun v member => List.mem_append_left _ (natives _ (List.mem_map_of_mem member))) (if_pos rfl)
  refine ⟨t.note (.registered name), ?_, ?_⟩
  · simp [register, holds.free fresh, one, callAll, told]
  · apply (after.note _).congr
    intro other _
    by_cases same : other = name <;> simp [same]

theorem registerAll_takes {known : List String} (tasks : List (String × Program σ)) (next : Program σ)
    (takes : Takes callback known needed listeners)
    (holds : Holds s names needed listeners) (there : ∀ name ∈ known, name ∈ names)
    (distinct : (names ++ tasks.map Prod.fst).Nodup) :
    ∃ t, executeWith callback (registerAll tasks next) s = executeWith callback next t ∧
      Holds t (names ++ tasks.map Prod.fst) needed listeners := by
  induction tasks generalizing s names with
  | nil => exact ⟨s, rfl, by simpa using holds⟩
  | cons task rest ih =>
    obtain ⟨name, action⟩ := task
    have regroup : names ++ ((name, action) :: rest).map Prod.fst = (names ++ [name]) ++ rest.map Prod.fst := by simp
    rw [regroup] at distinct ⊢
    obtain ⟨m, entered, middle⟩ := takes action holds there (List.nodup_append.mp distinct).1
    obtain ⟨t, later, after⟩ :=
      ih middle (fun name member => List.mem_append_left _ (there name member)) distinct
    refine ⟨t, ?_, after⟩
    rw [← later]
    simp [registerAll, executeWith, entered, Program.orFail]

theorem registerNatives_takes (callback : Callback σ) (build : Variant → Program σ)
    (holds : Holds s names (fun _ => []) [])
    (distinct : (names ++ variants.map nativeTask).Nodup) :
    ∃ t, registerNatives callback build variants s = some (none, t) ∧
      Holds t (names ++ variants.map nativeTask) (fun _ => []) [] := by
  induction variants generalizing s names with
  | nil => exact ⟨s, rfl, by simpa using holds⟩
  | cons v others ih =>
    have regroup : names ++ (v :: others).map nativeTask = (names ++ [nativeTask v]) ++ others.map nativeTask := by simp
    rw [regroup] at distinct ⊢
    obtain ⟨m, entered, middle⟩ := takes_unheard callback (build v) holds (by simp)
      (List.nodup_append.mp distinct).1
    obtain ⟨t, later, after⟩ := ih middle distinct
    refine ⟨t, ?_, after⟩
    rw [registerNatives, entered]
    exact later

theorem Holds.install (holds : Holds s names needed []) (listener : String → Program σ) :
    Holds (s.install listener) names needed [listener] := by
  refine ⟨holds.tasks, holds.needs, ?_⟩
  show s.graph.listeners ++ [listener] = [listener]
  rw [holds.listeners]
  rfl

theorem Holds.edges (holds : Holds s names (hookNeeds variants) listeners) :
    s.graph.edges = hookEdges variants names := by
  unfold Graph.edges Tasks.edges hookEdges
  rw [holds.needs, List.flatMap_map]

theorem hookEdges_native : hookEdges variants (variants.map nativeTask) = [] := by
  unfold hookEdges
  rw [List.flatMap_map]
  simp [hookNeeds_native]

theorem hookEdges_append : hookEdges variants (names ++ rest) = hookEdges variants names ++ hookEdges variants rest :=
  List.flatMap_append

theorem nativeEdges_hookEdges : nativeEdges variants (hookEdges variants names) = hookEdges variants names := by
  refine List.filter_eq_self.mpr fun edge member => ?_
  obtain ⟨name, _, inside⟩ := List.mem_flatMap.mp member
  obtain ⟨before, need, rfl⟩ := List.mem_map.mp inside
  rcases hookNeeds_cases variants name with ⟨v, wired, rfl⟩ | noHook
  · rw [hookNeeds_hookTask wired, List.mem_singleton] at need
    subst need
    exact decide_eq_true (List.mem_map_of_mem wired)
  · rw [hookNeeds_other noHook] at need
    cases need

theorem wireIn_holds (callback : Callback σ) (build : Variant → Program σ) (holds : Holds s names (fun _ => []) [])
    (distinct : (names ++ variants.map nativeTask).Nodup) :
    ∃ t, wireIn (executeWith callback) variants build s = some (.ok (.edges (hookEdges variants names)), t) ∧
      Holds t (names ++ variants.map nativeTask) (hookNeeds variants) [hookListener variants] := by
  obtain ⟨m, natives, middle⟩ := registerNatives_takes (executeWith callback) build holds distinct
  have installed := middle.install (hookListener variants)
  obtain ⟨t, told, after⟩ := installed.callAll callback 0 distinct distinct
    (fun _ member => member) (fun v member => List.mem_append_right _ (List.mem_map_of_mem member)) (fun _ _ => rfl)
  have all : Holds t (names ++ variants.map nativeTask) (hookNeeds variants) [hookListener variants] :=
    after.congr fun name member => if_pos member
  refine ⟨t.note (.wired variants), ?_, all.note _⟩
  have added : whenAdded (executeWith callback) (hookListener variants) m = some (none, t) := by
    unfold whenAdded Graph.installing
    rw [middle.tasks, middle.listeners]
    exact told
  have answer : nativeEdges variants t.graph.edges = hookEdges variants names := by
    rw [all.edges, nativeEdges_hookEdges, hookEdges_append, hookEdges_native, List.append_nil]
  simp [wireIn, natives, added, answer]

-- The edges are those of the names alone, so that they are the same wherever the wiring stands among them.
theorem wiring_position_free (variants : List Variant) (build : Variant → Program σ)
    (before after : List (String × Program σ)) (world : σ) (depth : Nat) (once : variants.Nodup)
    (distinct : ((before ++ after).map Prod.fst).Nodup)
    (free : ∀ v, nativeTask v ∉ (before ++ after).map Prod.fst) :
    ∃ s, execute (depth + 1) (wiredAmid variants build before after) (.start world) =
        some (.ok (.edges (hookEdges variants (before.map Prod.fst))), s) ∧
      s.graph.tasks = before.map Prod.fst ++ variants.map nativeTask ++ after.map Prod.fst ∧
      s.graph.edges = hookEdges variants ((before ++ after).map Prod.fst) ∧
      (∀ v ∈ variants, hookTask v ∈ (before ++ after).map Prod.fst →
        s.graph.needs.get? (hookTask v) = some [nativeTask v]) ∧
      ∀ name ∈ s.graph.tasks, (∀ v ∈ variants, name ≠ hookTask v) → s.graph.needs.get? name = some [] := by
  have empty : Holds (.start world : Session σ) [] (fun _ => []) [] := ⟨rfl, rfl, rfl⟩
  have natives : (variants.map nativeTask).Nodup := once.map fun _ _ => nativeTask_injective
  rw [List.map_append] at distinct free ⊢
  have whole : (before.map Prod.fst ++ variants.map nativeTask ++ after.map Prod.fst).Nodup := by
    rw [List.append_assoc, (List.perm_append_comm_assoc _ _ _).nodup_iff]
    refine List.nodup_append.mpr ⟨natives, distinct, ?_⟩
    intro native among name member same
    obtain ⟨v, _, rfl⟩ := List.mem_map.mp among
    exact free v (same ▸ member)
  -- The registrations before the wiring, the wiring, and the registrations after it.
  obtain ⟨r, first, early⟩ := registerAll_takes before
    (.wire variants build fun
      | .ok answer => registerAll after (.done answer)
      | .error cause => .fail cause) (takes_unheard (execute depth)) empty (by simp)
    (List.nodup_append.mp distinct).1
  rw [execute_eq depth] at first
  obtain ⟨m, wired, middle⟩ := wireIn_holds (nested depth) build early
    (List.nodup_append.mp whole).1
  obtain ⟨s, later, late⟩ := registerAll_takes after
    (.done (.edges (hookEdges variants (before.map Prod.fst)))) takes_heard middle
    (fun name member => List.mem_append_right _ member) whole
  have edges : hookEdges variants ([] ++ before.map Prod.fst ++ variants.map nativeTask ++ after.map Prod.fst) =
      hookEdges variants (before.map Prod.fst ++ after.map Prod.fst) := by
    simp [hookEdges_append, hookEdges_native]
  have needs : ∀ name ∈ s.graph.tasks, s.graph.needs.get? name = some (hookNeeds variants name) := by
    intro name member
    rw [late.tasks] at member
    rw [late.needs]
    exact get?_named member
  refine ⟨s, ?_, late.tasks, late.edges.trans edges, ?_, ?_⟩
  · show executeWith (execute depth) _ _ = _
    rw [wiredAmid, execute_eq depth, first]
    simp only [executeWith, wired, Option.bind_some]
    exact later
  · intro v member present
    rw [needs _ (by rw [late.tasks]; simp only [List.mem_append] at present ⊢; tauto), hookNeeds_hookTask member]
  · intro name member noHook
    rw [needs name member, hookNeeds_other noHook]

def tasksBefore : List (String × Program Unit) :=
  [("javaPreCompileRelease", .skip), ("assemble", .skip), ("javaPreCompilerelease", .skip)]

def tasksAfter : List (String × Program Unit) :=
  [("javaPreCompileDebug", .skip), ("javaPreCompileStaging", .skip), ("javaPreCompileDebugLint", .skip)]

theorem hooks_around_wiring_wired : ∃ s,
    execute 1 (wiredAmid [.release, .debug] (fun _ => .skip) tasksBefore tasksAfter) (.start ()) =
      some (.ok (.edges [⟨"buildCargoNdkRelease", "javaPreCompileRelease"⟩]), s) ∧
    s.graph.edges = [⟨"buildCargoNdkRelease", "javaPreCompileRelease"⟩,
      ⟨"buildCargoNdkDebug", "javaPreCompileDebug"⟩] := by
  have once : [Variant.release, .debug].Nodup := by decide
  have distinct : ((tasksBefore ++ tasksAfter).map Prod.fst).Nodup := by decide
  have free : ∀ v, nativeTask v ∉ (tasksBefore ++ tasksAfter).map Prod.fst := by
    intro v
    cases v <;> decide
  obtain ⟨s, ran, _, edges, _⟩ := wiring_position_free _ (fun _ => .skip) tasksBefore tasksAfter () 0 once distinct free
  have answered : hookEdges [.release, .debug] (tasksBefore.map Prod.fst) =
      [⟨"buildCargoNdkRelease", "javaPreCompileRelease"⟩] := by decide
  have drawn : hookEdges [.release, .debug] ((tasksBefore ++ tasksAfter).map Prod.fst) =
      [⟨"buildCargoNdkRelease", "javaPreCompileRelease"⟩, ⟨"buildCargoNdkDebug", "javaPreCompileDebug"⟩] := by decide
  exact ⟨s, answered ▸ ran, drawn ▸ edges⟩

end AbiBuild.Tasks
