import AbiBuild.Proofs.Build.Accounts
import AbiBuild.Proofs.Build.Firmness
import AbiBuild.Proofs.Build.Schedules
import AbiBuild.Proofs.Text.Encoding

namespace AbiBuild.Build
open AbiBuild.Text FileTree

-- A build that nobody has begun, perhaps called off already.
def Workshop.opening (t : FileTree) (called : Bool) : Workshop := { Workshop.opened t with cancelled := called }

-- A run of an invocation, move by move, up to some pool.
structure Builder.Runs (b : Builder) (compiler : Compiler) (variant : Value) (w : Workshop)
    (plan : Builder.Plan) (moves : List Move) (last : Pool) : Prop where
  planned : b.plan w.tree variant = .ok plan
  workable : b.checkWorkers = .ok ()
  reached : Pool.Reaches compiler (b.workerCount plan.jobs) (Pool.start plan.jobs (w.noting plan.notices))
    moves last

-- No links below the target directory, text in the markers, file names that fit, calls that can be passed on, and
-- processes that say text and leave other architectures' markers alone.
structure Builder.Fit (b : Builder) (compiler : Compiler) (variant : Value) (t : FileTree) : Prop where
  resolved : ∃ s base data, Config.resolve s base data = .ok b.config
  wellFormed : t.WellFormed
  clear : ∀ l, LeadsTo t b.config.targetDir l → Clear t l
  noNul : b.config.targetDir.hasNul = false
  nameable : ∀ library ∈ b.config.libraries, Nameable [library]
  legible : ∀ j ∈ b.planned t variant, Legible j.marker t
  harmless : ∀ j ∈ b.planned t variant, j.Harmless compiler (b.planned t variant) t
  understood : ∀ j ∈ b.planned t variant, j.Understood compiler

def Pool.Succeeds (compiler : Compiler) (p : Pool) (moves : List Move) (j : Job) : Prop :=
  ∃ process w, compiler j.command = .started process ∧ process.status = 0 ∧
    p.Leaves compiler moves j (.exited process) w

-- What an invocation comes to that is over.
structure Settled (compiler : Compiler) (jobs : List Job) (start : Pool) (moves : List Move)
    (w : Workshop) (i : Invocation) : Prop where
  architectures : i.architectures = jobs.map Job.abi
  pending : i.pending = []
  results : i.results.map Compilation.abi = i.architectures
  asked : ∃ begun : List Job, begun.Sublist jobs ∧ w.calls.Perm (begun.map Job.call)
  ends : ∀ j ∈ jobs, ∃ result, i.result? j.abi = some result ∧ j.Ends compiler w.cancelled result ∧
    (result.ok = true ↔ start.Succeeds compiler moves j)
  reasons : ∀ result ∈ i.failures, isBlankText result.diagnostic = false
  uncalled : start.workshop.cancelled = false → .cancel ∉ moves → (∀ j ∈ jobs, j.Uncalled compiler) →
    w.cancelled = false

variable {b : Builder} {compiler : Compiler} {variant : Value} {t : FileTree} {early : Bool}
  {plan : Builder.Plan} {moves : List Move} {last : Pool} {w : Workshop} {jobs : List Job} {j : Job}
  {i : Invocation} {l : Location}

theorem planned_jobs (planned : b.plan t variant = .ok plan) : b.planned t variant = plan.jobs := by
  unfold Builder.planned
  rw [planned]

theorem plan_architectures (planned : b.plan t variant = .ok plan) :
    plan.invocation.architectures = plan.jobs.map Job.abi := by
  obtain ⟨v, p, architectures, cargo, ndk, _, _, _, _, start, same⟩ := plan_parts planned
  rw [start, same, List.map_map]
  exact (List.map_id'' (fun _ => rfl) architectures).symm

theorem runs_firm (fit : b.Fit compiler variant t) (runs : b.Runs compiler variant (.opening t early) plan moves last) :
    ∃ l, Hosts t b.config.targetDir l ∧ Sound plan.jobs (fun w => Steady t w.tree)
      (fun j phase w => Firm j compiler b.config.targetDir l w.cancelled w.tree phase) last := by
  obtain ⟨_, _, _, resolved⟩ := fit.resolved
  have accepted := Config.resolve_accepted resolved
  have planned : b.plan t variant = .ok plan := runs.planned
  have homed := plan_homed accepted planned
  have legible := fit.legible
  have harmless := fit.harmless
  have understood := fit.understood
  rw [planned_jobs planned] at legible harmless understood
  obtain ⟨l, hosts⟩ := exists_hosts fit.clear
  have nameable : ∀ j ∈ plan.jobs, ∀ library ∈ j.libraries, Nameable [library] := by
    intro j member library configured
    rw [(homed j member).2] at configured
    exact fit.nameable library configured
  have compatible := firm_compatible accepted.target hosts (fun j member => (homed j member).1) fit.noNul
    nameable harmless understood
  refine ⟨l, hosts, reaches_sound compatible (plan_distinct planned) ?_ runs.reached⟩
  exact start_sound (Steady.refl fit.wellFormed) legible

theorem sound_ended (sound : Sound jobs (fun w => Steady t w.tree)
      (fun j phase w => Firm j compiler b.config.targetDir l w.cancelled w.tree phase) last)
    (finished : last.isOver = true) (s : Job × Phase) (member : s ∈ last.jobs) : ∃ result, s.2 = .ended result ∧
      s.1.Ends compiler last.workshop.cancelled result ∧ (result.ok = false → result.status.isSome = true →
        Guarded s.1 b.config.targetDir l last.workshop.tree) := by
  obtain ⟨k, phase⟩ := s
  have done := List.all_eq_true.mp finished _ member
  have firm := sound.own _ member
  cases phase with
  | ended result => exact ⟨result, rfl, firm.1, firm.2⟩
  | broken cause => exact firm.elim
  | _ => cases done

theorem results_whole {i : Invocation}
    (found : ∀ abi ∈ i.architectures, ∃ result, i.result? abi = some result ∧ result.abi = abi) :
    i.pending = [] ∧ i.results.map Compilation.abi = i.architectures := by
  constructor
  · refine List.filter_eq_nil_iff.mpr fun abi member => ?_
    obtain ⟨result, own, _⟩ := found abi member
    simp [own]
  · unfold Invocation.results
    generalize i.architectures = architectures at found
    induction architectures with
    | nil => rfl
    | cons abi rest ih =>
      obtain ⟨result, own, same⟩ := found abi (by simp)
      rw [List.filterMap_cons, own]
      simp only [List.map_cons, same]
      rw [ih fun other member => found other (List.mem_cons_of_mem _ member)]

theorem calls_sublist {calls : List Call} (distinct : (jobs.map Job.abi).Nodup)
    (apart : ∀ j ∈ jobs, ∀ k ∈ jobs, j.call = k.call → j.abi = k.abi) (nodup : calls.Nodup)
    (known : ∀ c ∈ calls, ∃ j ∈ jobs, c = j.call) :
    ∃ begun : List Job, begun.Sublist jobs ∧ calls.Perm (begun.map Job.call) := by
  refine ⟨jobs.filter fun j => decide (j.call ∈ calls), List.filter_sublist, ?_⟩
  have single : ((jobs.filter fun j => decide (j.call ∈ calls)).map Job.call).Nodup := by
    refine List.Nodup.map_on (fun j first k second equal => ?_)
      ((List.Nodup.of_map _ distinct).sublist List.filter_sublist)
    have same := apart j (List.mem_filter.mp first).1 k (List.mem_filter.mp second).1 equal
    exact List.inj_on_of_nodup_map distinct (List.mem_filter.mp first).1 (List.mem_filter.mp second).1 same
  refine (List.perm_ext_iff_of_nodup nodup single).mpr fun c => ⟨fun placed => ?_, fun placed => ?_⟩
  · obtain ⟨j, member, rfl⟩ := known c placed
    exact List.mem_map_of_mem (List.mem_filter.mpr ⟨member, by simpa using placed⟩)
  · obtain ⟨j, inside, rfl⟩ := List.mem_map.mp placed
    simpa using (List.mem_filter.mp inside).2

theorem invoke_calm (planned : b.plan w.tree variant = .ok plan) (workable : b.checkWorkers = .ok ()) :
    ∃ last, Pool.Calm compiler (b.workerCount plan.jobs) (Pool.start plan.jobs (w.noting plan.notices)) last ∧
      last.isOver = true ∧
      b.invoke compiler variant w =
        (Pool.gather plan.invocation (last.jobs.map Prod.snd), last.workshop) := by
  refine ⟨_, inOrder_calm workable plan.jobs (w.noting plan.notices), inOrder_isOver compiler _ _ _, ?_⟩
  rw [zip_snd (inOrder_over compiler _ _).1]
  exact invoke_ran _ planned workable

theorem invoke_runs (planned : b.plan w.tree variant = .ok plan) (workable : b.checkWorkers = .ok ()) :
    ∃ moves last, b.Runs compiler variant w plan moves last ∧ last.isOver = true ∧
      b.invoke compiler variant w =
        (Pool.gather plan.invocation (last.jobs.map Prod.snd), last.workshop) := by
  obtain ⟨last, calm, finished, same⟩ := @invoke_calm b compiler variant plan w planned workable
  obtain ⟨moves, reached⟩ := calm.reaches
  exact ⟨moves, last, ⟨planned, workable, reached⟩, finished, same⟩

-- A run can always go on until it is over, and it is over after so many steps.
theorem runs_progress (fit : b.Fit compiler variant t)
    (runs : b.Runs compiler variant (.opening t early) plan moves last) :
    (last.isOver = false → ∃ index, last.mayAdvance (b.workerCount plan.jobs) index = true) ∧
    moves.countP Move.isAdvance ≤ (Pool.start plan.jobs (.opening t early)).ahead compiler := by
  obtain ⟨l, hosts, sound⟩ := runs_firm fit runs
  refine ⟨fun notOver => ?_, ?_⟩
  · have some_ : plan.jobs ≠ [] := by
      intro none_
      have idle := sound.jobs
      rw [none_, List.map_eq_nil_iff] at idle
      simp [Pool.isOver, idle] at notOver
    exact mayAdvance_some (workerCount_pos runs.workable some_) notOver
  · have bounded := reaches_bounded runs.reached
    have same : (Pool.start plan.jobs ((Workshop.opening t early).noting plan.notices)).ahead compiler =
        (Pool.start plan.jobs (.opening t early)).ahead compiler := rfl
    omega

theorem runs_settle (fit : b.Fit compiler variant t)
    (runs : b.Runs compiler variant (.opening t early) plan moves last) (finished : last.isOver = true) :
    ∃ i, Pool.gather plan.invocation (last.jobs.map Prod.snd) = .ok i ∧
      Settled compiler plan.jobs (Pool.start plan.jobs ((Workshop.opening t early).noting plan.notices)) moves
        last.workshop i ∧
      ∀ j ∈ plan.jobs, ∃ result, (j, .ended result) ∈ last.jobs ∧ i.result? j.abi = some result := by
  have planned : b.plan t variant = .ok plan := runs.planned
  have distinct := plan_distinct planned
  have calls := plan_calls planned
  obtain ⟨l, hosts, sound⟩ := runs_firm fit runs
  have ended := sound_ended sound finished
  have abis : last.jobs.map (fun s => s.1.abi) = plan.jobs.map Job.abi := by
    rw [← sound.jobs, List.map_map]
    rfl
  obtain ⟨i, gathered, architectures, found⟩ := @gather_ended last.jobs plan.invocation (abis ▸ distinct)
    fun s member => by
      obtain ⟨result, own, ends, _⟩ := ended s member
      exact ⟨result, own, ends.abi⟩
  rw [plan_architectures planned] at architectures
  have own : ∀ j ∈ plan.jobs, ∃ result, (j, .ended result) ∈ last.jobs ∧ i.result? j.abi = some result ∧
      j.Ends compiler last.workshop.cancelled result := by
    intro j member
    rw [← sound.jobs] at member
    obtain ⟨⟨k, phase⟩, inside, rfl⟩ := List.mem_map.mp member
    obtain ⟨result, rfl, ends, _⟩ := ended _ inside
    exact ⟨result, inside, found k result inside, ends⟩
  have whole : ∀ abi ∈ i.architectures, ∃ result, i.result? abi = some result ∧ result.abi = abi := by
    intro abi member
    rw [architectures] at member
    obtain ⟨j, inside, rfl⟩ := List.mem_map.mp member
    obtain ⟨result, _, recorded, ends⟩ := own j inside
    exact ⟨result, recorded, ends.abi⟩
  obtain ⟨nodup, known, _⟩ := reaches_calls distinct calls rfl runs.reached
  refine ⟨i, gathered, ⟨architectures, (results_whole whole).1, (results_whole whole).2,
    calls_sublist distinct calls nodup known, fun j member => ?_, fun result member => ?_,
    fun calm never uncalled => reaches_uncalled distinct uncalled never calm runs.reached⟩, fun j member => ?_⟩
  · obtain ⟨result, inside, recorded, ends⟩ := own j member
    refine ⟨result, recorded, ends, fun good => ?_, ?_⟩
    · exact built_exited distinct runs.reached inside good
    · rintro ⟨process, v, _, exit, leaves⟩
      rcases exited_built distinct runs.reached exit leaves inside rfl with ⟨cause, broken⟩ | ⟨other, same, good⟩
      · cases broken
      · cases same
        exact good
  · obtain ⟨listed, lost⟩ := List.mem_filter.mp member
    obtain ⟨abi, inside, recorded⟩ := List.mem_filterMap.mp listed
    rw [architectures] at inside
    obtain ⟨j, present, rfl⟩ := List.mem_map.mp inside
    obtain ⟨other, _, known, ends⟩ := own j present
    have same := Option.some.inj (known.symm.trans recorded)
    subst same
    exact ends.reason (by simpa using lost)
  · obtain ⟨result, inside, recorded, _⟩ := own j member
    exact ⟨result, inside, recorded⟩

theorem invocation_settles (fit : b.Fit compiler variant t)
    (runs : b.Runs compiler variant (.opening t early) plan moves last) :
    (last.isOver = false → ∃ index, last.mayAdvance (b.workerCount plan.jobs) index = true) ∧
    moves.countP Move.isAdvance ≤ (Pool.start plan.jobs (.opening t early)).ahead compiler ∧
    (last.isOver = true → ∃ i, Pool.gather plan.invocation (last.jobs.map Prod.snd) = .ok i ∧
      Settled compiler plan.jobs (Pool.start plan.jobs ((Workshop.opening t early).noting plan.notices)) moves
        last.workshop i) := by
  obtain ⟨progress, bounded⟩ := runs_progress fit runs
  refine ⟨progress, bounded, fun finished => ?_⟩
  obtain ⟨i, gathered, settled, _⟩ := runs_settle fit runs finished
  exact ⟨i, gathered, settled⟩

theorem legible_of_entries {path : FilePath} (readable : ∀ e ∈ t.entries, ∀ content executable,
    e.2 = .file content executable → ∃ text, readText content = .ok text) : Legible path t := by
  intro m content executable _ there
  unfold node? at there
  split at there
  · cases there
  · obtain ⟨e, found, same⟩ := Option.map_eq_some_iff.mp there
    exact readable e (List.mem_of_find?_eq_some found) content executable same

theorem behaviours_harmless {behaviour : String → Behaviour}
    (texts : ∀ triple, ∀ item ∈ (behaviour triple).libraries, Plain item.1 ∧
      ∃ content executable, item.2 = .file content executable ∧ ∃ text, readText content = .ok text)
    (absolute : j.command.outputDir.root ≠ .relative) : j.Harmless (.ofBehaviours behaviour) jobs t := by
  intro process started item member
  rw [ofBehaviours_started started, behaviour_items] at member
  obtain ⟨⟨name, node⟩, listed, rfl⟩ := List.mem_map.mp member
  obtain ⟨plain, content, executable, rfl, text⟩ := texts _ _ listed
  simp only [FilePath.child_plain plain]
  refine ⟨⟨absolute, by simp⟩, fun k _ _ m content executable _ _ same => ?_⟩
  cases same
  exact text

theorem behaviours_understood {behaviour : String → Behaviour} (fit : j.call.fault? = none) :
    j.Understood (.ofBehaviours behaviour) := by
  refine ⟨fit, fun process started => ?_, fun process started => ?_⟩
  · rw [ofBehaviours_started started]
    exact ⟨_, readText_encode _⟩
  · rw [ofBehaviours_started started]
    unfold Process.stopped Behaviour.process
    cases (behaviour j.command.triple).ignoresTerm <;> exact ⟨"", rfl⟩

theorem behaviours_fit {behaviour : String → Behaviour}
    (resolved : ∃ s base data, Config.resolve s base data = .ok b.config) (wellFormed : t.WellFormed)
    (clear : ∀ l, Clear t l) (noNul : b.config.targetDir.hasNul = false)
    (nameable : ∀ library ∈ b.config.libraries, Nameable [library])
    (readable : ∀ e ∈ t.entries, (match e.2 with
      | .file content _ => (readText content).toOption.isSome
      | _ => true) = true)
    (texts : ∀ triple, ∀ item ∈ (behaviour triple).libraries, Plain item.1 ∧
      ∃ content executable, item.2 = .file content executable ∧ ∃ text, readText content = .ok text)
    (absolute : ∀ j ∈ b.planned t variant, j.command.outputDir.root ≠ .relative)
    (fit : ∀ j ∈ b.planned t variant, j.call.fault? = none) :
    b.Fit (.ofBehaviours behaviour) variant t := by
  refine ⟨resolved, wellFormed, fun l _ => clear l, noNul, nameable, fun j _ => ?_,
    fun j member => behaviours_harmless texts (absolute j member),
    fun j member => behaviours_understood (fit j member)⟩
  refine legible_of_entries fun e member content executable same => ?_
  have own := readable e member
  rw [same] at own
  obtain ⟨text, found⟩ := Option.isSome_iff_exists.mp own
  exact ⟨text, ok_of_toOption found⟩

theorem sample_nameable : ∀ library ∈ Sample.config.libraries, Nameable [library] := by
  intro library member
  rw [List.mem_singleton.mp member]
  exact ⟨by decide, by decide⟩

theorem sampleBehaviour_text {content : Bytes} {exit : Int} (text : ∃ text, readText content = .ok text) :
    ∀ item ∈ (sampleBehaviour content exit).libraries, Plain item.1 ∧
      ∃ content executable, item.2 = .file content executable ∧ ∃ text, readText content = .ok text := by
  intro item member
  have plain : Plain "liba.so" := by decide
  rw [List.mem_singleton.mp member]
  exact ⟨plain, content, false, rfl, text⟩

-- For one architecture the marker is there with something in it that no build writes, for the other one there
-- is a file where its directory should be.
def Sample.littered : FileTree := ⟨[], Sample.tree.entries ++ [
  (["t"], .directory),
  (["t", "arm64-v8a"], .directory),
  (["t", "arm64-v8a", Config.markerName], .file (encode "?") false),
  (["t", "x86"], .file [] false)]⟩

theorem littered_fit : sampleBuilder.Fit (sampleCompiler 1 0) (.text "debug") Sample.littered :=
  behaviours_fit ⟨_, _, _, Sample.resolved⟩ (WellFormed.of_entries (by decide +kernel))
    (fun l => Clear.of_entries (by decide +kernel)) (by decide) sample_nameable (by decide +kernel)
    (fun _ => sampleBehaviour_text ⟨_, rfl⟩) (by decide +kernel) (by decide +kernel)

theorem littered_directory_settles : ∃ i,
    (sampleBuilder.invoke (sampleCompiler 1 0) (.text "debug") (.opened Sample.littered)).1 = .ok i ∧
      i.pending = [] ∧ (i.result? .arm64).map Compilation.ok = some true ∧
      (i.result? .x86).map Compilation.diagnostic = some "cannot prepare /t/x86: [Errno 17] File exists: '/t/x86'" := by
  have works : (sampleBuilder.plan Sample.littered (.text "debug")).toOption.isSome = true := by decide +kernel
  obtain ⟨plan, found⟩ := Option.isSome_iff_exists.mp works
  have planned : sampleBuilder.plan (Workshop.opening Sample.littered false).tree (.text "debug") = .ok plan :=
    ok_of_toOption found
  have workable : sampleBuilder.checkWorkers = .ok () := rfl
  obtain ⟨moves, last, runs, finished, same⟩ := @invoke_runs _ (sampleCompiler 1 0) _ _ _ planned workable
  obtain ⟨i, gathered, settled⟩ := (invocation_settles littered_fit runs).2.2 finished
  have outcome : (sampleBuilder.invoke (sampleCompiler 1 0) (.text "debug") (.opened Sample.littered)).1 = .ok i := by
    have whole := congrArg Prod.fst same
    exact whole.trans gathered
  have facts : (sampleBuilder.invoke (sampleCompiler 1 0) (.text "debug")
      (.opened Sample.littered)).1.toOption.map (fun i => ((i.result? .arm64).map Compilation.ok,
        (i.result? .x86).map Compilation.diagnostic)) = some (some true,
          some "cannot prepare /t/x86: [Errno 17] File exists: '/t/x86'") := by decide +kernel
  rw [outcome] at facts
  obtain ⟨built, failed⟩ := Prod.mk.inj (Option.some.inj facts)
  exact ⟨i, outcome, settled.pending, built, failed⟩

-- All is settled beforehand, and yet no invocation comes of it.
def Builder.Raises (b : Builder) (compiler : Compiler) (variant : Value) (t : FileTree) : Prop :=
  (∃ plan, b.plan t variant = .ok plan) ∧ b.checkWorkers = .ok () ∧
    ∃ cause, (b.invoke compiler variant (.opened t)).1 = .error cause

theorem raises_of_none (planned : (b.plan t variant).toOption.isSome = true)
    (workable : b.checkWorkers.toOption.isSome = true)
    (none_ : (b.invoke compiler variant (.opened t)).1.toOption.isNone = true) :
    b.Raises compiler variant t := by
  obtain ⟨plan, found⟩ := Option.isSome_iff_exists.mp planned
  obtain ⟨done, fine⟩ := Option.isSome_iff_exists.mp workable
  refine ⟨⟨plan, ok_of_toOption found⟩, ok_of_toOption fine, ?_⟩
  cases outcome : (b.invoke compiler variant (.opened t)).1 with
  | error cause => exact ⟨cause, rfl⟩
  | ok i => simp [outcome, Except.toOption] at none_

def Sample.garbled : FileTree := ⟨[], Sample.tree.entries ++ [
  (["t"], .directory),
  (["t", "x86"], .directory),
  (["t", "x86", Config.markerName], .file [0xFF] false)]⟩

-- While an architecture is prepared, what is no refusal of the system is not caught.
theorem garbled_marker_raises :
    (∃ data, Config.resolve Sample.garbled none data = .ok sampleBuilder.config) ∧
      sampleBuilder.Raises (sampleCompiler 1 0) (.text "debug") Sample.garbled := by
  refine ⟨⟨Sample.settings, ok_of_toOption (by decide +kernel)⟩, ?_⟩
  exact raises_of_none (by decide +kernel) rfl (by decide +kernel)

end AbiBuild.Build
