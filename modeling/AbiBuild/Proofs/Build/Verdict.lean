import AbiBuild.Proofs.Build.Cancellation
import AbiBuild.Proofs.Build.Yield

namespace AbiBuild.Build
open AbiBuild.Text FileTree

-- What a job comes to that has been prepared, if nobody calls the build off.
def Job.verdict (j : Job) (compiler : Compiler) : Phase :=
  match compiler j.command with
  | .refused reason => .ended (j.failed s!"cannot run {j.cargo}: {reason}" none (.zero false))
  | .started process =>
    match process.own.said with
    | .error cause => .broken (.mishap (.file (.notText cause)))
    | .ok text =>
      if process.status ≠ 0 then
        .ended (j.failed (Job.diagnostic text process.status) (some process.status) process.seconds)
      else
        match j.yield process with
        | .error fault => .broken (.mishap (.file fault))
        | .ok artifacts => .ended (j.built artifacts process.seconds)

-- A job is called off only where the build is; once it has asked for its process it comes to its verdict.
structure Judged (j : Job) (compiler : Compiler) (phase : Phase) (w : Workshop) : Prop where
  early : stage phase < 6 → j.call ∉ w.calls
  stopping : ∀ process, phase = .stopping process → w.cancelled = true
  unbegun : phase = .ended j.unbegun → w.cancelled = true
  final : phase.isOver = true → j.call ∈ w.calls → w.cancelled = false → phase = j.verdict compiler

-- What is known of every job, whatever the schedule.
def Judging (compiler : Compiler) (root : FilePath) (l : Location) (j : Job) (phase : Phase) (w : Workshop) : Prop :=
  ((j.Started compiler phase ∧ Housed root w.tree phase) ∧ Tracked j compiler root l w.tree phase) ∧
    Judged j compiler phase w

-- A job's process was asked for, so its directory had been prepared; or the job was called off before it began.
def Pool.Prepared (p : Pool) : Prop :=
  ∀ s ∈ p.jobs, s.1.call ∈ p.workshop.calls ∨ s.2 = .ended s.1.unbegun

-- The result comes from the architecture's own process, which ran to its end: its libraries are the configured
-- ones that this process wrote, in their order, and the marker is gone.
structure Backed (compiler : Compiler) (start : Pool) (moves : List Move) (w : Workshop) (j : Job)
    (result : Compilation) (process : Process) : Prop where
  answer : compiler j.command = .started process
  exit : process.status = 0
  ran : ∃ v, start.Leaves compiler moves j (.exited process) v
  artifacts : result = j.built (j.produced process) process.seconds
  unmarked : w.tree.exists? j.marker = .ok false

-- A configuration that was read, below whose target directory there are no links, and processes that write files
-- alone, each in its own architecture's directory.
structure Builder.Orderly (b : Builder) (compiler : Compiler) (variant : Value) (t : FileTree) : Prop where
  resolved : ∃ s base data, Config.resolve s base data = .ok b.config
  wellFormed : t.WellFormed
  clear : ∀ l, LeadsTo t b.config.targetDir l → Clear t l
  orderly : ∀ j ∈ b.planned t variant, j.Orderly compiler

-- What a build may come to that prepares every architecture it begins and that nobody calls off.
inductive Builder.Concludes (b : Builder) (compiler : Compiler) (variant : Value) (t : FileTree) :
    Except Failure Invocation → Prop
  | ran {count : Nat} {plan : Builder.Plan} {last : Pool} (planned : b.plan t variant = .ok plan)
      (workable : b.checkWorkers = .ok ())
      (run : Pool.Calm compiler count (Pool.start plan.jobs ((Workshop.opened t).noting plan.notices)) last)
      (finished : last.isOver = true) (prepared : last.Prepared) :
      Concludes b compiler variant t (Pool.gather plan.invocation (last.jobs.map Prod.snd))

variable {b : Builder} {compiler : Compiler} {variant : Value} {t u : FileTree} {root : FilePath} {l : Location}
  {j k : Job} {jobs : List Job} {phase next : Phase} {w v : Workshop} {p last : Pool} {moves : List Move}
  {workers count : Nat} {plan other : Builder.Plan} {process : Process} {result : Compilation} {i : Invocation}
  {outcome : Except Failure Invocation}

theorem step_stopping (stops : (j.step compiler phase w).1 = .stopping process) :
    (j.step compiler phase w).2.cancelled = true := by
  have acts := step_acts j compiler phase w
  rw [stops] at acts
  obtain ⟨polls, rfl⟩ := acts_stopping acts
  simp only [Job.step, Job.poll] at stops ⊢
  split at stops
  case isTrue more =>
    split at stops
    case isTrue off =>
      simp only [if_pos more, off]
      rfl
    case isFalse => cases stops
  case isFalse => cases stops

theorem step_verdict (wellFormed : w.tree.WellFormed) (hosts : Hosts w.tree root l) (homed : j.Homed root)
    (started : j.Started compiler phase) (tracked : Tracked j compiler root l w.tree phase)
    (judged : Judged j compiler phase w) (finished : (j.step compiler phase w).1.isOver = true)
    (asked : j.call ∈ (j.step compiler phase w).2.calls) (calm : w.cancelled = false) :
    (j.step compiler phase w).1 = j.verdict compiler := by
  have unasked : stage phase < 6 → j.callsIn phase = [] → (j.step compiler phase w).1 = j.verdict compiler := by
    intro early none_
    rw [(step_beside j compiler phase w).calls, none_, List.append_nil] at asked
    exact absurd asked (judged.early early)
  cases phase with
  | ready => exact unasked (by simp [stage]) rfl
  | discarding => exact unasked (by simp [stage]) rfl
  | makingHome => exact unasked (by simp [stage]) rfl
  | clearing => exact unasked (by simp [stage]) rfl
  | marking => exact unasked (by simp [stage]) rfl
  | starting =>
    simp only [Job.step] at finished asked ⊢
    generalize taken : j.launch compiler w = r at finished asked ⊢
    cases launches taken with
    | unfit => exact absurd asked (judged.early (by simp [stage]))
    | refused _ answer => simp [Job.verdict, answer]
    | started => cases finished
  | running process polls =>
    simp only [Job.step, Job.poll] at finished
    split at finished
    · split at finished <;> cases finished
    · cases finished
  | stopping process =>
    rw [judged.stopping process rfl] at calm
    cases calm
  | exited process =>
    obtain ⟨_, yields⟩ := tracked
    simp only [Job.step] at finished ⊢
    generalize taken : j.judge process w = r at finished ⊢
    cases judges taken with
    | unread garbled => simp [Job.verdict, started process rfl, garbled]
    | failed said exit => simp [Job.verdict, started process rfl, said, exit]
    | uncollected said exit refused =>
      simp [Job.verdict, started process rfl, said, exit, yields.symm.trans refused]
    | collected => cases finished
  | unmarking process artifacts =>
    obtain ⟨⟨text, said⟩, exit, ⟨stands, content, executable, there⟩, yielded⟩ := tracked
    have clear := (hosts.stands stands).2
    have removed := unlinkIfThere_there stands clear wellFormed (markerNames_notUp j.abi)
      (markerNames_ne_nil j.abi) (markerNames_nameable j.abi) there
    rw [← marker_eq homed] at removed
    simp [Job.step, Job.unmark, Job.verdict, started process rfl, said, exit, yielded, removed]
  | ended result =>
    exact judged.final rfl asked calm
  | broken cause => exact judged.final rfl asked calm

theorem judged_step (wellFormed : w.tree.WellFormed) (hosts : Hosts w.tree root l) (homed : j.Homed root)
    (started : j.Started compiler phase) (tracked : Tracked j compiler root l w.tree phase)
    (judged : Judged j compiler phase w) :
    Judged j compiler (j.step compiler phase w).1 (j.step compiler phase w).2 := by
  have beside := step_beside j compiler phase w
  constructor
  case early =>
    intro early
    obtain ⟨before, none_⟩ := callsIn_early early
    rw [beside.calls, none_, List.append_nil]
    exact judged.early before
  case stopping => exact fun process stops => step_stopping stops
  case unbegun =>
    intro ends
    rcases step_unbegun ends with rfl | rfl
    · simp only [Job.step] at ends
      split at ends
      · rename_i off
        exact beside.called off
      · cases ends
    · exact beside.called (judged.unbegun rfl)
  case final =>
    intro finished asked calm
    exact step_verdict wellFormed hosts homed started tracked judged finished asked (uncalled_before calm)

theorem judged_elsewhere (beside : Beside j next w v) (differ : k.call ≠ j.call)
    (judged : Judged k compiler phase w) : Judged k compiler phase v := by
  have own : k.call ∈ v.calls → k.call ∈ w.calls := (beside.others differ).mp
  have before : v.cancelled = false → w.cancelled = false := by
    intro calm
    rw [Bool.eq_false_iff] at calm ⊢
    exact fun called => calm (beside.called called)
  exact ⟨fun early asked => judged.early early (own asked),
    fun process stops => beside.called (judged.stopping process stops),
    fun ends => beside.called (judged.unbegun ends),
    fun finished asked calm => judged.final finished (own asked) (before calm)⟩

theorem judging_compatible (wellFormed : t.WellFormed) (absolute : root.root ≠ .relative) (hosts : Hosts t root l)
    (homed : ∀ j ∈ jobs, j.Homed root) (orderly : ∀ j ∈ jobs, j.Orderly compiler)
    (apart : ∀ j ∈ jobs, ∀ k ∈ jobs, j.call = k.call → j.abi = k.abi) :
    Compatible compiler jobs (fun w => Within (jobs.map Job.home) t w.tree) (Judging compiler root l) := by
  refine (tracked_compatible wellFormed absolute hosts homed orderly).also ?_ ?_ ?_
  · intro j member phase w common own judged
    have steady := common.steady wellFormed
    exact judged_step steady.wellFormed (steady.hosts hosts) (homed j member) own.1.1 own.2 judged
  · intro j member phase w _ _ k inside differ other _ judged
    exact judged_elsewhere (step_beside ..) (fun same => differ (apart k inside j member same)) judged
  · intro j _ phase w judged
    exact ⟨judged.early, fun _ _ => rfl, fun _ => rfl, fun _ _ calm => by cases calm⟩

theorem start_judging (tree : w.tree = t) (none_ : w.calls = []) :
    Sound jobs (fun w => Within (jobs.map Job.home) t w.tree) (Judging compiler root l) (Pool.start jobs w) := by
  have common : Within (jobs.map Job.home) t w.tree := by
    rw [tree]
    exact .refl _ t
  refine @start_sound jobs (fun w => Within (jobs.map Job.home) t w.tree) _ w common fun j _ => ?_
  refine ⟨⟨⟨fun process found => (by cases found), fun late _ => (by simp [stage] at late)⟩, trivial⟩, ?_⟩
  exact ⟨fun _ => by simp [none_], fun process stops => (by cases stops), fun ends => (by cases ends),
    fun finished _ _ => by cases finished⟩

-- The invariant holds from the start, and every schedule keeps it.
theorem plan_judging (orderly : b.Orderly compiler variant t) (planned : b.plan t variant = .ok plan)
    (tree : w.tree = t) (none_ : w.calls = []) : ∃ l, Hosts t b.config.targetDir l ∧
      Compatible compiler plan.jobs (fun w => Within (plan.jobs.map Job.home) t w.tree)
        (Judging compiler b.config.targetDir l) ∧
      Sound plan.jobs (fun w => Within (plan.jobs.map Job.home) t w.tree) (Judging compiler b.config.targetDir l)
        (Pool.start plan.jobs w) := by
  obtain ⟨_, _, _, resolved⟩ := orderly.resolved
  have accepted := Config.resolve_accepted resolved
  obtain ⟨l, hosts⟩ := exists_hosts orderly.clear
  have homed := fun j member => (plan_homed accepted planned j member).1
  have each : ∀ j ∈ plan.jobs, j.Orderly compiler := fun j member =>
    orderly.orderly j (by rwa [planned_jobs planned])
  exact ⟨l, hosts, judging_compatible orderly.wellFormed accepted.target hosts homed each (plan_calls planned),
    start_judging tree none_⟩

theorem unasked_stays (distinct : (jobs.map Job.abi).Nodup)
    (apart : ∀ j ∈ jobs, ∀ k ∈ jobs, j.call = k.call → j.abi = k.abi) (known : p.jobs.map Prod.fst = jobs)
    (member : (j, phase) ∈ p.jobs) (finished : phase.isOver = true) (unasked : j.call ∉ p.workshop.calls)
    (reached : Pool.Reaches compiler workers p moves last) :
    (j, phase) ∈ last.jobs ∧ j.call ∉ last.workshop.calls := by
  have compatible : Compatible compiler jobs (fun w => j.call ∉ w.calls)
      (fun k next _ => k = j → next = phase) := by
    constructor
    case common =>
      intro k inside next w common own asked
      rw [(step_beside k compiler next w).calls, List.mem_append] at asked
      rcases asked with earlier | asked
      · exact common earlier
      · have same : k.abi = j.abi :=
          apart k inside j (known ▸ List.mem_map_of_mem member) (mem_callsIn asked).symm
        have itself : k = j := List.inj_on_of_nodup_map distinct inside (known ▸ List.mem_map_of_mem member) same
        have none_ : k.callsIn phase = [] := by cases phase <;> first | rfl | cases finished
        rw [own itself, none_] at asked
        cases asked
    case own =>
      intro k _ next w _ own same
      rw [own same, step_over finished]
    case others => exact fun _ _ _ _ _ _ _ _ _ _ own => own
    case cancel => exact fun _ common => common
    case ownCancel => exact fun _ _ _ _ _ own => own
  have sound : Sound jobs (fun w => j.call ∉ w.calls) (fun k next _ => k = j → next = phase) p := by
    refine ⟨known, unasked, fun s inside same => ?_⟩
    subst same
    have abis : (p.jobs.map fun s => s.1.abi).Nodup := by
      have whole : (p.jobs.map Prod.fst).map Job.abi = p.jobs.map fun s => s.1.abi := by simp [Function.comp_def]
      rw [← whole, known]
      exact distinct
    have itself : s = (s.1, phase) := List.inj_on_of_nodup_map abis inside member rfl
    rw [itself]
  have after := reaches_sound compatible distinct sound reached
  obtain ⟨s, inside, same⟩ : ∃ s ∈ last.jobs, s.1 = j := by
    have among : j ∈ last.jobs.map Prod.fst := by
      rw [after.jobs, ← known]
      exact List.mem_map_of_mem member
    exact List.mem_map.mp among
  obtain ⟨k, next⟩ := s
  subst same
  exact ⟨(after.own _ inside rfl : next = phase) ▸ inside, after.common⟩

-- In a build that is not called off, whatever is over has come to its verdict, if it is prepared in the end.
theorem over_verdict (distinct : (jobs.map Job.abi).Nodup)
    (apart : ∀ j ∈ jobs, ∀ k ∈ jobs, j.call = k.call → j.abi = k.abi)
    (sound : Sound jobs (fun w => Within (jobs.map Job.home) t w.tree) (Judging compiler root l) p)
    (calm : p.workshop.cancelled = false) (reached : Pool.Reaches compiler workers p moves last)
    (prepared : last.Prepared) (member : (j, phase) ∈ p.jobs) (finished : phase.isOver = true) :
    phase = j.verdict compiler := by
  have judged : Judged j compiler phase p.workshop := (sound.own _ member).2
  by_cases asked : j.call ∈ p.workshop.calls
  · exact judged.final finished asked calm
  · obtain ⟨still, unasked⟩ := unasked_stays distinct apart sound.jobs member finished asked reached
    rcases prepared _ still with called | off
    · exact absurd called unasked
    · rw [judged.unbegun off] at calm
      cases calm

theorem map_verdict {states : List (Job × Phase)} (ended : ∀ s ∈ states, s.2 = s.1.verdict compiler) :
    states.map Prod.snd = (states.map Prod.fst).map (Job.verdict · compiler) := by
  rw [List.map_map]
  exact List.map_congr_left ended

-- What a build comes to that is not called off: the verdicts of its jobs, or the first of them that breaks it.
theorem concludes_verdict (orderly : b.Orderly compiler variant t) (planned : b.plan t variant = .ok plan)
    (uncalled : ∀ j ∈ plan.jobs, j.Uncalled compiler) (tree : w.tree = t) (none_ : w.calls = [])
    (calm : w.cancelled = false) (run : Pool.Calm compiler count (Pool.start plan.jobs w) last)
    (finished : last.isOver = true) (prepared : last.Prepared) (i : Invocation) :
    Pool.gather i (last.jobs.map Prod.snd) = Pool.gather i (plan.jobs.map (Job.verdict · compiler)) := by
  obtain ⟨l, _, compatible, start⟩ := plan_judging orderly planned tree none_
  have distinct := plan_distinct planned
  have apart := plan_calls planned
  have quiet : ∀ j ∈ plan.jobs, ∀ phase w, Judging compiler b.config.targetDir l j phase w → w.cancelled = false →
      (j.step compiler phase w).2.cancelled = false := by
    intro j member phase w judging calm
    exact ((step_beside j compiler phase w).quiet fun process own =>
      uncalled j member process (judging.1.1.1 process own)).trans calm
  rcases calm_split compatible distinct quiet start calm run with
    ⟨sound, calm⟩ | ⟨middle, moves, sound, calm, raised, reached⟩
  · have all : ∀ s ∈ last.jobs, s.2 = s.1.verdict compiler := fun s member =>
      over_verdict distinct apart sound calm (@Pool.Reaches.nil compiler 0 last) prepared member
        (List.all_eq_true.mp finished s member)
    rw [map_verdict all, sound.jobs]
  · obtain ⟨cause, broke⟩ := raised_broke raised
    have after := broke_breakage (reaches_broke broke reached)
    obtain ⟨front, j, rest, split_, before⟩ := broke
    have verdict : ∀ s ∈ middle.jobs, s.2.isOver = true → s.2 = s.1.verdict compiler := fun s member finished =>
      over_verdict distinct apart sound calm reached prepared member finished
    have first : ∀ s ∈ front, s.2 = s.1.verdict compiler := fun s member =>
      verdict s (by simp [split_, member]) (isOver_of_isEnded (before s member))
    have broken : Phase.broken cause = j.verdict compiler := verdict (j, .broken cause) (by simp [split_]) rfl
    have verdicts : plan.jobs.map (Job.verdict · compiler) =
        front.map Prod.snd ++ .broken cause :: (rest.map Prod.fst).map (Job.verdict · compiler) := by
      rw [← sound.jobs, split_, List.map_append, List.map_append, List.map_cons, List.map_cons,
        map_verdict first, broken]
    have same : Pool.breakage (plan.jobs.map (Job.verdict · compiler)) = some cause := by
      rw [verdicts]
      refine breakage_front fun phase member => ?_
      obtain ⟨s, inside, rfl⟩ := List.mem_map.mp member
      exact before s inside
    unfold Pool.gather
    rw [after, same]

theorem verdict_environment (j : Job) (environment : Table String) :
    ({ j with environment := environment } : Job).verdict compiler = j.verdict compiler := rfl

theorem plans_agree (one : b.plan t variant = .ok plan) (two : b.plan u variant = .ok other)
    (same : b.findCargo u = b.findCargo t) : other.invocation = plan.invocation ∧
      other.jobs.map (Job.verdict · compiler) = plan.jobs.map (Job.verdict · compiler) ∧
      ∀ j ∈ other.jobs, ∃ k ∈ plan.jobs, k.command = j.command := by
  obtain ⟨v, p, architectures, cargo, ndk, parsed, profiled, resolved, found, started, jobs⟩ := plan_parts one
  obtain ⟨v', p', architectures', cargo', ndk', parsed', profiled', resolved', found', started', jobs'⟩ :=
    plan_parts two
  cases parsed.symm.trans parsed'
  cases profiled.symm.trans profiled'
  cases resolved.symm.trans resolved'
  cases found.symm.trans (same.symm.trans found')
  refine ⟨started'.trans started.symm, ?_, fun j member => ?_⟩
  · rw [jobs, jobs', List.map_map, List.map_map]
    exact List.map_congr_left fun abi _ =>
      verdict_environment (b.job cargo p ndk abi) (b.environment abi ndk')
  · rw [jobs'] at member
    obtain ⟨abi, inside, rfl⟩ := List.mem_map.mp member
    exact ⟨b.job cargo p ndk abi, jobs ▸ List.mem_map_of_mem inside, rfl⟩

theorem concludes_same (one : b.Orderly compiler variant t) (two : b.Orderly compiler variant u)
    (cargo : b.findCargo u = b.findCargo t) (uncalled : ∀ j ∈ b.planned t variant, j.Uncalled compiler)
    (first : b.Concludes compiler variant t outcome) {again : Except Failure Invocation}
    (second : b.Concludes compiler variant u again) : outcome = again := by
  cases first with
  | @ran count plan last planned workable run finished prepared =>
    cases second with
    | @ran count' other last' planned' workable' run' finished' prepared' =>
      rw [planned_jobs planned] at uncalled
      obtain ⟨invocation, verdicts, commands⟩ := @plans_agree _ compiler _ _ _ _ _ planned planned' cargo
      have uncalled' : ∀ j ∈ other.jobs, j.Uncalled compiler := by
        intro j member
        obtain ⟨k, inside, same⟩ := commands j member
        have quiet := uncalled k inside
        unfold Job.Uncalled at quiet ⊢
        rwa [← same]
      rw [concludes_verdict one planned uncalled rfl rfl rfl run finished prepared,
        concludes_verdict two planned' uncalled' rfl rfl rfl run' finished' prepared', invocation, verdicts]

theorem built_backed {early : Bool} (orderly : b.Orderly compiler variant t)
    (runs : b.Runs compiler variant (.opening t early) plan moves last) (member : (j, .ended result) ∈ last.jobs)
    (good : result.ok = true) : ∃ process, Backed compiler
      (Pool.start plan.jobs ((Workshop.opening t early).noting plan.notices)) moves last.workshop j result process := by
  obtain ⟨l, hosts, compatible, start⟩ := plan_judging (w := (Workshop.opening t early).noting plan.notices) orderly
    runs.planned rfl rfl
  have distinct := plan_distinct runs.planned
  have sound := reaches_sound compatible distinct start runs.reached
  have inside : j ∈ plan.jobs := sound.mem member
  have reported : Reported j compiler b.config.targetDir l result last.workshop.tree := (sound.own _ member).1.2 good
  obtain ⟨process, artifacts, answer, exit, yielded, same⟩ := reported.own
  obtain ⟨_, v, answer', _, leaves⟩ := built_exited distinct runs.reached member good
  rw [answer] at answer'
  cases answer'
  obtain ⟨_, _, _, resolved⟩ := orderly.resolved
  have homed := (plan_homed (Config.resolve_accepted resolved) runs.planned j inside).1
  have planned : b.plan t variant = .ok plan := runs.planned
  have own : j.Orderly compiler := orderly.orderly j (by rwa [planned_jobs planned])
  rw [yield_produced homed own answer yielded] at same
  refine ⟨process, answer, exit, ⟨v, leaves⟩, same, ?_⟩
  have clear := ((sound.common.steady orderly.wellFormed).hosts hosts |>.stands reported.stands).2
  unfold exists?
  rw [marker_eq homed, probe_absent reported.stands clear (markerNames_notUp j.abi)
    (markerNames_ne_nil j.abi) (markerNames_nameable j.abi) reported.unmarked]
  rfl

-- An architecture that is reported as built is reported with what its own process wrote, and its marker is gone;
-- and builds from any two contents from which every architecture can be prepared come to the same.
theorem results_are_own (orderly : b.Orderly compiler variant t) :
    (∀ early plan moves last i, b.Runs compiler variant (.opening t early) plan moves last →
      Pool.gather plan.invocation (last.jobs.map Prod.snd) = .ok i →
      ∀ abi result, i.result? abi = some result → result.ok = true →
        ∃ j ∈ plan.jobs, j.abi = abi ∧ ∃ process, Backed compiler
          (Pool.start plan.jobs ((Workshop.opening t early).noting plan.notices)) moves last.workshop j result
          process) ∧
    ∀ u outcome again, b.Orderly compiler variant u → b.findCargo u = b.findCargo t →
      (∀ j ∈ b.planned t variant, j.Uncalled compiler) → b.Concludes compiler variant t outcome →
      b.Concludes compiler variant u again → outcome = again := by
  refine ⟨fun early plan moves last i runs gathered abi result recorded good => ?_,
    fun u outcome again other cargo uncalled first second => concludes_same orderly other cargo uncalled first second⟩
  obtain ⟨v, p, architectures, _, _, _, _, _, _, started, _⟩ := plan_parts runs.planned
  rw [started] at gathered
  obtain ⟨_, _, _, from_⟩ := gather_parts gathered
  obtain ⟨among, same⟩ := from_ abi result recorded
  obtain ⟨⟨j, _⟩, member, rfl⟩ := List.mem_map.mp among
  obtain ⟨process, backed⟩ := built_backed orderly runs member good
  have jobs := reaches_jobs (plan_distinct runs.planned) runs.reached
  refine ⟨j, jobs ▸ List.mem_map_of_mem member, ?_, process, backed⟩
  rw [← same, backed.artifacts]
  rfl

theorem every_call (planned : b.plan t variant = .ok plan) (none_ : w.calls = [])
    (reached : Pool.Reaches compiler workers (Pool.start plan.jobs w) moves last)
    (many : last.workshop.calls.length = plan.jobs.length) : ∀ j ∈ plan.jobs, j.call ∈ last.workshop.calls := by
  obtain ⟨nodup, known, _⟩ := reaches_calls (plan_distinct planned) (plan_calls planned) none_ reached
  obtain ⟨begun, among, same⟩ := calls_sublist (plan_distinct planned) (plan_calls planned) nodup known
  have all : begun = plan.jobs := among.eq_of_length (by rw [← many, same.length_eq, List.length_map])
  rw [all] at same
  exact fun j member => same.mem_iff.mpr (List.mem_map_of_mem member)

theorem invoke_concludes (fine : (b.invoke compiler variant (.opened t)).1 = .ok i)
    (many : (b.invoke compiler variant (.opened t)).2.calls.length = (b.planned t variant).length) :
    b.Concludes compiler variant t (.ok i) ∧ ∃ plan moves last,
      b.Runs compiler variant (.opening t false) plan moves last ∧
        Pool.gather plan.invocation (last.jobs.map Prod.snd) = .ok i := by
  cases found : b.plan (Workshop.opened t).tree variant with
  | error cause =>
    rw [invoke_unplanned _ found] at fine
    cases fine
  | ok plan =>
    have planned : b.plan t variant = .ok plan := found
    cases workable : b.checkWorkers with
    | error cause =>
      rw [invoke_unworkable _ found workable] at fine
      cases fine
    | ok done =>
      obtain ⟨last, calm, finished, same⟩ := @invoke_calm b compiler variant plan (Workshop.opened t) found workable
      obtain ⟨moves, reached⟩ := calm.reaches
      have gathered : Pool.gather plan.invocation (last.jobs.map Prod.snd) = .ok i := by rw [← fine, same]
      rw [planned_jobs planned, same] at many
      have asked := every_call planned rfl reached many
      have jobs := reaches_jobs (plan_distinct planned) reached
      have prepared : last.Prepared := fun s member => .inl (asked s.1 (jobs ▸ List.mem_map_of_mem member))
      rw [← gathered]
      exact ⟨.ran planned workable calm finished prepared, plan, moves, last, ⟨found, workable, reached⟩, rfl⟩

theorem sample_orderly (resolved : ∃ s base data, Config.resolve s base data = .ok b.config)
    (wellFormed : t.WellFormed) (clear : ∀ l, Clear t l) (byte : UInt8) (exit : Int)
    (own : ∀ j ∈ b.planned t variant, j.command.outputDir = j.outputDir j.profile)
    (noNul : ∀ j ∈ b.planned t variant, FilePath.anyNul (j.command.outputDir.child "liba.so").names = false)
    (fits : ∀ j ∈ b.planned t variant, ∀ name ∈ (j.command.outputDir.child "liba.so").names,
      ¬ maxNameSize < name.utf8ByteSize) : b.Orderly (sampleCompiler byte exit) variant t := by
  refine ⟨resolved, wellFormed, fun l _ => clear l, fun j member => ?_⟩
  exact sampleBehaviour_orderly [byte] exit (own j member) (noNul j member) (fits j member)

-- A release build was interrupted in one directory and the other is new: a debug build of either comes to the
-- same, and clears the marker away.
theorem interrupted_build_forgotten : ∃ i,
    sampleBuilder.Concludes (sampleCompiler 1 0) (.text "debug") Sample.tree (.ok i) ∧
    sampleBuilder.Concludes (sampleCompiler 1 0) (.text "debug") Sample.interrupted (.ok i) ∧
    (i.result? .arm64).map Compilation.artifacts =
      some [("liba.so", .ofText "/t/arm64-v8a/aarch64-linux-android/debug/liba.so")] ∧
    ∃ plan moves last, sampleBuilder.Runs (sampleCompiler 1 0) (.text "debug") (.opening Sample.interrupted false) plan
        moves last ∧
      ∃ j ∈ plan.jobs, j.abi = .arm64 ∧ last.workshop.tree.exists? j.marker = .ok false := by
  have facts : ∀ t, t = Sample.tree ∨ t = Sample.interrupted →
      ((sampleBuilder.invoke (sampleCompiler 1 0) (.text "debug") (.opened t)).1.toOption.map fun i =>
        (i.result? .arm64).map fun result => (result.ok, result.artifacts)) =
          some (some (true, [("liba.so", .ofText "/t/arm64-v8a/aarch64-linux-android/debug/liba.so")])) ∧
      (sampleBuilder.invoke (sampleCompiler 1 0) (.text "debug") (.opened t)).2.calls.length =
        (sampleBuilder.planned t (.text "debug")).length := by
    rintro t (rfl | rfl) <;> decide +kernel
  have orderly : ∀ t, t = Sample.tree ∨ t = Sample.interrupted →
      sampleBuilder.Orderly (sampleCompiler 1 0) (.text "debug") t := by
    rintro t (rfl | rfl)
    · exact sample_orderly ⟨_, _, _, Sample.resolved⟩ (WellFormed.of_entries (by decide))
        (fun l => Clear.of_entries (by decide)) 1 0 (by decide +kernel) (by decide +kernel) (by decide +kernel)
    · exact sample_orderly ⟨_, _, _, Sample.resolved⟩ (WellFormed.of_entries (by decide))
        (fun l => Clear.of_entries (by decide)) 1 0 (by decide +kernel) (by decide +kernel) (by decide +kernel)
  have cargo : sampleBuilder.findCargo Sample.interrupted = sampleBuilder.findCargo Sample.tree := by
    have one : sampleBuilder.findCargo Sample.tree = .ok "/bin/cargo" := ok_of_toOption (by decide +kernel)
    have two : sampleBuilder.findCargo Sample.interrupted = .ok "/bin/cargo" := ok_of_toOption (by decide +kernel)
    rw [one, two]
  have uncalled : ∀ j ∈ sampleBuilder.planned Sample.tree (.text "debug"), j.Uncalled (sampleCompiler 1 0) := by
    intro j _ process started
    cases started
    rfl
  obtain ⟨answer, many⟩ := facts _ (.inl rfl)
  obtain ⟨answer', many'⟩ := facts _ (.inr rfl)
  obtain ⟨i, fine, _⟩ := Option.map_eq_some_iff.mp answer
  obtain ⟨r, fine', known⟩ := Option.map_eq_some_iff.mp answer'
  obtain ⟨first, _⟩ := invoke_concludes (ok_of_toOption fine) many
  obtain ⟨second, plan, moves, last, runs, gathered⟩ := invoke_concludes (ok_of_toOption fine') many'
  obtain ⟨_, forgotten⟩ := results_are_own (orderly _ (.inl rfl))
  obtain ⟨own, _⟩ := results_are_own (orderly _ (.inr rfl))
  have same := forgotten _ _ _ (orderly _ (.inr rfl)) cargo uncalled first second
  cases same
  obtain ⟨result, recorded, report⟩ := Option.map_eq_some_iff.mp known
  obtain ⟨good, artifacts⟩ := Prod.mk.inj report
  obtain ⟨j, member, abi, process, backed⟩ := own false plan moves last i runs gathered .arm64 result recorded good
  exact ⟨i, first, second, by rw [recorded, Option.map_some, artifacts], plan, moves, last, runs, j, member, abi,
    backed.unmarked⟩

end AbiBuild.Build
