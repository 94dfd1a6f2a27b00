import AbiBuild.Proofs.Build.Footprint

namespace AbiBuild.Build
open AbiBuild.Text FileTree Placement

-- At the job's directory and below, all is as it was, but for directories on the way to that of all jobs.
def Job.Unworked (j : Job) (root : FilePath) (l : Location) (t u : FileTree) : Prop :=
  ∀ names, u.node? (l ++ j.abi.text :: names) = t.node? (l ++ j.abi.text :: names) ∨
    Along t root.root root.names (l ++ j.abi.text :: names) ∧ t.node? (l ++ j.abi.text :: names) = none ∧
      u.node? (l ++ j.abi.text :: names) = some .directory

def Job.unbegun (j : Job) : Compilation := j.failed "cancelled" none (.zero false)

def Unmoved (root : FilePath) (l : Location) (t : FileTree) (j : Job) (phase : Phase) (w : Workshop) : Prop :=
  phase = .ready ∨ phase = .ended j.unbegun → j.Unworked root l t w.tree

-- The build from its invocation on.
def Builder.finish (b : Builder) : Except Failure Invocation × Workshop → Except Failure Invocation × Workshop
  | (.error failure, w) => (.error failure, w)
  | (.ok i, w) =>
    match i.check with
    | .error failure => (.error failure, w)
    | .ok () => b.install i w

structure CalledOff (b : Builder) (compiler : Compiler) (jobs : List Job) (start : Pool) (moves : List Move)
    (w : Workshop) (i : Invocation) : Prop where
  late : ∀ j v, start.Leaves compiler moves j .ready v → v.cancelled = true → i.result? j.abi = some j.unbegun
  unasked : ∀ j ∈ jobs, i.result? j.abi = some j.unbegun → j.call ∉ w.calls
  stopped : ∀ j process polls v, start.Leaves compiler moves j (.running process polls) v →
    polls < process.polls → v.cancelled = true ∨ process.cancelOnPoll = some (polls + 1) →
    compiler j.command = .started process ∧
      i.result? j.abi = some (j.failed "cancelled" (some process.stopped.status) process.stopped.seconds) ∧
      w.tree.isFile j.marker = .ok true
  own : ∀ j ∈ jobs, ∀ result, i.result? j.abi = some result → result.ok = true → start.Succeeds compiler moves j
  alive : w.alive = []
  unplaced : i.failures ≠ [] → ∃ subject diagnostic failed,
    b.finish (.ok i, w) = (.error (.compilation subject diagnostic failed), w)
  kept : (∀ j ∈ jobs, j.Penned compiler b.config.targetDir) →
    (∀ j ∈ jobs, i.result? j.abi = some j.unbegun → ∀ l, LeadsTo start.workshop.tree b.config.targetDir l →
      j.Unworked b.config.targetDir l start.workshop.tree w.tree) ∧
    ∀ k, Apart start.workshop.tree b.config.targetDir k → SameAt k start.workshop.tree w.tree

variable {b : Builder} {compiler : Compiler} {variant : Value} {t u v : FileTree} {root : FilePath} {l : Location}
  {j k : Job} {jobs : List Job} {phase next : Phase} {w : Workshop} {last p : Pool} {moves : List Move}
  {workers : Nat} {i : Invocation} {plan : Builder.Plan} {early : Bool} {result : Compilation}

theorem check_failed (pending : i.pending = []) (lost : i.failures ≠ []) :
    ∃ subject diagnostic failed, i.check = .error (.compilation subject diagnostic failed) := by
  unfold Invocation.check
  rw [pending]
  cases failures : i.failures with
  | nil => exact (lost failures).elim
  | cons first others => exact ⟨_, _, _, rfl⟩

theorem finish_failed (pending : i.pending = []) (lost : i.failures ≠ []) : ∃ subject diagnostic failed,
    b.finish (.ok i, w) = (.error (.compilation subject diagnostic failed), w) := by
  obtain ⟨subject, diagnostic, failed, checked⟩ := check_failed pending lost
  exact ⟨subject, diagnostic, failed, by simp only [Builder.finish, checked]⟩

theorem ne_cancelled {s : String} (differ : s.toList.take 4 ≠ "cancelled".toList.take 4) : s ≠ "cancelled" :=
  fun same => differ (by rw [same])

theorem step_unbegun (ends : (j.step compiler phase w).1 = .ended j.unbegun) :
    phase = .ready ∨ phase = .ended j.unbegun := by
  have prepared : ∀ r next v, next.isOver = false → (j.afterPreparing r next v).1 ≠ .ended j.unbegun := by
    intro r next v notOver ends
    rcases afterPreparing_cases j r next v with further | ⟨fault, _, failed | mishap⟩
    · rw [← further, ends] at notOver
      cases notOver
    · injection failed.symm.trans ends with same
      injection congrArg Compilation.outcome same with text
      exact ne_cancelled (by simp [toString, String.toList_append]) text
    · cases ends.symm.trans mishap
  cases phase with
  | ready => exact .inl rfl
  | discarding => exact (prepared _ .makingHome _ rfl ends).elim
  | makingHome => exact (prepared _ .clearing _ rfl ends).elim
  | clearing => exact (prepared _ .marking _ rfl ends).elim
  | marking => exact (prepared _ .starting _ rfl ends).elim
  | starting =>
    simp only [Job.step] at ends
    generalize taken : j.launch compiler w = r at ends
    cases launches taken with
    | refused =>
      injection ends with same
      injection congrArg Compilation.outcome same with text
      exact (ne_cancelled (by simp [toString, String.toList_append]) text).elim
    | _ => cases ends
  | running process polls =>
    simp only [Job.step, Job.poll] at ends
    split at ends
    · split at ends <;> cases ends
    · cases ends
  | stopping process =>
    simp only [Job.step] at ends
    generalize taken : j.stop process w = r at ends
    cases stops taken with
    | unread => cases ends
    | called =>
      injection ends with same
      injection congrArg Compilation.outcome same with _ status
      cases status
  | exited process =>
    simp only [Job.step] at ends
    generalize taken : j.judge process w = r at ends
    cases judges taken with
    | failed =>
      injection ends with same
      injection congrArg Compilation.outcome same with _ status
      cases status
    | _ => cases ends
  | unmarking process artifacts =>
    simp only [Job.step, Job.unmark] at ends
    split at ends
    · cases ends
    · injection ends with same
      cases congrArg Compilation.outcome same
  | ended result => exact .inr ends
  | broken cause => cases ends

theorem step_begun : (j.step compiler phase w).1 ≠ .ready := by
  intro same
  by_cases early : stage phase < 6
  · rcases @step_stage compiler j phase w early with finished | further
    · rw [same] at finished
      cases finished
    · rw [same] at further
      simp [stage] at further
  · have late : stage phase = 6 := by
      have bound : stage phase ≤ 6 := by cases phase <;> simp [stage]
      omega
    have still := (@step_remaining compiler j phase w late).1
    rw [same] at still
    simp [stage] at still

theorem reaches_unbegun (distinct : (jobs.map Job.abi).Nodup)
    (apart : ∀ j ∈ jobs, ∀ k ∈ jobs, j.call = k.call → j.abi = k.abi) (none_ : w.calls = [])
    (reached : Pool.Reaches compiler workers (Pool.start jobs w) moves last)
    (member : (j, .ended j.unbegun) ∈ last.jobs) :
    j.call ∉ last.workshop.calls := by
  have compatible : Compatible compiler jobs (fun _ => True)
      (fun j phase w => phase = .ready ∨ phase = .ended j.unbegun → j.call ∉ w.calls) := by
    refine ⟨fun _ _ _ _ _ _ => trivial, ?_, ?_, fun _ _ => trivial, fun _ _ _ _ _ own => own⟩
    · intro j _ phase w _ own ends
      rcases ends with ready | ended
      · exact (step_begun ready).elim
      · have quiet : j.callsIn phase = [] := by
          rcases step_unbegun ended with rfl | rfl <;> rfl
        rw [(step_beside j compiler phase w).calls, quiet, List.append_nil]
        exact own (step_unbegun ended)
    · intro j first phase w _ _ k second differ other theirs ends
      rw [(step_beside j compiler phase w).others fun same => differ (apart k second j first same)]
      exact theirs ends
  have start := @start_sound jobs (fun _ => True)
    (fun j phase w => phase = .ready ∨ phase = .ended j.unbegun → j.call ∉ w.calls) w trivial
    fun j _ _ => by simp [none_]
  exact (reaches_sound compatible distinct start reached).own _ member (.inr rfl)

theorem unworked_elsewhere (hosts : Hosts t root l) (steady : Steady t u) (homed : j.Homed root)
    (differ : k.abi ≠ j.abi)
    (changes : Changes (l ++ [j.abi.text]) (Along u j.home.root j.home.names) u v)
    (unworked : k.Unworked root l t u) : k.Unworked root l t v := by
  intro names
  rcases changes.elsewhere (l ++ k.abi.text :: names) (outside_abi differ.symm names) with
    same | ⟨along, absent, present⟩
  · rw [same]
    exact unworked names
  · rcases unworked names with before | ⟨_, _, there⟩
    · refine .inr ⟨?_, before ▸ absent, present⟩
      rw [homed.home] at along
      rcases @along_last _ _ _ _ [] _ hosts (abi_notUp j.abi) (steady.along.mp along) with way | own
      · rwa [FilePath.under_nil] at way
      · exact (differ (text_injective (List.cons.inj (List.append_cancel_left own)).1)).elim
    · rw [absent] at there
      cases there

theorem unmoved_compatible (wellFormed : t.WellFormed) (absolute : root.root ≠ .relative) (hosts : Hosts t root l)
    (homed : ∀ j ∈ jobs, j.Homed root) (penned : ∀ j ∈ jobs, j.Penned compiler root) :
    Compatible compiler jobs (fun w => Within (jobs.map Job.home) t w.tree)
      (fun j phase w => (j.Started compiler phase ∧ Housed root w.tree phase) ∧ Unmoved root l t j phase w) := by
  refine (penned_compatible wellFormed absolute hosts homed penned).also ?_ ?_ fun _ _ _ _ own => own
  · intro j _ phase w _ _ own ends
    rcases ends with ready | ended
    · exact (step_begun ready).elim
    · have still : (j.step compiler phase w).2.tree = w.tree := by
        rcases step_unbegun ended with rfl | rfl
        · simp only [Job.step]
          split <;> rfl
        · rfl
      rw [still]
      exact own (step_unbegun ended)
  · intro j member phase w common own k _ differ other _ theirs ends
    have steady := common.steady wellFormed
    exact unworked_elsewhere hosts steady (homed j member) differ (acts_penned steady.wellFormed absolute
      (steady.hosts hosts) (homed j member) (penned j member) own.1 own.2 (step_acts ..)) (theirs ends)

theorem runs_unworked (fit : b.Fit compiler variant t)
    (penned : ∀ j ∈ plan.jobs, j.Penned compiler b.config.targetDir)
    (runs : b.Runs compiler variant (.opening t early) plan moves last) (leads : LeadsTo t b.config.targetDir l)
    (member : (j, .ended j.unbegun) ∈ last.jobs) :
    j.Unworked b.config.targetDir l t last.workshop.tree := by
  obtain ⟨_, _, _, resolved⟩ := fit.resolved
  have accepted := Config.resolve_accepted resolved
  obtain ⟨k, hosts⟩ := exists_hosts fit.clear
  obtain ⟨rfl, _⟩ := hosts l leads
  have homed := fun j member => (plan_homed accepted runs.planned j member).1
  have compatible := unmoved_compatible fit.wellFormed accepted.target hosts homed penned
  refine ((reaches_sound compatible (plan_distinct runs.planned) (start_sound ?_ fun j _ => ?_)
    runs.reached).own _ member).2 (.inr rfl)
  · exact .refl _ t
  · exact ⟨⟨fun process found => (by cases found), fun late _ => (by simp [stage] at late)⟩,
      fun _ _ => .inl rfl⟩

-- A process that is polled after the build is called off is ended, whatever it does about it.
theorem stopped_ends {v : Workshop} {process : Process} {polls : Nat} (distinct : (jobs.map Job.abi).Nodup)
    (reached : Pool.Reaches compiler workers (Pool.start jobs w) moves last)
    (leaves : (Pool.start jobs w).Leaves compiler moves j (.running process polls) v) (more : polls < process.polls)
    (called : v.cancelled = true ∨ process.cancelOnPoll = some (polls + 1))
    (member : (j, .ended result) ∈ last.jobs) :
    result = j.failed "cancelled" (some process.stopped.status) process.stopped.seconds := by
  have closed : ∀ phase w, phase = .stopping process ∨ (∃ cause, phase = .broken cause) ∨
      phase = .ended (j.failed "cancelled" (some process.stopped.status) process.stopped.seconds) →
      (j.step compiler phase w).1 = .stopping process ∨ (∃ cause, (j.step compiler phase w).1 = .broken cause) ∨
        (j.step compiler phase w).1 =
          .ended (j.failed "cancelled" (some process.stopped.status) process.stopped.seconds) := by
    rintro phase w (rfl | ⟨cause, rfl⟩ | rfl)
    · simp only [Job.step]
      generalize taken : j.stop process w = r
      cases stops taken with
      | unread => exact .inr (.inl ⟨_, rfl⟩)
      | called => exact .inr (.inr rfl)
    · exact .inr (.inl ⟨cause, rfl⟩)
    · exact .inr (.inr rfl)
  have first : (j.step compiler (.running process polls) v).1 = .stopping process := by
    have off : (v.cancelled || process.cancelOnPoll == some (polls + 1)) = true := by
      simpa using called
    simp [Job.step, Job.poll, more, off]
  rcases leaves_stays closed distinct reached leaves (.inl first) member with same | ⟨_, same⟩ | same
  · cases same
  · cases same
  · exact Phase.ended.inj same

theorem late_ends {v : Workshop} (distinct : (jobs.map Job.abi).Nodup)
    (reached : Pool.Reaches compiler workers (Pool.start jobs w) moves last)
    (leaves : (Pool.start jobs w).Leaves compiler moves j .ready v) (called : v.cancelled = true)
    (member : (j, .ended result) ∈ last.jobs) : result = j.unbegun := by
  have closed : ∀ phase w, phase = .ended j.unbegun → (j.step compiler phase w).1 = .ended j.unbegun := by
    rintro phase w rfl
    rfl
  have first : (j.step compiler .ready v).1 = .ended j.unbegun := by
    simp [Job.step, called, Job.unbegun]
  have ends := leaves_stays (P := fun phase => phase = .ended j.unbegun) closed distinct reached leaves first member
  exact Phase.ended.inj ends

theorem leaves_planned {v : Workshop} (distinct : (jobs.map Job.abi).Nodup)
    (reached : Pool.Reaches compiler workers (Pool.start jobs w) moves last)
    (leaves : (Pool.start jobs w).Leaves compiler moves j phase v) : j ∈ jobs := by
  obtain ⟨front, index, rest, rfl, found, same⟩ := leaves
  have known := reaches_jobs distinct (reaches_split reached).1
  rw [← known]
  exact List.mem_map_of_mem (List.mem_of_getElem? found)

theorem invocation_called_off (fit : b.Fit compiler variant t)
    (runs : b.Runs compiler variant (.opening t early) plan moves last) :
    (last.isOver = false → ∃ index, last.mayAdvance (b.workerCount plan.jobs) index = true) ∧
    moves.countP Move.isAdvance ≤ (Pool.start plan.jobs (.opening t early)).ahead compiler ∧
    (last.isOver = true → ∃ i, Pool.gather plan.invocation (last.jobs.map Prod.snd) = .ok i ∧
      i.pending = [] ∧ i.results.map Compilation.abi = i.architectures ∧
      i.architectures = plan.jobs.map Job.abi ∧
      CalledOff b compiler plan.jobs (Pool.start plan.jobs ((Workshop.opening t early).noting plan.notices)) moves
        last.workshop i) := by
  obtain ⟨progress, bounded⟩ := runs_progress fit runs
  refine ⟨progress, bounded, fun finished => ?_⟩
  have planned : b.plan t variant = .ok plan := runs.planned
  have distinct := plan_distinct planned
  obtain ⟨_, _, _, resolved⟩ := fit.resolved
  have accepted := Config.resolve_accepted resolved
  obtain ⟨i, gathered, settled, recorded⟩ := runs_settle fit runs finished
  obtain ⟨l, hosts, sound⟩ := runs_firm fit runs
  refine ⟨i, gathered, settled.pending, settled.results, settled.architectures, ?_⟩
  constructor
  case late =>
    intro j v leaves called
    obtain ⟨result, member, found⟩ := recorded j (leaves_planned distinct runs.reached leaves)
    rw [found, late_ends distinct runs.reached leaves called member]
  case unasked =>
    intro j member found
    obtain ⟨result, inside, known⟩ := recorded j member
    have same := Option.some.inj (known.symm.trans found)
    subst same
    exact reaches_unbegun distinct (plan_calls planned) rfl runs.reached inside
  case stopped =>
    intro j process polls v leaves more called
    have among := leaves_planned distinct runs.reached leaves
    obtain ⟨result, member, found⟩ := recorded j among
    have ends := stopped_ends distinct runs.reached leaves more called member
    obtain ⟨other, same, _, guarded⟩ := sound_ended sound finished _ member
    cases Phase.ended.inj same
    obtain ⟨stands, content, executable, there⟩ := guarded (by rw [ends]; rfl) (by rw [ends]; rfl)
    obtain ⟨stands, clear⟩ := (sound.common.hosts hosts).stands stands
    refine ⟨leaves_started distinct runs.reached leaves rfl, ends ▸ found, ?_⟩
    rw [marker_eq (plan_homed accepted planned j among).1]
    exact isFile_there stands clear sound.common.wellFormed (markerNames_notUp j.abi)
      (markerNames_ne_nil j.abi) (markerNames_nameable j.abi) there
  case own =>
    intro j member result found good
    obtain ⟨other, known, _, whether⟩ := settled.ends j member
    rw [known] at found
    cases found
    exact whether.mp good
  case alive => exact over_alive distinct rfl runs.reached finished
  case unplaced => exact fun lost => finish_failed settled.pending lost
  case kept =>
    intro penned
    refine ⟨fun j member found l leads => ?_, fun k apart => ?_⟩
    · obtain ⟨result, inside, known⟩ := recorded j member
      have same := Option.some.inj (known.symm.trans found)
      subst same
      exact runs_unworked fit penned runs leads inside
    · have within := runs_within (w := .opening t early) accepted fit.wellFormed fit.clear penned runs
      exact within.untouched (works_apart fit.clear apart)

-- A run by its moves, if they are allowed.
def Pool.follow (compiler : Compiler) (workers : Nat) : Pool → List Move → Option Pool
  | p, [] => some p
  | p, move :: rest => if p.allowed workers move then follow compiler workers (p.apply compiler move) rest else none

def Builder.follow (b : Builder) (compiler : Compiler) (variant : Value) (w : Workshop) (moves : List Move) :
    Option (Builder.Plan × Pool) :=
  match b.plan w.tree variant, b.checkWorkers with
  | .ok plan, .ok () =>
    (Pool.follow compiler (b.workerCount plan.jobs) (Pool.start plan.jobs (w.noting plan.notices)) moves).map
      fun last => (plan, last)
  | _, _ => none

theorem follow_reaches (followed : Pool.follow compiler workers p moves = some last) :
    Pool.Reaches compiler workers p moves last := by
  induction moves generalizing p with
  | nil =>
    cases followed
    exact .nil _
  | cons move rest ih =>
    unfold Pool.follow at followed
    split at followed
    · exact .cons (by assumption) (ih followed)
    · cases followed

theorem follow_runs (followed : b.follow compiler variant w moves = some (plan, last)) :
    b.Runs compiler variant w plan moves last := by
  unfold Builder.follow at followed
  split at followed
  · rename_i found planned workable
    obtain ⟨reached, walked, same⟩ := Option.map_eq_some_iff.mp followed
    cases same
    exact ⟨planned, workable, follow_reaches walked⟩
  · cases followed

def pollingCompiler : Compiler := .ofBehaviours fun _ => { sampleBehaviour [1] 0 with polls := 2 }

-- The build is called off while the first process runs, before the second job begins.
def calledOffInPoll : List Move :=
  List.replicate 6 (.advance 0) ++ .cancel :: List.replicate 2 (.advance 0) ++ [.advance 1]

theorem polled_build_called_off : ∃ plan last i,
    sampleBuilder.Runs pollingCompiler (.text "debug") (.opening Sample.tree false) plan calledOffInPoll last ∧
      Pool.gather plan.invocation (last.jobs.map Prod.snd) = .ok i ∧
      (i.result? .arm64).map Compilation.outcome = some (.failed "cancelled" (some (-15))) ∧
      (i.result? .x86).map Compilation.outcome = some (.failed "cancelled" none) ∧
      last.workshop.alive = [] := by
  have followed : (sampleBuilder.follow pollingCompiler (.text "debug") (.opening Sample.tree false)
      calledOffInPoll).map (fun r => (r.2.isOver, (Pool.gather r.1.invocation (r.2.jobs.map Prod.snd)).toOption.map
        fun i => ((i.result? .arm64).map Compilation.outcome, (i.result? .x86).map Compilation.outcome))) =
      some (true, some (some (.failed "cancelled" (some (-15))), some (.failed "cancelled" none))) := by
    decide +kernel
  obtain ⟨⟨plan, last⟩, walked, facts⟩ := Option.map_eq_some_iff.mp followed
  obtain ⟨finished, results⟩ := Prod.mk.inj facts
  have runs := follow_runs walked
  have fit : sampleBuilder.Fit pollingCompiler (.text "debug") Sample.tree :=
    behaviours_fit ⟨_, _, _, Sample.resolved⟩ sample_wellFormed (fun l => Clear.of_entries (by decide))
      (by decide) sample_nameable (by decide +kernel) (fun _ => @sampleBehaviour_text [1] 0 ⟨_, rfl⟩)
      (by decide +kernel) (by decide +kernel)
  obtain ⟨i, gathered, _, _, _, off⟩ := (invocation_called_off fit runs).2.2 finished
  simp only [gathered] at results
  obtain ⟨first, second⟩ := Prod.mk.inj (Option.some.inj results)
  exact ⟨plan, last, i, runs, gathered, first, second, off.alive⟩

-- The first job has begun when the build is called off, and breaks on a name that no file can have.
def breakingOff : List Move := .advance 0 :: .cancel :: List.replicate 3 (.advance 0) ++ [.advance 1]

theorem called_off_build_raises :
    (∃ data, Config.resolve Sample.tree none data = .ok (Sample.builderWith "/t" "a\x00.so").config) ∧
    ∃ plan last cause, (Sample.builderWith "/t" "a\x00.so").Runs (sampleCompiler 1 0) (.text "debug")
        (.opening Sample.tree false) plan breakingOff last ∧
      last.isOver = true ∧ Pool.gather plan.invocation (last.jobs.map Prod.snd) = .error cause := by
  refine ⟨⟨Sample.settingsWith "/t" "a\x00.so", ok_of_toOption (by decide +kernel)⟩, ?_⟩
  have followed : ((Sample.builderWith "/t" "a\x00.so").follow (sampleCompiler 1 0) (.text "debug")
      (.opening Sample.tree false) breakingOff).map (fun r => (r.2.isOver,
        (Pool.gather r.1.invocation (r.2.jobs.map Prod.snd)).toOption.isNone)) = some (true, true) := by
    decide +kernel
  obtain ⟨⟨plan, last⟩, walked, facts⟩ := Option.map_eq_some_iff.mp followed
  obtain ⟨finished, none_⟩ := Prod.mk.inj facts
  cases outcome : Pool.gather plan.invocation (last.jobs.map Prod.snd) with
  | ok i => simp [outcome, Except.toOption] at none_
  | error cause => exact ⟨plan, last, cause, follow_runs walked, finished, outcome⟩

end AbiBuild.Build
