import AbiBuild.Proofs.Build.Invocations
import AbiBuild.Proofs.Build.Moments

namespace AbiBuild.Build
open FileTree

def Phase.isRunning : Phase → Bool
  | .running .. | .stopping _ => true
  | _ => false

-- What is alive after a step, from what was and from whether the job's process runs before and after.
def aliveAfter (abi : Abi) (before after : Bool) (alive : List Abi) : List Abi :=
  match before, after with
  | true, false => alive.erase abi
  | false, true => alive ++ [abi]
  | _, _ => alive

def Job.Uncalled (j : Job) (compiler : Compiler) : Prop :=
  ∀ process, compiler j.command = .started process → process.cancelOnPoll = none

variable {compiler : Compiler} {j k : Job} {phase next : Phase} {w v : Workshop} {p last : Pool}
  {moves : List Move} {workers : Nat} {jobs : List Job} {r : Trail} {abi other : Abi}
  {before after : Bool} {alive : List Abi}

theorem afterPreparing_alive (quiet : next.isRunning = false) :
    (j.afterPreparing r next w).2.alive = w.alive ∧ (j.afterPreparing r next w).1.isRunning = false := by
  unfold Job.afterPreparing
  split
  · exact ⟨rfl, quiet⟩
  · split <;> exact ⟨rfl, rfl⟩

theorem step_alive : (j.step compiler phase w).2.alive =
    aliveAfter j.abi phase.isRunning (j.step compiler phase w).1.isRunning w.alive := by
  cases phase with
  | ready =>
    simp only [Job.step]
    split <;> rfl
  | discarding =>
    simp only [Job.step]
    rw [(afterPreparing_alive rfl).1, (afterPreparing_alive rfl).2]
    rfl
  | makingHome =>
    simp only [Job.step]
    rw [(afterPreparing_alive rfl).1, (afterPreparing_alive rfl).2]
    rfl
  | clearing =>
    simp only [Job.step]
    rw [(afterPreparing_alive rfl).1, (afterPreparing_alive rfl).2]
    rfl
  | marking =>
    simp only [Job.step]
    rw [(afterPreparing_alive rfl).1, (afterPreparing_alive rfl).2]
    rfl
  | starting =>
    simp only [Job.step]
    generalize taken : j.launch compiler w = r
    cases launches taken <;> rfl
  | running process polls =>
    simp only [Job.step, Job.poll]
    split
    · split <;> rfl
    · rfl
  | stopping process =>
    simp only [Job.step]
    generalize taken : j.stop process w = r
    cases stops taken <;> rfl
  | exited process =>
    simp only [Job.step]
    generalize taken : j.judge process w = r
    cases judges taken <;> rfl
  | unmarking process artifacts =>
    simp only [Job.step, Job.unmark]
    split <;> rfl
  | ended result => rfl
  | broken cause => rfl

theorem aliveAfter_nodup (nodup : alive.Nodup) (known : abi ∈ alive ↔ before = true) :
    (aliveAfter abi before after alive).Nodup := by
  unfold aliveAfter
  split
  · exact nodup.erase _
  · have missing : abi ∉ alive := fun there => by simp at known; exact known there
    exact List.nodup_append.mpr ⟨nodup, by simp, fun a present b own => by
      rw [List.mem_singleton.mp own]
      rintro rfl
      exact missing present⟩
  · exact nodup

theorem aliveAfter_own (nodup : alive.Nodup) (known : abi ∈ alive ↔ before = true) :
    abi ∈ aliveAfter abi before after alive ↔ after = true := by
  unfold aliveAfter
  split
  · simp [nodup.not_mem_erase]
  · simp
  · rename_i same
    cases before <;> cases after <;> simp_all

theorem aliveAfter_other (apart : other ≠ abi) :
    other ∈ aliveAfter abi before after alive ↔ other ∈ alive := by
  unfold aliveAfter
  split
  · exact List.mem_erase_of_ne apart
  · simp [apart]
  · rfl

-- At any moment the living processes are those of the jobs whose processes run, each counted once.
theorem reaches_alive (distinct : (jobs.map Job.abi).Nodup) (none_ : w.alive = [])
    (reached : Pool.Reaches compiler workers (Pool.start jobs w) moves last) :
    last.workshop.alive.Nodup ∧ ∀ abi, abi ∈ last.workshop.alive ↔
      ∃ s ∈ last.jobs, s.1.abi = abi ∧ s.2.isRunning = true := by
  have compatible : Compatible compiler jobs
      (fun w => w.alive.Nodup ∧ ∀ abi ∈ w.alive, ∃ j ∈ jobs, j.abi = abi)
      (fun j phase w => j.abi ∈ w.alive ↔ phase.isRunning = true) := by
    refine ⟨?_, ?_, ?_, fun w common => common, fun _ _ _ _ _ own => own⟩
    · intro j member phase w ⟨nodup, known⟩ own
      rw [step_alive]
      refine ⟨aliveAfter_nodup nodup own, fun abi present => ?_⟩
      by_cases same : abi = j.abi
      · exact ⟨j, member, same.symm⟩
      · exact known abi ((aliveAfter_other same).mp present)
    · intro j member phase w ⟨nodup, known⟩ own
      rw [step_alive]
      exact aliveAfter_own nodup own
    · intro j member phase w _ own k inside apart other kept
      rw [step_alive, aliveAfter_other apart]
      exact kept
  have start : Sound jobs (fun w => w.alive.Nodup ∧ ∀ abi ∈ w.alive, ∃ j ∈ jobs, j.abi = abi)
      (fun j phase w => j.abi ∈ w.alive ↔ phase.isRunning = true) (Pool.start jobs w) :=
    start_sound (by simp [none_]) fun j _ => by simp [none_, Phase.isRunning]
  obtain ⟨same, ⟨nodup, known⟩, own⟩ := reaches_sound compatible distinct start reached
  refine ⟨nodup, fun abi => ⟨fun present => ?_, ?_⟩⟩
  · obtain ⟨j, member, rfl⟩ := known abi present
    rw [← same] at member
    obtain ⟨s, inside, rfl⟩ := List.mem_map.mp member
    exact ⟨s, inside, rfl, (own s inside).mp present⟩
  · rintro ⟨s, inside, rfl, running⟩
    exact (own s inside).mpr running

theorem over_alive (distinct : (jobs.map Job.abi).Nodup) (none_ : w.alive = [])
    (reached : Pool.Reaches compiler workers (Pool.start jobs w) moves last) (finished : last.isOver = true) :
    last.workshop.alive = [] := by
  refine List.eq_nil_iff_forall_not_mem.mpr fun abi present => ?_
  obtain ⟨s, inside, _, running⟩ := ((reaches_alive distinct none_ reached).2 abi).mp present
  have done := List.all_eq_true.mp finished s inside
  cases phase : s.2 <;> simp [phase, Phase.isOver, Phase.isRunning] at done running

theorem reaches_calls (distinct : (jobs.map Job.abi).Nodup)
    (apart : ∀ j ∈ jobs, ∀ k ∈ jobs, j.call = k.call → j.abi = k.abi) (none_ : w.calls = [])
    (reached : Pool.Reaches compiler workers (Pool.start jobs w) moves last) :
    last.workshop.calls.Nodup ∧ (∀ c ∈ last.workshop.calls, ∃ j ∈ jobs, c = j.call) ∧
      ∀ s ∈ last.jobs, stage s.2 < 6 → s.1.call ∉ last.workshop.calls := by
  have compatible : Compatible compiler jobs
      (fun w => w.calls.Nodup ∧ ∀ c ∈ w.calls, ∃ j ∈ jobs, c = j.call)
      (fun j phase w => stage phase < 6 → j.call ∉ w.calls) := by
    refine ⟨?_, ?_, ?_, fun w common => common, fun _ _ _ _ _ own => own⟩
    · intro j member phase w ⟨nodup, known⟩ own
      rw [(step_beside j compiler phase w).calls]
      rcases callsIn_parts j phase with none_ | ⟨rfl, asks⟩
      · rw [none_, List.append_nil]
        exact ⟨nodup, known⟩
      · rw [asks]
        refine ⟨List.nodup_append.mpr ⟨nodup, by simp, fun c placed d asked => ?_⟩, fun c placed => ?_⟩
        · rw [List.mem_singleton.mp asked]
          rintro rfl
          exact own (by simp [stage]) placed
        · rcases List.mem_append.mp placed with earlier | asked
          · exact known c earlier
          · exact ⟨j, member, List.mem_singleton.mp asked⟩
    · intro j _ phase w _ own early
      obtain ⟨before, none_⟩ := callsIn_early early
      rw [(step_beside j compiler phase w).calls, none_, List.append_nil]
      exact own before
    · intro j member phase w _ _ k inside differs other kept early
      rw [(step_beside j compiler phase w).others fun same => differs (apart k inside j member same)]
      exact kept early
  have start : Sound jobs (fun w => w.calls.Nodup ∧ ∀ c ∈ w.calls, ∃ j ∈ jobs, c = j.call)
      (fun j phase w => stage phase < 6 → j.call ∉ w.calls) (Pool.start jobs w) :=
    start_sound (by simp [none_]) fun j _ _ => by simp [none_]
  obtain ⟨_, ⟨nodup, known⟩, own⟩ := reaches_sound compatible distinct start reached
  exact ⟨nodup, known, own⟩

-- The build is called off by whoever asks for it, by a process that says so, or not at all.
theorem reaches_uncalled (distinct : (jobs.map Job.abi).Nodup)
    (uncalled : ∀ j ∈ jobs, j.Uncalled compiler) (never : .cancel ∉ moves)
    (calm : w.cancelled = false)
    (reached : Pool.Reaches compiler workers (Pool.start jobs w) moves last) :
    last.workshop.cancelled = false := by
  have compatible := started_compatible compiler jobs
  have start := start_started compiler jobs w
  have calm' : (Pool.start jobs w).workshop.cancelled = false := calm
  generalize Pool.start jobs w = p at reached start calm'
  induction reached with
  | nil => exact calm'
  | @cons p last move others may later ih =>
    refine ih (fun there => never (List.mem_cons_of_mem _ there)) (apply_sound compatible distinct start _) ?_
    cases move with
    | cancel => exact absurd (List.mem_cons_self ..) never
    | advance index =>
      cases found : p.jobs[index]? with
      | none =>
        rw [Pool.apply_idle found]
        exact calm'
      | some s =>
        obtain ⟨j, phase⟩ := s
        have present := List.mem_of_getElem? found
        have quiet : ∀ process, phase.process? = some process → process.cancelOnPoll = none :=
          fun process own => uncalled j (start.mem present) process (start.own _ present process own)
        rw [Pool.apply_advance found]
        exact ((step_beside j compiler phase p.workshop).quiet quiet).trans calm'

end AbiBuild.Build
