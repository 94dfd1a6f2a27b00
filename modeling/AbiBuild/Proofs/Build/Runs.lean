import AbiBuild.Build.Native
import AbiBuild.Proofs.Build.Handling
import AbiBuild.Proofs.Build.Interference

namespace AbiBuild.Build
open FileTree

-- No more workers than jobs.
def Builder.workerCount (b : Builder) (jobs : List Job) : Nat :=
  match b.workers with
  | some n => min n.toNat jobs.length
  | none => jobs.length

def Workshop.noting (w : Workshop) (notices : List Notice) : Workshop :=
  { w with notices := w.notices ++ notices }

-- How an invocation may end, and with which jobs in which phases.
inductive Builder.Invokes (b : Builder) (compiler : Compiler) (variant : Value) (w : Workshop) :
    Except Failure Invocation → Workshop → List (Job × Phase) → Prop
  | unplanned (refused : b.plan w.tree variant = .error cause) :
      Invokes b compiler variant w (.error cause) w []
  | unworkable (planned : b.plan w.tree variant = .ok found) (refused : b.checkWorkers = .error cause) :
      Invokes b compiler variant w (.error cause) (w.noting found.notices) []
  | ran (planned : b.plan w.tree variant = .ok found) (workable : b.checkWorkers = .ok ())
      (reached : Pool.Reaches compiler (b.workerCount found.jobs)
        (Pool.start found.jobs (w.noting found.notices)) moves last)
      (finished : last.isOver = true) :
      Invokes b compiler variant w (Pool.gather found.invocation (last.jobs.map Prod.snd)) last.workshop
        last.jobs

def Phase.isEnded : Phase → Bool
  | .ended _ => true
  | _ => false

def Pool.raised (p : Pool) : Bool :=
  match p.jobs.find? fun s => !s.2.isEnded with
  | some (_, .broken _) => true
  | _ => false

-- A job that broke, with none before it but jobs that came to a result.
def Pool.Broke (p : Pool) (cause : Failure) : Prop :=
  ∃ front j rest, p.jobs = front ++ (j, .broken cause) :: rest ∧ ∀ s ∈ front, s.2.isEnded = true

-- Runs that are only called off from within, once a broken job has been found.
inductive Pool.Calm (compiler : Compiler) (workers : Nat) : Pool → Pool → Prop
  | nil : Calm compiler workers p p
  | advance (may : p.mayAdvance workers index = true)
      (later : Calm compiler workers (p.apply compiler (.advance index)) last) :
      Calm compiler workers p last
  | cancel (raised : p.raised = true) (later : Calm compiler workers (p.apply compiler .cancel) last) :
      Calm compiler workers p last

variable {compiler : Compiler} {j : Job} {phase next : Phase} {w : Workshop} {p last : Pool}
  {moves : List Move} {workers count : Nat} {front rest : List (Job × Phase)} {jobs : List Job}
  {b : Builder} {variant : Value}

theorem gather_ok {i r : Invocation} {phases : List Phase} (ran : Pool.gather i phases = .ok r) :
    Pool.breakage phases = none ∧ r = Pool.record i phases := by
  unfold Pool.gather at ran
  split at ran
  · cases ran
  · rename_i sound
    cases ran
    exact ⟨sound, rfl⟩

theorem gather_error {i : Invocation} {phases : List Phase} {cause : Failure}
    (failed : Pool.gather i phases = .error cause) : Pool.breakage phases = some cause := by
  unfold Pool.gather at failed
  split at failed
  · rename_i broke
    cases failed
    exact broke
  · cases failed

theorem step_over (finished : phase.isOver = true) : j.step compiler phase w = (phase, w) := by
  cases phase with
  | ended => rfl
  | broken => rfl
  | _ => cases finished

theorem steps_over (finished : phase.isOver = true) (count : Nat) :
    j.steps compiler count (phase, w) = (phase, w) := by
  induction count with
  | zero => rfl
  | succ count ih =>
    rw [Job.steps, step_over finished]
    exact ih

theorem steps_add (s : Phase × Workshop) (n m : Nat) :
    j.steps compiler (n + m) s = j.steps compiler m (j.steps compiler n s) := by
  induction n generalizing s with
  | zero => simp [Job.steps]
  | succ n ih =>
    rw [Nat.succ_add, Job.steps, Job.steps]
    exact ih _

def stage : Phase → Nat
  | .ready => 0
  | .discarding => 1
  | .makingHome => 2
  | .clearing => 3
  | .marking => 4
  | .starting => 5
  | _ => 6

def remaining : Phase → Nat
  | .running process polls => process.polls - polls + 3
  | .exited _ => 2
  | .stopping _ | .unmarking .. => 1
  | _ => 0

theorem afterPreparing_stage (j : Job) (r : Trail) (next : Phase) (w : Workshop) :
    (j.afterPreparing r next w).1.isOver = true ∨ stage (j.afterPreparing r next w).1 = stage next := by
  unfold Job.afterPreparing
  split
  · exact .inr rfl
  · split
    · exact .inl rfl
    · exact .inl rfl

theorem step_stage (early : stage phase < 6) : (j.step compiler phase w).1.isOver = true ∨
    stage (j.step compiler phase w).1 = stage phase + 1 := by
  cases phase with
  | ready =>
    simp only [Job.step]
    split
    · exact .inl rfl
    · exact .inr rfl
  | discarding => exact afterPreparing_stage _ _ _ _
  | makingHome => exact afterPreparing_stage _ _ _ _
  | clearing => exact afterPreparing_stage _ _ _ _
  | marking => exact afterPreparing_stage _ _ _ _
  | starting =>
    simp only [Job.step]
    generalize taken : j.launch compiler w = r
    cases launches taken with
    | unfit => exact .inl rfl
    | refused => exact .inl rfl
    | started => exact .inr rfl
  | _ => simp [stage] at early

theorem steps_stage (within : stage phase + count = 6) :
    (j.steps compiler count (phase, w)).1.isOver = true ∨
      stage (j.steps compiler count (phase, w)).1 = 6 := by
  induction count generalizing phase w with
  | zero => exact .inr within
  | succ count ih =>
    have early : stage phase < 6 := by omega
    rw [Job.steps]
    generalize taken : j.step compiler phase w = s
    obtain ⟨next, v⟩ := s
    rcases @step_stage compiler j phase w early with finished | further
    · rw [taken] at finished
      rw [steps_over finished]
      exact .inl finished
    · rw [taken] at further
      exact ih (by simp only at further; omega)

theorem step_remaining (late : stage phase = 6) :
    stage (j.step compiler phase w).1 = 6 ∧
      remaining (j.step compiler phase w).1 ≤ remaining phase - 1 := by
  cases phase with
  | running process polls =>
    simp only [Job.step, Job.poll]
    split
    · split
      · exact ⟨rfl, by simp [remaining]⟩
      · exact ⟨rfl, by simp only [remaining]; omega⟩
    · exact ⟨rfl, by simp only [remaining]; omega⟩
  | exited process =>
    simp only [Job.step]
    generalize taken : j.judge process w = r
    cases judges taken with
    | collected => exact ⟨rfl, by simp [remaining]⟩
    | _ => exact ⟨rfl, by simp [remaining]⟩
  | stopping process =>
    simp only [Job.step]
    generalize taken : j.stop process w = r
    cases stops taken with
    | _ => exact ⟨rfl, by simp [remaining]⟩
  | unmarking process artifacts =>
    simp only [Job.step, Job.unmark]
    split
    · exact ⟨rfl, by simp [remaining]⟩
    · exact ⟨rfl, by simp [remaining]⟩
  | ended result => exact ⟨rfl, by simp [Job.step, remaining]⟩
  | broken cause => exact ⟨rfl, by simp [Job.step, remaining]⟩
  | _ => cases late

theorem steps_remaining (late : stage phase = 6) (enough : remaining phase ≤ count) :
    (j.steps compiler count (phase, w)).1.isOver = true := by
  induction count generalizing phase w with
  | zero =>
    cases phase with
    | ended => rfl
    | broken => rfl
    | running => simp [remaining] at enough
    | exited => simp [remaining] at enough
    | stopping => simp [remaining] at enough
    | unmarking => simp [remaining] at enough
    | _ => cases late
  | succ count ih =>
    obtain ⟨still, less⟩ := @step_remaining compiler j phase w late
    have fewer : remaining (j.step compiler phase w).1 ≤ count := by omega
    rw [Job.steps]
    exact ih still fewer

theorem run_isOver (j : Job) (compiler : Compiler) (w : Workshop) : (j.run compiler w).1.isOver = true := by
  unfold Job.run
  generalize started : j.steps compiler 6 (.ready, w) = s
  obtain ⟨phase, v⟩ := s
  have early : (j.steps compiler 6 (.ready, w)).1.isOver = true ∨
      stage (j.steps compiler 6 (.ready, w)).1 = 6 := steps_stage rfl
  rw [started] at early
  rcases early with finished | late
  · simp only
    rw [steps_over finished]
    exact finished
  · refine steps_remaining late ?_
    cases phase with
    | running process polls => simp only [remaining, Job.stepsLeft]; omega
    | _ => simp [remaining, Job.stepsLeft]

theorem run_steps (j : Job) (compiler : Compiler) (w : Workshop) :
    ∃ count, j.run compiler w = j.steps compiler count (.ready, w) :=
  ⟨_, (steps_add _ _ _).symm⟩

theorem run_begun (j : Job) (compiler : Compiler) (w : Workshop) :
    ∃ count, j.steps compiler count (j.step compiler .ready w) = j.run compiler w := by
  obtain ⟨count, same⟩ := run_steps j compiler w
  have once : j.steps compiler (count + 1) (.ready, w) = j.run compiler w := by
    rw [steps_add, ← same]
    exact steps_over (run_isOver j compiler w) 1
  exact ⟨count, once⟩

theorem Pool.Calm.reaches (calm : Pool.Calm compiler workers p last) :
    ∃ moves, Pool.Reaches compiler workers p moves last := by
  induction calm with
  | nil => exact ⟨[], .nil _⟩
  | advance may _ ih =>
    obtain ⟨moves, reached⟩ := ih
    refine ⟨.advance _ :: moves, .cons ?_ reached⟩
    exact may
  | cancel _ _ ih =>
    obtain ⟨moves, reached⟩ := ih
    exact ⟨.cancel :: moves, .cons rfl reached⟩

theorem Pool.Calm.trans {middle : Pool} (first : Pool.Calm compiler workers p middle)
    (second : Pool.Calm compiler workers middle last) : Pool.Calm compiler workers p last := by
  induction first with
  | nil => exact second
  | advance may _ ih => exact .advance may (ih second)
  | cancel raised _ ih => exact .cancel raised (ih second)

theorem raised_broke (raised : p.raised = true) : ∃ cause, p.Broke cause := by
  unfold Pool.raised at raised
  split at raised
  · rename_i j cause found
    obtain ⟨_, front, rest, split_, before⟩ := List.find?_eq_some_iff_append.mp found
    exact ⟨cause, front, j, rest, split_, fun s member => by simpa using before s member⟩
  · cases raised

theorem isOver_of_isEnded (ended : phase.isEnded = true) : phase.isOver = true := by
  cases phase <;> first | rfl | cases ended

theorem apply_over {index : Nat} (found : p.jobs[index]? = some (j, phase)) (finished : phase.isOver = true) :
    p.apply compiler (.advance index) = p := by
  obtain ⟨bound, here⟩ := List.getElem?_eq_some_iff.mp found
  have kept := List.set_getElem_self bound
  rw [here] at kept
  rw [Pool.apply_advance found, step_over finished, kept]

-- What is over stays as it is, so only jobs behind the broken one go on.
theorem apply_broke {cause : Failure} {move : Move} (broke : p.Broke cause) :
    (p.apply compiler move).Broke cause := by
  obtain ⟨front, j, rest, split_, before⟩ := broke
  cases move with
  | cancel => exact ⟨front, j, rest, split_, before⟩
  | advance index =>
    cases found : p.jobs[index]? with
    | none =>
      rw [Pool.apply_idle found]
      exact ⟨front, j, rest, split_, before⟩
    | some s =>
      obtain ⟨k, phase⟩ := s
      cases finished : phase.isOver with
      | true =>
        rw [apply_over found finished]
        exact ⟨front, j, rest, split_, before⟩
      | false =>
        have behind : front.length < index := by
          rw [split_] at found
          rcases Nat.lt_trichotomy index front.length with less | rfl | more
          · rw [List.getElem?_append_left less] at found
            rw [isOver_of_isEnded (before _ (List.mem_of_getElem? found))] at finished
            cases finished
          · rw [List.getElem?_append_right (Nat.le_refl _), Nat.sub_self] at found
            cases found
            cases finished
          · exact more
        obtain ⟨further, rfl⟩ := Nat.exists_eq_add_of_lt behind
        rw [Pool.apply_advance found]
        refine ⟨front, j, rest.set further (k, (k.step compiler phase p.workshop).1), ?_,
          before⟩
        simp only [split_]
        rw [List.set_append_right _ _ (by omega),
          show front.length + further + 1 - front.length = further + 1 by omega, List.set_cons_succ]

theorem reaches_broke {cause : Failure} {moves : List Move} (broke : p.Broke cause)
    (reached : Pool.Reaches compiler workers p moves last) : last.Broke cause := by
  induction reached with
  | nil => exact broke
  | cons _ _ ih => exact ih (apply_broke broke)

theorem breakage_front {front : List Phase} {cause : Failure} {rest : List Phase}
    (before : ∀ phase ∈ front, phase.isEnded = true) :
    Pool.breakage (front ++ .broken cause :: rest) = some cause := by
  induction front with
  | nil => rfl
  | cons first others ih =>
    have later := ih fun phase member => before phase (List.mem_cons_of_mem _ member)
    have ended := before first (by simp)
    cases first with
    | ended result => exact later
    | _ => cases ended

theorem broke_breakage {cause : Failure} (broke : p.Broke cause) :
    Pool.breakage (p.jobs.map Prod.snd) = some cause := by
  obtain ⟨front, j, rest, split_, before⟩ := broke
  rw [split_, List.map_append, List.map_cons]
  refine breakage_front fun phase member => ?_
  obtain ⟨s, inside, rfl⟩ := List.mem_map.mp member
  exact before s inside

-- A build that nobody calls off either stays so to its end or is called off once a job has broken it.
theorem calm_split {Common : Workshop → Prop} {Own : Job → Phase → Workshop → Prop}
    (compatible : Compatible compiler jobs Common Own) (distinct : (jobs.map Job.abi).Nodup)
    (quiet : ∀ j ∈ jobs, ∀ phase w, Own j phase w → w.cancelled = false →
      (j.step compiler phase w).2.cancelled = false)
    (sound : Sound jobs Common Own p) (calm : p.workshop.cancelled = false) (run : Pool.Calm compiler workers p last) :
    (Sound jobs Common Own last ∧ last.workshop.cancelled = false) ∨
      ∃ middle moves, Sound jobs Common Own middle ∧ middle.workshop.cancelled = false ∧
        middle.raised = true ∧ Pool.Reaches compiler workers middle moves last := by
  induction run with
  | nil => exact .inl ⟨sound, calm⟩
  | @advance last p index may later ih =>
    refine ih (apply_sound compatible distinct sound _) ?_
    cases found : p.jobs[index]? with
    | none =>
      rw [Pool.apply_idle found]
      exact calm
    | some s =>
      obtain ⟨j, phase⟩ := s
      have present := List.mem_of_getElem? found
      rw [Pool.apply_advance found]
      exact quiet j (sound.mem present) phase p.workshop (sound.own _ present) calm
  | @cancel last p raised later ih =>
    obtain ⟨moves, reached⟩ := later.reaches
    exact .inr ⟨p, .cancel :: moves, sound, calm, raised, .cons rfl reached⟩

theorem hasBegun_of_isOver (finished : phase.isOver = true) : Pool.hasBegun phase = true := by
  cases phase <;> first | rfl | cases finished

theorem mayAdvance_next (some_ : 0 < workers) (notOver : phase.isOver = false)
    (before : ∀ s ∈ front, s.2.isOver = true) (after : ∀ s ∈ rest, s.2 = .ready) :
    Pool.mayAdvance workers ⟨front ++ (j, phase) :: rest, w⟩ front.length = true := by
  have found : (front ++ (j, phase) :: rest)[front.length]? = some (j, phase) := by simp
  unfold Pool.mayAdvance
  simp only [found, notOver, Bool.not_false, Bool.true_and]
  by_cases begun : Pool.hasBegun phase = true
  · simp [begun]
  · have idle : Pool.busy ⟨front ++ (j, phase) :: rest, w⟩ = 0 := by
      unfold Pool.busy
      rw [List.length_eq_zero_iff, List.filter_eq_nil_iff]
      intro s member working
      rw [Bool.and_eq_true] at working
      rcases List.mem_append.mp member with inFront | inRest
      · simp [before s inFront] at working
      · rcases List.mem_cons.mp inRest with rfl | inRest
        · exact begun working.1
        · rw [after s inRest] at working
          cases working.1
    have begunBefore : (front.all fun s => Pool.hasBegun s.2) = true := by
      rw [List.all_eq_true]
      exact fun s member => hasBegun_of_isOver (before s member)
    simp [begunBefore, idle, some_]

theorem apply_front (front rest : List (Job × Phase)) (j : Job) (phase : Phase) (w : Workshop) :
    Pool.apply compiler ⟨front ++ (j, phase) :: rest, w⟩ (.advance front.length) =
      ⟨front ++ (j, (j.step compiler phase w).1) :: rest, (j.step compiler phase w).2⟩ := by
  have found : (front ++ (j, phase) :: rest)[front.length]? = some (j, phase) := by simp
  rw [Pool.apply_advance found]
  simp

theorem steps_calm (some_ : 0 < workers) (before : ∀ s ∈ front, s.2.isOver = true)
    (after : ∀ s ∈ rest, s.2 = .ready) (count : Nat) (phase : Phase) (w : Workshop) :
    Pool.Calm compiler workers ⟨front ++ (j, phase) :: rest, w⟩
      ⟨front ++ (j, (j.steps compiler count (phase, w)).1) :: rest,
        (j.steps compiler count (phase, w)).2⟩ := by
  induction count generalizing phase w with
  | zero => exact .nil
  | succ count ih =>
    cases notOver : phase.isOver with
    | true =>
      rw [steps_over notOver]
      exact .nil
    | false =>
      refine .advance (mayAdvance_next some_ notOver before after) ?_
      rw [apply_front]
      exact ih (j.step compiler phase w).1 (j.step compiler phase w).2

theorem runInOrder_calm (some_ : 0 < workers) (before : ∀ s ∈ front, s.2.isOver = true)
    (w : Workshop) : Pool.Calm compiler workers ⟨front ++ jobs.map (fun j => (j, .ready)), w⟩
      ⟨front ++ jobs.zip (Pool.runInOrder compiler jobs w).1, (Pool.runInOrder compiler jobs w).2⟩ ∧
    (Pool.runInOrder compiler jobs w).1.length = jobs.length ∧
    ∀ phase ∈ (Pool.runInOrder compiler jobs w).1, phase.isOver = true := by
  induction jobs generalizing front w with
  | nil => exact ⟨.nil, rfl, by simp [Pool.runInOrder]⟩
  | cons j others ih =>
    have finished := run_isOver j compiler w
    obtain ⟨count, same⟩ := run_steps j compiler w
    have first : Pool.Calm compiler workers ⟨front ++ (j, .ready) :: others.map (fun j => (j, .ready)), w⟩
        ⟨front ++ (j, (j.run compiler w).1) :: others.map (fun j => (j, .ready)), (j.run compiler w).2⟩ := by
      rw [same]
      refine steps_calm some_ before ?_ _ _ _
      intro s member
      obtain ⟨_, _, rfl⟩ := List.mem_map.mp member
      rfl
    have longer : ∀ s ∈ front ++ [(j, (j.run compiler w).1)], s.2.isOver = true := by
      intro s member
      rcases List.mem_append.mp member with inFront | last
      · exact before s inFront
      · rw [List.mem_singleton.mp last]
        exact finished
    obtain ⟨later, length, allOver⟩ := ih longer (j.run compiler w).2
    refine ⟨first.trans ?_, by simp [Pool.runInOrder, length], ?_⟩
    · simpa [Pool.runInOrder, List.append_assoc] using later
    · intro phase member
      rcases List.mem_cons.mp member with rfl | inRest
      · exact finished
      · exact allOver phase inRest

theorem zip_snd {phases : List Phase} (length : phases.length = jobs.length) :
    (jobs.zip phases).map Prod.snd = phases := by
  rw [List.map_snd_zip]
  omega

theorem workerCount_pos (workable : b.checkWorkers = .ok ()) (nonempty : jobs ≠ []) :
    0 < b.workerCount jobs := by
  have length := List.length_pos_iff.mpr nonempty
  unfold Builder.checkWorkers at workable
  unfold Builder.workerCount
  split
  · rename_i n asked
    rw [asked] at workable
    simp only at workable
    split at workable
    · cases workable
    · omega
  · exact length

theorem inOrder_calm (workable : b.checkWorkers = .ok ()) (jobs : List Job) (w : Workshop) :
    Pool.Calm compiler (b.workerCount jobs) (Pool.start jobs w)
      ⟨jobs.zip (Pool.runInOrder compiler jobs w).1, (Pool.runInOrder compiler jobs w).2⟩ := by
  cases jobs with
  | nil => exact .nil
  | cons j others =>
    have some_ := workerCount_pos workable (List.cons_ne_nil j others)
    exact (@runInOrder_calm compiler _ [] (j :: others) some_ (by simp) w).1

theorem inOrder_over (compiler : Compiler) (jobs : List Job) (w : Workshop) :
    (Pool.runInOrder compiler jobs w).1.length = jobs.length ∧
      ∀ phase ∈ (Pool.runInOrder compiler jobs w).1, phase.isOver = true :=
  (@runInOrder_calm compiler 1 [] jobs Nat.one_pos (by simp) w).2

theorem inOrder_isOver (compiler : Compiler) (jobs : List Job) (w v : Workshop) :
    Pool.isOver ⟨jobs.zip (Pool.runInOrder compiler jobs w).1, v⟩ = true := by
  unfold Pool.isOver
  rw [List.all_eq_true]
  intro s member
  exact (inOrder_over compiler jobs w).2 s.2 (List.of_mem_zip member).2

theorem invoke_unplanned {cause : Failure} (crew : Crew) (refused : b.plan w.tree variant = .error cause) :
    b.invoke crew variant w = (.error cause, w) := by
  unfold Builder.invoke
  rw [refused]

theorem invoke_unworkable {plan : Builder.Plan} {cause : Failure} (crew : Crew)
    (planned : b.plan w.tree variant = .ok plan) (refused : b.checkWorkers = .error cause) :
    b.invoke crew variant w = (.error cause, w.noting plan.notices) := by
  unfold Builder.invoke
  rw [planned]
  simp only [refused]
  rfl

theorem invoke_ran {plan : Builder.Plan} (crew : Crew) (planned : b.plan w.tree variant = .ok plan)
    (workable : b.checkWorkers = .ok ()) : b.invoke crew variant w =
      (Pool.gather plan.invocation (crew.run plan.jobs (w.noting plan.notices)).1,
        (crew.run plan.jobs (w.noting plan.notices)).2) := by
  unfold Builder.invoke
  rw [planned]
  simp only [workable]
  rfl

-- The invocation whose jobs are done in order is one of those that may be.
theorem invoke_invokes (b : Builder) (compiler : Compiler) (variant : Value) (w : Workshop) :
    ∃ jobs, b.Invokes compiler variant w (b.invoke compiler variant w).1 (b.invoke compiler variant w).2
      jobs := by
  cases planned : b.plan w.tree variant with
  | error cause =>
    rw [invoke_unplanned _ planned]
    exact ⟨[], .unplanned planned⟩
  | ok plan =>
    cases workable : b.checkWorkers with
    | error cause =>
      rw [invoke_unworkable _ planned workable]
      exact ⟨[], .unworkable planned workable⟩
    | ok done =>
      obtain ⟨moves, reached⟩ :=
        (@inOrder_calm compiler b workable plan.jobs (w.noting plan.notices)).reaches
      have all := Builder.Invokes.ran planned workable reached (inOrder_isOver compiler _ _ _)
      rw [zip_snd (inOrder_over compiler _ _).1] at all
      rw [invoke_ran _ planned workable]
      exact ⟨_, all⟩

end AbiBuild.Build
