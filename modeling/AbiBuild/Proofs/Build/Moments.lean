import AbiBuild.Proofs.Build.Shadows

namespace AbiBuild.Build
open FileTree

namespace Pool

def after (compiler : Compiler) (p : Pool) (moves : List Move) : Pool := moves.foldl (apply compiler) p

-- Among the moves is one with which the job leaves the phase, in the workshop as it then is.
def Leaves (compiler : Compiler) (p : Pool) (moves : List Move) (j : Job) (phase : Phase) (w : Workshop) : Prop :=
  ∃ front index rest, moves = front ++ .advance index :: rest ∧
    (p.after compiler front).jobs[index]? = some (j, phase) ∧ (p.after compiler front).workshop = w

end Pool

def Move.isAdvance : Move → Bool
  | .advance _ => true
  | .cancel => false

-- Steps that a job may still take once its process has been asked for.
def Job.launched (j : Job) (compiler : Compiler) : Nat :=
  match compiler j.command with
  | .started process => process.polls + 3
  | .refused _ => 0

def Job.ahead (j : Job) (compiler : Compiler) (phase : Phase) : Nat :=
  if stage phase < 6 then 6 - stage phase + j.launched compiler else remaining phase

def Pool.ahead (compiler : Compiler) (p : Pool) : Nat :=
  (p.jobs.map fun s => s.1.ahead compiler s.2).foldr (· + ·) 0

variable {compiler : Compiler} {j k : Job} {phase next : Phase} {w v : Workshop} {p q last : Pool}
  {moves front rest : List Move} {workers index : Nat} {jobs : List Job}

theorem reaches_split (reached : Pool.Reaches compiler workers p (front ++ rest) last) :
    Pool.Reaches compiler workers p front (p.after compiler front) ∧
      Pool.Reaches compiler workers (p.after compiler front) rest last := by
  induction front generalizing p with
  | nil => exact ⟨.nil _, reached⟩
  | cons move others ih =>
    cases reached with
    | cons may later =>
      obtain ⟨first, second⟩ := ih later
      exact ⟨.cons may first, second⟩

theorem leaves_parts (reached : Pool.Reaches compiler workers p moves last)
    (leaves : p.Leaves compiler moves j phase w) : ∃ (q : Pool) (front : List Move) (index : Nat) (rest : List Move),
      Pool.Reaches compiler workers p front q ∧ q.jobs[index]? = some (j, (j.step compiler phase w).1) ∧
      q.workshop = (j.step compiler phase w).2 ∧ Pool.Reaches compiler workers q rest last := by
  obtain ⟨front, index, rest, rfl, found, same⟩ := leaves
  have regroup : front ++ .advance index :: rest = (front ++ [.advance index]) ++ rest := by simp
  rw [regroup] at reached
  obtain ⟨before, onward⟩ := reaches_split reached
  have stepped : p.after compiler (front ++ [.advance index]) =
      ⟨(p.after compiler front).jobs.set index (j, (j.step compiler phase w).1),
        (j.step compiler phase w).2⟩ := by
    rw [← same, ← Pool.apply_advance found]
    simp [Pool.after]
  refine ⟨_, _, index, rest, before, ?_, ?_, onward⟩
  · rw [stepped]
    simp only
    rw [List.getElem?_set_self (List.getElem?_eq_some_iff.mp found).1]
  · rw [stepped]

theorem arrived (reached : Pool.Reaches compiler workers p moves last) (member : (j, phase) ∈ last.jobs) :
    (j, phase) ∈ p.jobs ∨ ∃ before w, before.isOver = false ∧ (j.step compiler before w).1 = phase ∧
      p.Leaves compiler moves j before w := by
  -- Induction on the run. Either the job was in the phase from the beginning, or it has stepped into it.
  induction reached with
  | nil => exact .inl member
  | @cons p last move others may later ih =>
    rcases ih member with start | ⟨before, w, notOver, stepped, front, index, rest, rfl, found, same⟩
    · cases move with
      | cancel => exact .inl start
      | advance index =>
        cases found : p.jobs[index]? with
        | none =>
          rw [Pool.apply_idle found] at start
          exact .inl start
        | some s =>
          obtain ⟨k, before⟩ := s
          rw [Pool.apply_advance found] at start
          rcases List.mem_or_eq_of_mem_set start with old | new
          · exact .inl old
          · obtain ⟨rfl, rfl⟩ := Prod.mk.inj new
            simp only [Pool.allowed, Pool.mayAdvance, found, Bool.and_eq_true, Bool.not_eq_true'] at may
            exact .inr ⟨before, _, may.1, rfl, [], index, others, rfl, found, rfl⟩
    · exact .inr ⟨before, w, notOver, stepped, move :: front, index, rest, rfl, found, same⟩

theorem Pool.Leaves.append (leaves : p.Leaves compiler moves j phase w) (rest : List Move) :
    p.Leaves compiler (moves ++ rest) j phase w := by
  obtain ⟨front, index, others, rfl, found, same⟩ := leaves
  exact ⟨front, index, others ++ rest, by simp, found, same⟩

theorem acts_built {t u : FileTree} {result : Compilation} (acts : j.Acts compiler phase t (.ended result) u)
    (good : result.ok = true) (notOver : phase.isOver = false) :
    ∃ process artifacts, phase = .unmarking process artifacts := by
  have kept : ¬ j.Lost (.ended result) := by
    rintro (⟨cause, same⟩ | ⟨diagnostic, status, duration, same⟩)
    · cases same
    · cases same
      cases good
  cases acts with
  | built removed => exact ⟨_, _, rfl⟩
  | finished done =>
    rw [notOver] at done
    cases done
  | _ => exact absurd (by assumption) kept

theorem acts_unmarking {t u : FileTree} {process : Process} {artifacts : List (String × FilePath)}
    (acts : j.Acts compiler phase t (.unmarking process artifacts) u) (notOver : phase.isOver = false) :
    phase = .exited process ∧ process.status = 0 := by
  have kept : ¬ j.Lost (.unmarking process artifacts) := fun lost => by cases Lost.isOver lost
  cases acts with
  | collected _ exit => exact ⟨rfl, exit⟩
  | finished done => cases done
  | _ => exact absurd (by assumption) kept

theorem acts_stopping {t u : FileTree} {process : Process} (acts : j.Acts compiler phase t (.stopping process) u) :
    ∃ polls, phase = .running process polls := by
  have kept : ¬ j.Lost (.stopping process) := fun lost => by cases Lost.isOver lost
  cases acts with
  | called => exact ⟨_, rfl⟩
  | finished done => cases done
  | _ => exact absurd (by assumption) kept

theorem start_ready {s : Job × Phase} (member : s ∈ (Pool.start jobs v).jobs) : s.2 = .ready := by
  obtain ⟨k, _, rfl⟩ := List.mem_map.mp member
  rfl

theorem started_compatible (compiler : Compiler) (jobs : List Job) :
    Compatible compiler jobs (fun _ => True) (fun j phase _ => j.Started compiler phase) :=
  ⟨by simp, fun _ _ _ _ _ own => acts_started own (step_acts _ _ _ _),
    fun _ _ _ _ _ _ _ _ _ _ kept => kept, by simp, fun _ _ _ _ _ own => own⟩

theorem start_started (compiler : Compiler) (jobs : List Job) (w : Workshop) :
    Sound jobs (fun _ => True) (fun j phase _ => j.Started compiler phase) (Pool.start jobs w) :=
  start_sound trivial fun _ _ _ own => by cases own

theorem leaves_started {process : Process} (distinct : (jobs.map Job.abi).Nodup)
    (reached : Pool.Reaches compiler workers (Pool.start jobs v) moves last)
    (leaves : (Pool.start jobs v).Leaves compiler moves j phase w) (own : phase.process? = some process) :
    compiler j.command = .started process := by
  obtain ⟨front, index, rest, rfl, found, same⟩ := leaves
  obtain ⟨earlier, _⟩ := reaches_split reached
  exact (reaches_sound (started_compatible compiler jobs) distinct (start_started compiler jobs v)
    earlier).own _ (List.mem_of_getElem? found) process own

theorem built_exited {result : Compilation} (distinct : (jobs.map Job.abi).Nodup)
    (reached : Pool.Reaches compiler workers (Pool.start jobs v) moves last)
    (member : (j, .ended result) ∈ last.jobs) (good : result.ok = true) :
    ∃ process w, compiler j.command = .started process ∧ process.status = 0 ∧
      (Pool.start jobs v).Leaves compiler moves j (.exited process) w := by
  rcases arrived reached member with start | ⟨before, w, notOver, stepped, leaves⟩
  · cases start_ready start
  · have built := step_acts j compiler before w
    rw [stepped] at built
    obtain ⟨process, artifacts, rfl⟩ := acts_built built good notOver
    have started := leaves_started distinct reached leaves rfl
    obtain ⟨front, index, rest, rfl, found, same⟩ := leaves
    obtain ⟨earlier, _⟩ := reaches_split reached
    rcases arrived earlier (List.mem_of_getElem? found) with start | ⟨before, w, notOver, stepped, leaves⟩
    · cases start_ready start
    · have collected := step_acts j compiler before w
      rw [stepped] at collected
      obtain ⟨rfl, exit⟩ := acts_unmarking collected notOver
      exact ⟨process, w, started, exit, leaves.append _⟩

theorem phase_stays {P : Phase → Prop} (closed : ∀ phase w, P phase → P (j.step compiler phase w).1)
    (distinct : (jobs.map Job.abi).Nodup) (known : p.jobs.map Prod.fst = jobs)
    (found : p.jobs[index]? = some (j, phase)) (holds : P phase)
    (reached : Pool.Reaches compiler workers p moves last) (member : (j, next) ∈ last.jobs) : P next := by
  have compatible : Compatible compiler jobs (fun _ => True) (fun k phase _ => k = j → P phase) := by
    refine ⟨by simp, ?_, fun _ _ _ _ _ _ _ _ _ other kept => kept, by simp, fun _ _ _ _ _ own => own⟩
    rintro k _ phase w _ own rfl
    exact closed phase w (own rfl)
  have sound : Sound jobs (fun _ => True) (fun k phase _ => k = j → P phase) p := by
    refine ⟨known, trivial, fun s inside own => ?_⟩
    have anything : Sound jobs (fun _ => True) (fun _ _ _ => True) p := ⟨known, trivial, by simp⟩
    obtain ⟨place, there⟩ := List.mem_iff_getElem?.mp inside
    by_cases same : place = index
    · subst same
      rw [found] at there
      cases there
      exact holds
    · exact absurd (congrArg Job.abi own) (anything.apart distinct there found same)
  exact (reaches_sound compatible distinct sound reached).own _ member rfl

theorem leaves_stays {P : Phase → Prop} (closed : ∀ phase w, P phase → P (j.step compiler phase w).1)
    (distinct : (jobs.map Job.abi).Nodup) (reached : Pool.Reaches compiler workers (Pool.start jobs v) moves last)
    (leaves : (Pool.start jobs v).Leaves compiler moves j phase w) (first : P (j.step compiler phase w).1)
    (member : (j, next) ∈ last.jobs) : P next := by
  obtain ⟨q, front, index, rest, before, found, _, onward⟩ := leaves_parts reached leaves
  exact phase_stays closed distinct (reaches_jobs distinct before) found first onward member

theorem exited_built {process : Process} (distinct : (jobs.map Job.abi).Nodup)
    (reached : Pool.Reaches compiler workers (Pool.start jobs v) moves last) (exit : process.status = 0)
    (leaves : (Pool.start jobs v).Leaves compiler moves j (.exited process) w)
    (member : (j, next) ∈ last.jobs) (finished : next.isOver = true) :
    (∃ cause, next = .broken cause) ∨ ∃ result, next = .ended result ∧ result.ok = true := by
  have closed : ∀ phase w, ((∃ artifacts, phase = .unmarking process artifacts) ∨ (∃ cause, phase = .broken cause) ∨
      ∃ result, phase = .ended result ∧ result.ok = true) →
      ((∃ artifacts, (j.step compiler phase w).1 = .unmarking process artifacts) ∨
        (∃ cause, (j.step compiler phase w).1 = .broken cause) ∨
        ∃ result, (j.step compiler phase w).1 = .ended result ∧ result.ok = true) := by
    rintro phase w (⟨artifacts, rfl⟩ | ⟨cause, rfl⟩ | ⟨result, rfl, good⟩)
    · simp only [Job.step, Job.unmark]
      split
      · exact .inr (.inl ⟨_, rfl⟩)
      · exact .inr (.inr ⟨_, rfl, rfl⟩)
    · exact .inr (.inl ⟨cause, rfl⟩)
    · exact .inr (.inr ⟨result, rfl, good⟩)
  have first : ((∃ artifacts, (j.step compiler (.exited process) w).1 = .unmarking process artifacts) ∨
      (∃ cause, (j.step compiler (.exited process) w).1 = .broken cause) ∨
      ∃ result, (j.step compiler (.exited process) w).1 = .ended result ∧ result.ok = true) := by
    simp only [Job.step]
    generalize taken : j.judge process w = r
    cases judges taken with
    | failed _ failed => exact (failed exit).elim
    | collected => exact .inl ⟨_, rfl⟩
    | _ => exact .inr (.inl ⟨_, rfl⟩)
  rcases leaves_stays closed distinct reached leaves first member with ⟨artifacts, rfl⟩ | broken | built
  · cases finished
  · exact .inl broken
  · exact .inr built

theorem ahead_over (finished : phase.isOver = true) : j.ahead compiler phase = 0 := by
  cases phase with
  | ended result => rfl
  | broken cause => rfl
  | _ => cases finished

theorem step_ahead (notOver : phase.isOver = false) :
    j.ahead compiler (j.step compiler phase w).1 < j.ahead compiler phase := by
  by_cases early : stage phase < 6
  · have before : j.ahead compiler phase = 6 - stage phase + j.launched compiler := by
      unfold Job.ahead
      rw [if_pos early]
    rcases @step_stage compiler j phase w early with finished | further
    · rw [ahead_over finished]
      omega
    · by_cases last : stage phase + 1 < 6
      · have after : j.ahead compiler (j.step compiler phase w).1 =
            6 - (stage phase + 1) + j.launched compiler := by
          unfold Job.ahead
          rw [further, if_pos last]
        omega
      · -- The process has been asked for and has started.
        have asked : phase = .starting := by
          cases phase <;> simp [stage] at early last ⊢
        subst asked
        rw [before]
        unfold Job.launched
        simp only [Job.step]
        generalize taken : j.launch compiler w = r
        cases launches taken with
        | unfit =>
          rw [ahead_over rfl]
          exact Nat.add_pos_left Nat.zero_lt_one _
        | refused _ answer => simp [answer, Job.ahead, stage, remaining]
        | started _ answer => simp [answer, Job.ahead, stage, remaining]
  · have late : stage phase = 6 := by
      have bound : stage phase ≤ 6 := by cases phase <;> simp [stage]
      omega
    obtain ⟨still, less⟩ := @step_remaining compiler j phase w late
    have some_ : 0 < remaining phase := by
      cases phase with
      | running process polls => simp [remaining]
      | stopping process => simp [remaining]
      | exited process => simp [remaining]
      | unmarking process artifacts => simp [remaining]
      | ended result => cases notOver
      | broken cause => cases notOver
      | _ => cases late
    unfold Job.ahead
    rw [late, still]
    simp only [Nat.lt_irrefl, if_false]
    omega

theorem total_set {sizes : List Nat} {new old : Nat} (there : sizes[index]? = some old) (less : new < old) :
    (sizes.set index new).foldr (· + ·) 0 < sizes.foldr (· + ·) 0 := by
  induction sizes generalizing index with
  | nil => simp at there
  | cons size others ih =>
    cases index with
    | zero =>
      cases there
      simp only [List.set_cons_zero, List.foldr_cons]
      omega
    | succ index =>
      have inner := @ih index (by simpa using there)
      simp only [List.set_cons_succ, List.foldr_cons]
      omega

-- However the steps fall, there are only so many of them.
theorem reaches_bounded (reached : Pool.Reaches compiler workers p moves last) :
    moves.countP Move.isAdvance + last.ahead compiler ≤ p.ahead compiler := by
  induction reached with
  | nil => simp
  | @cons p last move others may later ih =>
    cases move with
    | cancel =>
      have same : (p.apply compiler .cancel).ahead compiler = p.ahead compiler := rfl
      rw [same] at ih
      simpa [Move.isAdvance] using ih
    | advance index =>
      simp only [Pool.allowed, Pool.mayAdvance] at may
      cases found : p.jobs[index]? with
      | none => simp [found] at may
      | some s =>
        obtain ⟨j, phase⟩ := s
        simp only [found, Bool.and_eq_true, Bool.not_eq_true'] at may
        have there : (p.jobs.map fun s => s.1.ahead compiler s.2)[index]? = some (j.ahead compiler phase) := by
          simp [found]
        have nearer := total_set there (@step_ahead compiler j phase p.workshop may.1)
        rw [Pool.apply_advance found] at ih
        simp only [Pool.ahead, List.map_set] at ih
        simp only [Pool.ahead, List.countP_cons, Move.isAdvance, if_true]
        omega

-- As long as not all jobs are over, one of them may go on: one that is under way, or else the next to begin.
theorem mayAdvance_some (some_ : 0 < workers) (notOver : p.isOver = false) :
    ∃ index, p.mayAdvance workers index = true := by
  by_cases busy : ∃ s ∈ p.jobs, Pool.hasBegun s.2 = true ∧ s.2.isOver = false
  · obtain ⟨⟨j, phase⟩, member, begun, working⟩ := busy
    obtain ⟨index, found⟩ := List.mem_iff_getElem?.mp member
    refine ⟨index, ?_⟩
    simp only [Pool.mayAdvance, found]
    simp only at begun working
    simp [begun, working]
  · have done : ∀ s ∈ p.jobs, Pool.hasBegun s.2 = true → s.2.isOver = true := by
      intro s member begun
      by_contra working
      exact busy ⟨s, member, begun, by simpa using working⟩
    have waiting : ∃ s ∈ p.jobs, (!Pool.hasBegun s.2) = true := by
      unfold Pool.isOver at notOver
      obtain ⟨s, member, working⟩ := List.all_eq_false.mp notOver
      refine ⟨s, member, ?_⟩
      cases begun : Pool.hasBegun s.2 with
      | true => exact absurd (done s member begun) working
      | false => rfl
    obtain ⟨⟨j, phase⟩, found⟩ := Option.isSome_iff_exists.mp (List.find?_isSome.mpr waiting)
    obtain ⟨unbegun, front, rest, split_, before⟩ := List.find?_eq_some_iff_append.mp found
    have idle : p.busy = 0 := by
      unfold Pool.busy
      rw [List.length_eq_zero_iff, List.filter_eq_nil_iff]
      intro s member working
      simp only [Bool.and_eq_true, Bool.not_eq_true'] at working
      rw [done s member working.1] at working
      cases working.2
    have ready : phase = .ready := by
      cases phase <;> first | rfl | cases unbegun
    subst ready
    refine ⟨front.length, ?_⟩
    have here : p.jobs[front.length]? = some (j, .ready) := by simp [split_]
    have begunBefore : ((p.jobs.take front.length).all fun s => Pool.hasBegun s.2) = true := by
      rw [split_, List.take_left, List.all_eq_true]
      exact fun s member => by simpa using before s member
    simp only [Pool.mayAdvance, here, begunBefore, idle]
    simp [Phase.isOver, some_]

end AbiBuild.Build
