import AbiBuild.Proofs.Build.Runs

namespace AbiBuild.Build

def Pool.phases (p : Pool) : List Phase := p.jobs.map Prod.snd

-- Two ways to the end break on the same, if they break at all, and else they agree in everything.
structure Pool.Tallies (p q : Pool) : Prop where
  breakage : Pool.breakage p.phases = Pool.breakage q.phases
  same : Pool.breakage q.phases = none → p = q

-- The crew takes each job to its end in moves that so many workers may make, and the build is called off only where
-- whoever waits for the jobs has found one that broke.
def Crew.Works (crew : Crew) (compiler : Compiler) (workers : Nat) : Prop :=
  ∀ jobs w, (crew.run jobs w).1.length = jobs.length ∧
    (∀ phase ∈ (crew.run jobs w).1, phase.isOver = true) ∧
    Pool.Calm compiler workers (Pool.start jobs w) ⟨jobs.zip (crew.run jobs w).1, (crew.run jobs w).2⟩

variable {compiler : Compiler} {j : Job} {phase : Phase} {w : Workshop} {p q last : Pool} {workers index count : Nat}
  {front rest : List (Job × Phase)} {others jobs : List Job} {cause : Failure} {crew one two : Crew}
  {b : Builder} {variant : Value}

def Pool.waiting (jobs : List Job) : List (Job × Phase) := jobs.map fun j => (j, .ready)

theorem isOver_cases (finished : phase.isOver = true) : phase.isEnded = true ∨ ∃ cause, phase = .broken cause := by
  cases phase with
  | ended => exact .inl rfl
  | broken cause => exact .inr ⟨cause, rfl⟩
  | _ => cases finished

theorem Pool.Tallies.refl (p : Pool) : p.Tallies p := ⟨rfl, fun _ => rfl⟩

theorem mayAdvance_phase (may : p.mayAdvance workers index = true) :
    ∃ j phase, p.jobs[index]? = some (j, phase) ∧ phase.isOver = false ∧ (Pool.hasBegun phase = true ∨
      (∀ s ∈ p.jobs.take index, Pool.hasBegun s.2 = true) ∧ p.busy < workers) := by
  unfold Pool.mayAdvance at may
  cases found : p.jobs[index]? with
  | none => simp [found] at may
  | some s =>
    obtain ⟨j, phase⟩ := s
    simp only [found, Bool.and_eq_true, Bool.not_eq_true', Bool.or_eq_true, List.all_eq_true,
      decide_eq_true_eq] at may
    exact ⟨j, phase, rfl, may.1, may.2⟩

theorem solo_index (ended : ∀ s ∈ front, s.2.isOver = true)
    (may : Pool.mayAdvance 1 ⟨front ++ (j, phase) :: Pool.waiting others, w⟩ index = true) :
    index = front.length ∧ phase.isOver = false ∨
      ∃ k later, others = k :: later ∧ index = front.length + 1 ∧ phase.isOver = true := by
  obtain ⟨k, other, found, notOver, entitled⟩ := mayAdvance_phase may
  simp only at found entitled
  rcases Nat.lt_trichotomy index front.length with before | rfl | behind
  · rw [List.getElem?_append_left before] at found
    rw [ended _ (List.mem_of_getElem? found)] at notOver
    cases notOver
  · rw [List.getElem?_append_right (Nat.le_refl _), Nat.sub_self] at found
    cases found
    exact .inl ⟨rfl, notOver⟩
  · obtain ⟨further, rfl⟩ := Nat.exists_eq_add_of_lt behind
    rw [Nat.add_assoc] at found entitled
    rw [List.take_length_add_append, List.take_succ_cons] at entitled
    rw [List.getElem?_append_right (Nat.le_add_right _ _), Nat.add_sub_cancel_left, List.getElem?_cons_succ,
      Pool.waiting, List.getElem?_map] at found
    obtain ⟨next, there, same⟩ := Option.map_eq_some_iff.mp found
    cases same
    obtain ⟨begun, idle⟩ := entitled.resolve_left (by simp [Pool.hasBegun])
    have own : Pool.hasBegun phase = true := begun (j, phase) (by simp)
    have finished : phase.isOver = true := by
      by_contra working
      have busy : (j, phase) ∈ (front ++ (j, phase) :: Pool.waiting others).filter
          fun s => Pool.hasBegun s.2 && !s.2.isOver := by
        simp [own, Bool.eq_false_iff.mpr working]
      have some_ := List.length_pos_of_mem busy
      unfold Pool.busy at idle
      simp only at idle
      omega
    cases others with
    | nil => simp at there
    | cons first later =>
      refine .inr ⟨first, later, rfl, ?_, finished⟩
      cases further with
      | zero => rfl
      | succ further =>
        have impossible := begun (first, .ready) (by simp [Pool.waiting])
        cases impossible

theorem raised_waiting (ended : ∀ s ∈ front, s.2.isEnded = true)
    (raised : Pool.raised ⟨front ++ (j, phase) :: Pool.waiting others, w⟩ = true) : ∃ cause, phase = .broken cause := by
  have passed : (front.find? fun s => !s.2.isEnded) = none :=
    List.find?_eq_none.mpr fun s member => by simp [ended s member]
  unfold Pool.raised at raised
  simp only [List.find?_append, passed, Option.none_or, List.find?_cons] at raised
  cases phase with
  | broken cause => exact ⟨cause, rfl⟩
  | ended result =>
    cases others <;> simp [Phase.isEnded, Pool.waiting] at raised
  | _ => cases raised

theorem isOver_waiting (finished : Pool.isOver ⟨front ++ (j, phase) :: Pool.waiting others, w⟩ = true) :
    phase.isOver = true ∧ others = [] := by
  unfold Pool.isOver at finished
  rw [List.all_eq_true] at finished
  refine ⟨finished (j, phase) (by simp), ?_⟩
  cases others with
  | nil => rfl
  | cons first later =>
    have impossible := finished (first, .ready) (by simp [Pool.waiting])
    cases impossible

def Pool.onward (compiler : Compiler) (front : List (Job × Phase)) (j : Job) (others : List Job)
    (s : Phase × Workshop) : Pool :=
  let (phases, w) := Pool.runInOrder compiler others s.2
  ⟨front ++ (j, s.1) :: others.zip phases, w⟩

theorem broken_tallies (run : Pool.Calm compiler workers ⟨front ++ (j, .broken cause) :: rest, w⟩ last)
    (ended : ∀ s ∈ front, s.2.isEnded = true) (others : List Job) (v : Workshop) :
    last.Tallies (Pool.onward compiler front j others (.broken cause, v)) := by
  obtain ⟨moves, reached⟩ := run.reaches
  have here : Pool.breakage last.phases = some cause :=
    broke_breakage (reaches_broke ⟨front, j, rest, rfl, ended⟩ reached)
  have there : Pool.breakage (Pool.onward compiler front j others (.broken cause, v)).phases = some cause :=
    broke_breakage ⟨front, j, _, rfl, ended⟩
  exact ⟨here.trans there.symm, fun none_ => by cases there.symm.trans none_⟩

theorem onward_next (front : List (Job × Phase)) (j k : Job) (others : List Job) (s : Phase × Workshop) :
    Pool.onward compiler front j (k :: others) s =
      Pool.onward compiler (front ++ [(j, s.1)]) k others (k.run compiler s.2) := by
  simp [Pool.onward, Pool.runInOrder]

theorem solo_tallies (run : Pool.Calm compiler 1 p last) (finished : last.isOver = true)
    (here : p = ⟨front ++ (j, phase) :: Pool.waiting others, w⟩) (ended : ∀ s ∈ front, s.2.isEnded = true)
    (done : (j.steps compiler count (phase, w)).1.isOver = true) :
    last.Tallies (Pool.onward compiler front j others (j.steps compiler count (phase, w))) := by
  -- Induction on the run: the one worker goes on with the job under way, and begins the next where that has ended.
  induction run generalizing front j phase others w count with
  | nil =>
    subst here
    obtain ⟨done, rfl⟩ := isOver_waiting finished
    rw [steps_over done]
    exact .refl _
  | cancel raised later =>
    subst here
    obtain ⟨cause, rfl⟩ := raised_waiting ended raised
    rw [steps_over rfl]
    exact broken_tallies (.cancel raised later) ended others w
  | @advance last p index may later ih =>
    subst here
    rcases solo_index (fun s member => isOver_of_isEnded (ended s member)) may with
      ⟨rfl, working⟩ | ⟨k, others, rfl, rfl, done⟩
    · cases count with
      | zero => cases working.symm.trans done
      | succ count =>
        have next := @apply_front compiler front (Pool.waiting others) j phase w
        rw [Job.steps] at done ⊢
        exact ih finished next ended done
    · rcases isOver_cases done with well | ⟨cause, rfl⟩
      · have all : ∀ s ∈ front ++ [(j, phase)], s.2.isEnded = true := by
          intro s member
          rcases List.mem_append.mp member with before | own
          · exact ended s before
          · exact List.mem_singleton.mp own ▸ well
        obtain ⟨enough, begun⟩ := run_begun k compiler w
        have next := @apply_front compiler (front ++ [(j, phase)]) (Pool.waiting others) k .ready w
        rw [List.append_assoc, List.length_append] at next
        rw [steps_over done, onward_next, ← begun]
        exact ih finished next all (begun ▸ run_isOver k compiler w)
      · rw [steps_over rfl]
        exact broken_tallies (.advance may later) ended _ w

theorem solo_inOrder (run : Pool.Calm compiler 1 (Pool.start jobs w) last) (finished : last.isOver = true) :
    last.Tallies ⟨jobs.zip (Pool.runInOrder compiler jobs w).1, (Pool.runInOrder compiler jobs w).2⟩ := by
  cases jobs with
  | nil =>
    cases run with
    | nil => exact .refl _
    | advance may =>
      obtain ⟨_, _, none_, _⟩ := mayAdvance_phase may
      cases none_
    | cancel raised => cases raised
  | cons j others =>
    obtain ⟨count, same⟩ := run_steps j compiler w
    have none_ : ∀ s ∈ ([] : List (Job × Phase)), s.2.isEnded = true := by simp
    have done : (j.steps compiler count (.ready, w)).1.isOver = true := same ▸ run_isOver j compiler w
    have tallies := solo_tallies run finished rfl none_ done
    rw [← same] at tallies
    exact tallies

theorem inOrder_works (compiler : Compiler) : (Crew.inOrder compiler).Works compiler 1 := by
  intro jobs w
  obtain ⟨calm, length, ends⟩ := @runInOrder_calm compiler 1 [] jobs Nat.one_pos (by simp) w
  exact ⟨length, ends, calm⟩

-- Whatever the crew, a single worker's jobs break on the same, and they come to the same where none breaks.
theorem works_inOrder (works : crew.Works compiler 1) (jobs : List Job) (w : Workshop) :
    Pool.breakage (crew.run jobs w).1 = Pool.breakage (Pool.runInOrder compiler jobs w).1 ∧
      (Pool.breakage (crew.run jobs w).1 = none → crew.run jobs w = Pool.runInOrder compiler jobs w) := by
  obtain ⟨length, ends, calm⟩ := works jobs w
  obtain ⟨sameLength, _⟩ := inOrder_over compiler jobs w
  have finished : Pool.isOver ⟨jobs.zip (crew.run jobs w).1, (crew.run jobs w).2⟩ = true :=
    List.all_eq_true.mpr fun s member => ends s.2 (List.of_mem_zip member).2
  obtain ⟨breakage, same⟩ := solo_inOrder calm finished
  simp only [Pool.phases, zip_snd length, zip_snd sameLength] at breakage same
  refine ⟨breakage, fun none_ => ?_⟩
  have equal := same (breakage ▸ none_)
  have phases := congrArg (fun p : Pool => p.jobs.map Prod.snd) equal
  simp only [zip_snd length, zip_snd sameLength] at phases
  exact Prod.ext phases (congrArg Pool.workshop equal)

def Builder.Unbroken (b : Builder) (crew : Crew) (variant : Value) (w : Workshop) : Prop :=
  ∀ plan, b.plan w.tree variant = .ok plan → b.checkWorkers = .ok () →
    Pool.breakage (crew.run plan.jobs (w.noting plan.notices)).1 = none

-- With a single worker an invocation comes to the same, and leaves the same where no job breaks.
theorem invoke_inOrder (works : crew.Works compiler 1) (b : Builder) (variant : Value) (w : Workshop) :
    (b.invoke crew variant w).1 = (b.invoke compiler variant w).1 ∧
      (b.Unbroken crew variant w → b.invoke crew variant w = b.invoke compiler variant w) := by
  cases planned : b.plan w.tree variant with
  | error cause =>
    rw [invoke_unplanned _ planned, invoke_unplanned _ planned]
    exact ⟨rfl, fun _ => rfl⟩
  | ok plan =>
    cases workable : b.checkWorkers with
    | error cause =>
      rw [invoke_unworkable _ planned workable, invoke_unworkable _ planned workable]
      exact ⟨rfl, fun _ => rfl⟩
    | ok done =>
      rw [invoke_ran _ planned workable, invoke_ran _ planned workable]
      obtain ⟨breakage, same⟩ := works_inOrder works plan.jobs (w.noting plan.notices)
      refine ⟨?_, fun unbroken => by rw [same (unbroken plan planned workable)]; rfl⟩
      cases broke : Pool.breakage (crew.run plan.jobs (w.noting plan.notices)).1 with
      | none =>
        rw [same broke]
        rfl
      | some cause =>
        have also := breakage.symm.trans broke
        simp only [Pool.gather, broke, Crew.inOrder, also]

theorem invoke_unbroken {i : Invocation} (fine : (b.invoke crew variant w).1 = .ok i) : b.Unbroken crew variant w := by
  intro plan planned workable
  rw [invoke_ran _ planned workable] at fine
  exact (gather_ok fine).1

theorem build_solo (first : one.Works compiler 1) (second : two.Works compiler 1) (b : Builder) (variant : Value)
    (w : Workshop) : (b.build two variant w).1 = (b.build one variant w).1 ∧
      (b.Unbroken one variant w → b.build two variant w = b.build one variant w) := by
  obtain ⟨outcome, whole⟩ := invoke_inOrder first b variant w
  obtain ⟨outcome', whole'⟩ := invoke_inOrder second b variant w
  have equal : b.Unbroken one variant w → b.Unbroken two variant w → b.build two variant w = b.build one variant w := by
    intro unbroken unbroken'
    unfold Builder.build
    rw [whole unbroken, whole' unbroken']
  have same := outcome'.trans outcome.symm
  have carried : b.Unbroken one variant w → b.Unbroken two variant w := by
    intro unbroken plan planned workable
    rw [(works_inOrder second _ _).1, ← (works_inOrder first _ _).1]
    exact unbroken plan planned workable
  refine ⟨?_, fun unbroken => equal unbroken (carried unbroken)⟩
  cases found : (b.invoke one variant w).1 with
  | ok i => exact congrArg Prod.fst (equal (invoke_unbroken found) (invoke_unbroken (same.trans found)))
  | error cause =>
    have other := same.trans found
    unfold Builder.build
    generalize b.invoke one variant w = x at found ⊢
    generalize b.invoke two variant w = y at other ⊢
    obtain ⟨_, v⟩ := x
    obtain ⟨_, u⟩ := y
    cases found
    cases other
    rfl

end AbiBuild.Build
