import AbiBuild.Proofs.Build.Shadows

namespace AbiBuild.Build
open FileTree

-- The target directory as the jobs find it, and as the shadows find it.
inductive Ground (root : FilePath) (l : Location) (t : FileTree) : FileTree → Prop
  | standing (stands : Stands t root l) (clear : Clear t l) : Ground root l t t
  | missing {u : FileTree} (missing : Missing root l t u) : Ground root l t u
  | barred (barred : Barred root t) : Ground root l t t

-- The target directory has been there or has been made, and outside the jobs' directories nothing else is new.
structure Laid (root : FilePath) (l : Location) (t u : FileTree) (jobs : List Job) (v : FileTree) : Prop where
  stands : Stands v root l
  clear : Clear v l
  ground : Stands u root l
  cause : Stands t root l ∨ jobs ≠ []
  elsewhere : ∀ m, (∀ j ∈ jobs, ¬ l ++ [j.abi.text] <+: m) → v.node? m = u.node? m

structure Shared (root : FilePath) (l : Location) (t u : FileTree) (jobs : List Job) (w : Workshop) : Prop where
  tree : Laid root l t u jobs w.tree ∨ (∀ k, ¬ Stands t root k) ∧ w.tree = t
  nodup : w.calls.Nodup
  known : ∀ c ∈ w.calls, ∃ j ∈ jobs, c = j.call

-- Jobs that keep to their own directories and can be told apart.
structure Separate (root : FilePath) (compiler : Compiler) (jobs : List Job) : Prop where
  homed : ∀ j ∈ jobs, j.Homed root
  secluded : ∀ j ∈ jobs, j.Secluded compiler root
  distinct : (jobs.map Job.abi).Nodup
  calls : ∀ j ∈ jobs, ∀ k ∈ jobs, j.call = k.call → j.abi = k.abi

variable {root : FilePath} {l : Location} {t u : FileTree} {jobs : List Job} {compiler : Compiler} {j : Job}
  {phase : Phase} {w v : Workshop} {p q last : Pool} {workers count : Nat}

theorem ground_exists (wellFormed : t.WellFormed) (absolute : root.root ≠ .relative) (sturdy : Sturdy t root)
    (clear : ∀ l, LeadsTo t root l → Clear t l) : ∃ l u, Ground root l t u := by
  by_cases stands : ∃ l, Stands t root l
  · obtain ⟨l, stands⟩ := stands
    exact ⟨l, t, .standing stands (clear l stands.leadsTo)⟩
  · have astray : ∀ l, ¬ Stands t root l := fun l here => stands ⟨l, here⟩
    rcases fresh_or_blocked wellFormed absolute sturdy astray with ⟨front, first, rest, l, fresh⟩ | refused
    · refine ⟨l ++ first :: rest, t.layDown l (first :: rest), .missing ?_⟩
      refine ⟨astray, fresh.stands wellFormed, fresh.clear wellFormed, fun abi => ⟨?_, ?_⟩, fun abi => ?_⟩
      · exact fresh.isFile (by simp [markerNames])
      · exact isFile_absent (fresh.stands wellFormed) (fresh.clear wellFormed)
          (markerNames_notUp abi) (markerNames_ne_nil abi) (markerNames_nameable abi)
          ((fresh.laid wellFormed).2.2 _ (by simp [markerNames]))
      · exact fresh.ensureDirectory wellFormed (abi_nameable abi) (abi_plain abi).2.2.1
    · exact ⟨[], t, .barred ⟨astray, fun abi => refused _ (abi_nameable abi)⟩⟩

theorem ground_meets (ground : Ground root l t u) (j : Job) : Meets root l t u j .ready t u := by
  cases ground with
  | standing stands clear => exact .alike (.refl stands clear)
  | missing missing => exact .early missing rfl rfl (by simp [stage])
  | barred barred => exact .barred barred rfl rfl (.inl (by simp [stage]))

theorem ground_shared (ground : Ground root l t u) (tree : w.tree = t) (none_ : w.calls = []) :
    Shared root l t u jobs w := by
  refine ⟨?_, by simp [none_], by simp [none_]⟩
  rw [tree]
  cases ground with
  | standing stands clear => exact .inl ⟨stands, clear, stands, .inl stands, fun _ _ => rfl⟩
  | missing missing => exact .inr ⟨missing.astray, rfl⟩
  | barred barred => exact .inr ⟨barred.astray, rfl⟩

theorem laid_step {a b : FileTree} (member : j ∈ jobs) (effect : Effect root l t u j a b)
    (tree : Laid root l t u jobs a ∨ (∀ k, ¬ Stands t root k) ∧ a = t) :
    Laid root l t u jobs b ∨ (∀ k, ¬ Stands t root k) ∧ b = t := by
  cases effect with
  | still astray start same => exact .inr ⟨astray, same⟩
  | inside stands clear changes =>
    rcases tree with laid | ⟨astray, start⟩
    · refine .inl ⟨changes.stands stands, clear.congr changes.links, laid.ground, laid.cause, fun m outside => ?_⟩
      rcases changes.elsewhere m (outside j member) with same | ⟨impossible, _⟩
      · rw [same]
        exact laid.elsewhere m outside
      · exact impossible.elim
    · exact absurd (start ▸ stands) (astray l)
  | laid missing start changes =>
    refine .inl ⟨changes.stands missing.stands, missing.clear.congr changes.links, missing.stands,
      .inr (List.ne_nil_of_mem member), fun m outside => ?_⟩
    rcases changes.elsewhere m (outside j member) with same | ⟨impossible, _⟩
    · exact same
    · exact impossible.elim

theorem shared_step {x : Phase × Workshop} (member : j ∈ jobs) (effect : Effect root l t u j w.tree v.tree)
    (beside : Beside j phase w v) (shadow : Shadow root l t u compiler j phase w x)
    (shared : Shared root l t u jobs w) : Shared root l t u jobs v := by
  obtain ⟨tree, nodup, known⟩ := shared
  refine ⟨laid_step member effect tree, ?_, ?_⟩
  · rw [beside.calls]
    rcases callsIn_parts j phase with none_ | ⟨rfl, asks⟩
    · rwa [none_, List.append_nil]
    · have first : j.call ∉ w.calls := by
        rw [shadow.calls, shadow.unplaced (by simp [stage])]
        simp
      rw [asks]
      refine List.nodup_append.mpr ⟨nodup, by simp, fun c placed d own => ?_⟩
      rw [List.mem_singleton.mp own]
      rintro rfl
      exact first placed
  · intro c placed
    rw [beside.calls, List.mem_append] at placed
    rcases placed with earlier | own
    · exact known c earlier
    · exact ⟨j, member, mem_callsIn own⟩

def Shared.Uncalled (root : FilePath) (l : Location) (t u : FileTree) (jobs : List Job) (w : Workshop) : Prop :=
  w.cancelled = false → Shared root l t u jobs w

def Shadow.Uncalled (root : FilePath) (l : Location) (t u : FileTree) (compiler : Compiler) (j : Job)
    (phase : Phase) (w : Workshop) : Prop :=
  w.cancelled = false →
    ∃ count, Shadow root l t u compiler j phase w (j.steps compiler count (.ready, .opened u))

theorem uncalled_before (after : (j.step compiler phase w).2.cancelled = false) : w.cancelled = false := by
  cases called : w.cancelled with
  | false => rfl
  | true =>
    rw [(step_beside j compiler phase w).called called] at after
    cases after

theorem shadow_compatible (separate : Separate root compiler jobs) : Compatible compiler jobs
    (Shared.Uncalled root l t u jobs) (Shadow.Uncalled root l t u compiler) where
  common j member phase w common own after := by
    have calm := uncalled_before after
    obtain ⟨count, shadow⟩ := own calm
    have further := shadow_step (separate.homed j member) (separate.secluded j member) calm shadow
    exact shared_step member further.2 (step_beside _ _ _ _) shadow (common calm)
  own j member phase w _ own after := by
    have calm := uncalled_before after
    obtain ⟨count, shadow⟩ := own calm
    refine ⟨count + 1, ?_⟩
    rw [steps_add]
    exact (shadow_step (separate.homed j member) (separate.secluded j member) calm shadow).1
  others j member phase w _ own k known apart other kept after := by
    have calm := uncalled_before after
    obtain ⟨count, shadow⟩ := own calm
    obtain ⟨count', shadow'⟩ := kept calm
    have further := shadow_step (separate.homed j member) (separate.secluded j member) calm shadow
    refine ⟨count', shadow_elsewhere further.2 (step_beside _ _ _ _) apart (fun same => ?_) shadow'⟩
    exact apart (separate.calls k known j member same)
  cancel w _ calm := by cases calm
  ownCancel j _ phase w _ _ calm := by cases calm

-- A pool in which every job keeps beside its shadow.
abbrev Paired (root : FilePath) (l : Location) (t u : FileTree) (compiler : Compiler) (jobs : List Job)
    (p : Pool) : Prop :=
  Sound jobs (Shared.Uncalled root l t u jobs) (Shadow.Uncalled root l t u compiler) p

theorem start_paired (ground : Ground root l t u) (tree : w.tree = t) (none_ : w.calls = []) :
    Paired root l t u compiler jobs (Pool.start jobs w) := by
  refine start_sound (fun _ => ground_shared ground tree none_) fun j member _ => ⟨0, ?_⟩
  refine ⟨rfl, rfl, fun process own => ?_, ?_, ?_, fun _ => rfl⟩
  · cases own
  · rw [tree]
    exact ground_meets ground j
  · rw [none_]
    rfl

-- What the job comes to if it is left alone.
def Job.alone (j : Job) (compiler : Compiler) (u : FileTree) : Phase × Workshop :=
  j.run compiler (.opened u)

theorem paired_alone (paired : Paired root l t u compiler jobs p) (calm : p.workshop.cancelled = false)
    {s : Job × Phase} (member : s ∈ p.jobs) (finished : s.2.isOver = true) :
    Shadow root l t u compiler s.1 s.2 p.workshop (s.1.alone compiler u) := by
  obtain ⟨count, shadow⟩ := paired.own s member calm
  exact shadow_final shadow finished

theorem calm_parts (separate : Separate root compiler jobs) (paired : Paired root l t u compiler jobs p)
    (calm : p.workshop.cancelled = false) (run : Pool.Calm compiler workers p last) :
    (Paired root l t u compiler jobs last ∧ last.workshop.cancelled = false) ∨
      ∃ middle moves, Paired root l t u compiler jobs middle ∧ middle.workshop.cancelled = false ∧
        middle.raised = true ∧ Pool.Reaches compiler workers middle moves last := by
  refine calm_split (shadow_compatible separate) separate.distinct ?_ paired calm run
  intro j member phase w own uncalled
  obtain ⟨count, shadow⟩ := own uncalled
  exact ((step_beside j compiler phase w).quiet (shadow.quiet (separate.secluded j member))).trans uncalled

theorem paired_phases (paired : Paired root l t u compiler jobs p) (calm : p.workshop.cancelled = false)
    (finished : p.isOver = true) : p.jobs.map Prod.snd = jobs.map fun j => (j.alone compiler u).1 := by
  rw [← paired.jobs, List.map_map]
  refine List.map_congr_left fun s member => ?_
  exact (paired_alone paired calm member (List.all_eq_true.mp finished s member)).same.symm

-- Whatever breaks the build breaks it in every run, and it is the same job that is found first.
theorem calm_gather (separate : Separate root compiler jobs) (paired : Paired root l t u compiler jobs p)
    (calm : p.workshop.cancelled = false) (run : Pool.Calm compiler workers p last)
    (finished : last.isOver = true) (i : Invocation) :
    Pool.gather i (last.jobs.map Prod.snd) = Pool.gather i (jobs.map fun j => (j.alone compiler u).1) := by
  rcases calm_parts separate paired calm run with ⟨paired', calm'⟩ | ⟨middle, moves, paired', calm', raised, reached⟩
  · rw [paired_phases paired' calm' finished]
  · obtain ⟨cause, broke⟩ := raised_broke raised
    have here := broke_breakage (reaches_broke broke reached)
    have there : Pool.breakage (jobs.map fun j => (j.alone compiler u).1) = some cause := by
      obtain ⟨front, j, rest, split_, before⟩ := broke
      have alone : ∀ s ∈ middle.jobs, s.2.isOver = true → (s.1.alone compiler u).1 = s.2 :=
        fun s member finished => (paired_alone paired' calm' member finished).same
      have front_ : ∀ s ∈ front, (s.1.alone compiler u).1 = s.2 := fun s member =>
        alone s (split_ ▸ List.mem_append_left _ member) (isOver_of_isEnded (before s member))
      have own : (j.alone compiler u).1 = .broken cause :=
        alone (j, .broken cause) (split_ ▸ List.mem_append_right _ (by simp)) rfl
      rw [← paired'.jobs, List.map_map, split_, List.map_append, List.map_cons]
      simp only [Function.comp_apply, own]
      refine breakage_front fun phase member => ?_
      obtain ⟨s, inside, rfl⟩ := List.mem_map.mp member
      rw [Function.comp_apply, front_ s inside]
      exact before s inside
    unfold Pool.gather
    rw [here, there]

theorem mem_jobs (paired : Paired root l t u compiler jobs p) (member : j ∈ jobs) :
    ∃ phase, (j, phase) ∈ p.jobs := by
  rw [← paired.jobs] at member
  obtain ⟨⟨k, phase⟩, inside, rfl⟩ := List.mem_map.mp member
  exact ⟨phase, inside⟩

theorem paired_shadow (paired : Paired root l t u compiler jobs p) (calm : p.workshop.cancelled = false)
    (finished : p.isOver = true) (member : j ∈ jobs) : ∃ phase, phase.isOver = true ∧
      Shadow root l t u compiler j phase p.workshop (j.alone compiler u) := by
  obtain ⟨phase, inside⟩ := mem_jobs paired member
  have finished := List.all_eq_true.mp finished _ inside
  exact ⟨phase, finished, paired_alone paired calm inside finished⟩

theorem calls_paired (paired : Paired root l t u compiler jobs p) (calm : p.workshop.cancelled = false)
    (finished : p.isOver = true) (c : Call) :
    c ∈ p.workshop.calls ↔ ∃ j ∈ jobs, c = j.call ∧ c ∈ (j.alone compiler u).2.calls := by
  constructor
  · intro placed
    obtain ⟨j, member, rfl⟩ := (paired.common calm).known c placed
    obtain ⟨phase, _, shadow⟩ := paired_shadow paired calm finished member
    exact ⟨j, member, rfl, shadow.calls.mp placed⟩
  · rintro ⟨j, member, rfl, placed⟩
    obtain ⟨phase, _, shadow⟩ := paired_shadow paired calm finished member
    exact shadow.calls.mpr placed

theorem calls_perm (left : Paired root l t u compiler jobs p) (calm : p.workshop.cancelled = false)
    (finished : p.isOver = true) (right : Paired root l t u compiler jobs q)
    (calm' : q.workshop.cancelled = false) (finished' : q.isOver = true) :
    p.workshop.calls.Perm q.workshop.calls := by
  refine (List.perm_ext_iff_of_nodup (left.common calm).nodup (right.common calm').nodup).mpr fun c => ?_
  rw [calls_paired left calm finished, calls_paired right calm' finished']

theorem laid_alike {x : Phase × Workshop} (laid : Laid root l t u jobs w.tree)
    (shadow : Shadow root l t u compiler j phase w x) : Alike root l j.abi.text w.tree x.2.tree := by
  cases shadow.meets with
  | alike alike => exact alike
  | early missing before => exact absurd (before ▸ laid.stands) (missing.astray l)
  | barred barred before => exact absurd (before ▸ laid.stands) (barred.astray l)

theorem laid_both (left : Paired root l t u compiler jobs p) (calm : p.workshop.cancelled = false)
    (finished : p.isOver = true) (right : Paired root l t u compiler jobs q)
    (calm' : q.workshop.cancelled = false) (finished' : q.isOver = true)
    (laid : Laid root l t u jobs q.workshop.tree) : Laid root l t u jobs p.workshop.tree := by
  rcases (left.common calm).tree with own | ⟨astray, same⟩
  · exact own
  · exfalso
    rcases laid.cause with stands | some_
    · exact astray l stands
    · obtain ⟨j, member⟩ := List.exists_mem_of_ne_nil _ some_
      obtain ⟨phase, ended, shadow⟩ := paired_shadow left calm finished member
      obtain ⟨_, _, shadow'⟩ := paired_shadow right calm' finished' member
      have found := (laid_alike laid shadow').right
      cases shadow.meets with
      | alike alike => exact astray l (same ▸ alike.left)
      | early _ _ _ soon =>
        rw [stage_over ended] at soon
        omega
      | barred _ _ beside => exact astray l (beside ▸ found)

theorem trees_same (left : Paired root l t u compiler jobs p) (calm : p.workshop.cancelled = false)
    (finished : p.isOver = true) (right : Paired root l t u compiler jobs q)
    (calm' : q.workshop.cancelled = false) (finished' : q.isOver = true) (m : Location) :
    p.workshop.tree.node? m = q.workshop.tree.node? m := by
  rcases (left.common calm).tree with laid | ⟨astray, same⟩
  · have laid' := laid_both right calm' finished' left calm finished laid
    by_cases inside : ∃ j ∈ jobs, l ++ [j.abi.text] <+: m
    · obtain ⟨j, member, names, rfl⟩ := inside
      obtain ⟨_, _, shadow⟩ := paired_shadow left calm finished member
      obtain ⟨_, _, shadow'⟩ := paired_shadow right calm' finished' member
      rw [(laid_alike laid shadow).same names, (laid_alike laid' shadow').same names]
    · have outside : ∀ j ∈ jobs, ¬ l ++ [j.abi.text] <+: m := fun j member below => inside ⟨j, member, below⟩
      rw [laid.elsewhere m outside, laid'.elsewhere m outside]
  · rcases (right.common calm').tree with laid' | ⟨_, same'⟩
    · have laid := laid_both left calm finished right calm' finished' laid'
      exact absurd (same ▸ laid.stands) (astray l)
    · rw [same, same']

theorem calm_uncalled (separate : Separate root compiler jobs) (paired : Paired root l t u compiler jobs p)
    (calm : p.workshop.cancelled = false) (run : Pool.Calm compiler workers p last) {i r : Invocation}
    (good : Pool.gather i (last.jobs.map Prod.snd) = .ok r) :
    Paired root l t u compiler jobs last ∧ last.workshop.cancelled = false := by
  rcases calm_parts separate paired calm run with uncalled | ⟨middle, moves, _, _, raised, reached⟩
  · exact uncalled
  · obtain ⟨cause, broke⟩ := raised_broke raised
    cases (broke_breakage (reaches_broke broke reached)).symm.trans (gather_ok good).1

-- Two runs from the same start.
theorem runs_agree (separate : Separate root compiler jobs) (paired : Paired root l t u compiler jobs p)
    (calm : p.workshop.cancelled = false) (one : Pool.Calm compiler workers p last) (finished : last.isOver = true)
    (two : Pool.Calm compiler count p q) (finished' : q.isOver = true) (i : Invocation) :
    Pool.gather i (last.jobs.map Prod.snd) = Pool.gather i (q.jobs.map Prod.snd) ∧
    ∀ r, Pool.gather i (last.jobs.map Prod.snd) = .ok r →
      last.workshop.calls.Perm q.workshop.calls ∧
      ∀ m, last.workshop.tree.node? m = q.workshop.tree.node? m := by
  have same : Pool.gather i (last.jobs.map Prod.snd) = Pool.gather i (q.jobs.map Prod.snd) := by
    rw [calm_gather separate paired calm one finished, calm_gather separate paired calm two finished']
  refine ⟨same, fun r good => ?_⟩
  obtain ⟨left, calm'⟩ := calm_uncalled separate paired calm one good
  obtain ⟨right, calm''⟩ := calm_uncalled separate paired calm two (same ▸ good)
  exact ⟨calls_perm left calm' finished right calm'' finished', trees_same left calm' finished right calm'' finished'⟩

end AbiBuild.Build
