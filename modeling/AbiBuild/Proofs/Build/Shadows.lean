import AbiBuild.Proofs.Build.Runs
import AbiBuild.Proofs.Build.Effects
import AbiBuild.Proofs.Files.Alike
import AbiBuild.Proofs.Files.Laying

namespace AbiBuild.Build
open AbiBuild.Text FileTree

def Job.callsIn (j : Job) : Phase → List Call
  | .starting => if j.call.fault?.isNone then [j.call] else []
  | _ => []

-- The job's processes put files and directories into the job's own directory, and none calls the build off.
structure Job.Secluded (j : Job) (compiler : Compiler) (root : FilePath) : Prop where
  inside : ∀ process, compiler j.command = .started process →
    ∀ item ∈ process.writes ++ process.left, Inside root j.abi.text item
  uncalled : ∀ process, compiler j.command = .started process → process.cancelOnPoll = none

-- What a step leaves in two trees that were alike before.
structure InStep (root : FilePath) (l : Location) (abi : Abi) (t : FileTree) (x y : Phase × Workshop) :
    Prop where
  phase : x.1 = y.1
  parallel : Parallel root l abi.text t x.2.tree y.2.tree

-- What a step does apart from the files: it may ask for a start, and only a process that says so calls the
-- build off.
structure Beside (j : Job) (phase : Phase) (w v : Workshop) : Prop where
  calls : v.calls = w.calls ++ j.callsIn phase
  called : w.cancelled = true → v.cancelled = true
  quiet : (∀ process, phase.process? = some process → process.cancelOnPoll = none) →
    v.cancelled = w.cancelled

variable {j k : Job} {compiler : Compiler} {root : FilePath} {t u : FileTree} {l : Location}
  {phase next : Phase} {w v : Workshop} {r s : Trail} {targets : List (Profile × String)}

theorem clear_abreast (homed : j.Homed root) (known : ∀ target ∈ targets, target.2 ∈ j.libraries)
    (alike : Alike root l j.abi.text t u) :
    Abreast root l j.abi.text t (j.clear targets t) (j.clear targets u) := by
  refine Abreast.series (fun operation member {t' u'} alike => ?_) (.start alike)
  obtain ⟨target, inside, rfl⟩ := List.mem_map.mp member
  have configured := known target inside
  simp only [libraryPath_eq homed target.1 configured]
  exact unlinkIfThere_together alike (notUp_of_plain (libraryNames_plain _ _ (homed.libraries _ configured)))

theorem discard_abreast (homed : j.Homed root) (alike : Alike root l j.abi.text t u) :
    Abreast root l j.abi.text t (j.discard t).1 (j.discard u).1 := by
  have plain := markerNames_notUp j.abi
  unfold Job.discard
  rw [marker_eq homed]
  unfold markerNames at plain ⊢
  rw [← alike.isFile plain, ← alike.readText plain]
  cases t.isFile (root.under [j.abi.text, Config.markerName]) with
  | error fault => exact ⟨rfl, alike.parallel⟩
  | ok answer =>
    cases answer with
    | false => exact .start alike
    | true =>
      simp only
      cases t.readText (root.under [j.abi.text, Config.markerName]) with
      | error fault => exact ⟨rfl, alike.parallel⟩
      | ok record =>
        simp only [clearStale_eq]
        exact clear_abreast homed (targets_known _) alike

theorem mark_abreast (homed : j.Homed root) (alike : Alike root l j.abi.text t u) :
    Abreast root l j.abi.text t (j.mark t) (j.mark u) := by
  have plain := markerNames_notUp j.abi
  unfold Job.mark
  rw [marker_eq homed]
  refine Abreast.series (fun operation member {t' u'} alike => ?_) (.start alike)
  rw [List.mem_singleton.mp member]
  exact write_together alike plain _

-- What is collected hangs on nothing but how each library is found.
def Job.gathered (j : Job) (found : String → Except FileFault Bool) :
    Except FileFault (List (String × FilePath)) :=
  j.libraries.filterMapM fun library => do
    let path := j.libraryPath j.profile library
    return if ← found library then some (library, path) else none

theorem collect_gathered (t : FileTree) :
    j.collect t = j.gathered fun library => t.isFile (j.libraryPath j.profile library) := rfl

theorem gathered_same {found other : String → Except FileFault Bool}
    (same : ∀ library ∈ j.libraries, found library = other library) : j.gathered found = j.gathered other := by
  unfold Job.gathered
  dsimp only
  generalize j.libraries = libraries at same
  induction libraries with
  | nil => rfl
  | cons library rest ih =>
    have later := ih fun other member => same other (List.mem_cons_of_mem _ member)
    rw [List.filterMapM_cons, List.filterMapM_cons, same library (by simp), later]

def Job.listed (j : Job) (answer : String → Bool) : List (String × FilePath) :=
  j.libraries.filterMap fun library =>
    if answer library then some (library, j.libraryPath j.profile library) else none

theorem gathered_listed {found : String → Except FileFault Bool} {answer : String → Bool}
    (answered : ∀ library ∈ j.libraries, found library = .ok (answer library)) :
    j.gathered found = .ok (j.listed answer) := by
  unfold Job.gathered Job.listed
  dsimp only
  generalize j.libraries = libraries at answered
  induction libraries with
  | nil => rfl
  | cons library rest ih =>
    have later := ih fun other member => answered other (List.mem_cons_of_mem _ member)
    rw [List.filterMapM_cons, List.filterMap_cons, answered library (by simp), later]
    cases answer library <;> rfl

theorem filterMapM_parts {α β ε : Type} {f : α → Except ε (Option β)} {x : α} {xs : List α} {ys : List β}
    (ran : (x :: xs).filterMapM f = .ok ys) : ∃ y zs, f x = .ok y ∧ xs.filterMapM f = .ok zs := by
  rw [List.filterMapM_cons] at ran
  cases first : f x with
  | error cause => simp [first, bind, Except.bind] at ran
  | ok y =>
    cases later : xs.filterMapM f with
    | ok zs => exact ⟨y, zs, rfl, rfl⟩
    | error cause => cases y <;> simp [first, later, bind, Except.bind] at ran

theorem gathered_answered {found : String → Except FileFault Bool} {artifacts : List (String × FilePath)}
    (ran : j.gathered found = .ok artifacts) :
    ∀ library ∈ j.libraries, ∃ answer, found library = .ok answer := by
  unfold Job.gathered at ran
  dsimp only at ran
  generalize j.libraries = libraries at ran
  induction libraries generalizing artifacts with
  | nil => simp
  | cons library rest ih =>
    obtain ⟨_, _, first, later⟩ := filterMapM_parts ran
    intro other member
    rcases List.mem_cons.mp member with rfl | inRest
    · cases own : found other with
      | ok answer => exact ⟨answer, rfl⟩
      | error fault => simp [own, bind, Except.bind] at first
    · exact ih later other inRest

theorem collect_same (homed : j.Homed root) (alike : Alike root l j.abi.text t u) :
    j.collect t = j.collect u := by
  rw [collect_gathered, collect_gathered]
  refine gathered_same fun library member => ?_
  rw [libraryPath_eq homed j.profile member]
  exact alike.isFile (notUp_of_plain (libraryNames_plain _ _ (homed.libraries library member)))

theorem afterPreparing_phase (same : r.fault = s.fault) :
    (j.afterPreparing r next w).1 = (j.afterPreparing s next v).1 := by
  unfold Job.afterPreparing
  rw [same]
  cases s.fault with
  | none => rfl
  | some fault =>
    simp only
    split <;> rfl

theorem InStep.prepared (abreast : Abreast root l j.abi.text t r s) :
    InStep root l j.abi t (j.afterPreparing r next w) (j.afterPreparing s next v) := by
  refine ⟨afterPreparing_phase abreast.fault, ?_⟩
  rw [afterPreparing_tree, afterPreparing_tree]
  exact abreast.parallel

-- A job that finds the same in its directory takes the same step there.
theorem step_parallel (homed : j.Homed root) (secluded : j.Secluded compiler root)
    (started : j.Started compiler phase) (alike : Alike root l j.abi.text w.tree v.tree)
    (flags : w.cancelled = v.cancelled) :
    InStep root l j.abi w.tree (j.step compiler phase w) (j.step compiler phase v) := by
  have still : ∀ same : Phase, InStep root l j.abi w.tree (same, w) (same, v) :=
    fun _ => ⟨rfl, alike.parallel⟩
  have notUp : j.abi.text ≠ ".." := (abi_plain j.abi).2.2.1
  have deposits : ∀ process, phase.process? = some process → ∀ items,
      (∀ item ∈ items, item ∈ process.writes ++ process.left) →
      Parallel root l j.abi.text w.tree (w.tree.depositAll items) (v.tree.depositAll items) := by
    intro process own items among
    exact depositAll_parallel alike notUp fun item member =>
      secluded.inside process (started process own) item (among item member)
  cases phase with
  | ready =>
    simp only [Job.step, ← flags]
    split
    · exact still _
    · exact still _
  | discarding => exact .prepared (discard_abreast homed alike)
  | makingHome =>
    simp only [Job.step]
    rw [homed.home]
    exact .prepared (ensureDirectory_abreast alike (abi_notUp j.abi))
  | clearing =>
    simp only [Job.step, clearOutputs_eq]
    exact .prepared (clear_abreast homed (targets_known _) alike)
  | marking => exact .prepared (mark_abreast homed alike)
  | starting =>
    simp only [Job.step, Job.launch]
    cases j.call.fault? with
    | some fault => exact still _
    | none =>
      cases compiler j.command with
      | refused reason => exact ⟨rfl, alike.parallel⟩
      | started process => exact ⟨rfl, alike.parallel⟩
  | running process polls =>
    simp only [Job.step, Job.poll, ← flags]
    split
    · split
      · exact ⟨rfl, alike.parallel⟩
      · exact ⟨rfl, alike.parallel⟩
    · exact ⟨rfl, deposits process rfl _ fun item member => List.mem_append_left _ member⟩
  | stopping process =>
    have left := deposits process rfl process.left fun item member => List.mem_append_right _ member
    simp only [Job.step, Job.stop]
    cases process.stopped.said with
    | error cause => exact ⟨rfl, left⟩
    | ok text => exact ⟨rfl, left⟩
  | exited process =>
    simp only [Job.step, Job.judge, ← collect_same homed alike]
    cases process.own.said with
    | error cause => exact still _
    | ok text =>
      simp only
      split
      · exact ⟨rfl, alike.parallel⟩
      · split
        · exact still _
        · exact still _
  | unmarking process artifacts =>
    have own : Together root l j.abi.text w.tree (w.tree.unlinkIfThere j.marker)
        (v.tree.unlinkIfThere j.marker) := by
      rw [marker_eq homed]
      exact unlinkIfThere_together alike (markerNames_notUp j.abi)
    simp only [Job.step, Job.unmark]
    generalize w.tree.unlinkIfThere j.marker = x at own ⊢
    generalize v.tree.unlinkIfThere j.marker = y at own ⊢
    cases own with
    | refused fault => exact still _
    | done parallel => exact ⟨rfl, parallel⟩
  | ended result => exact still _
  | broken cause => exact still _

theorem Beside.of_same (calls : v.calls = w.calls ++ j.callsIn phase) (flag : v.cancelled = w.cancelled) :
    Beside j phase w v := ⟨calls, flag.trans, fun _ => flag⟩

theorem prepared_beside (none_ : j.callsIn phase = []) :
    Beside j phase w (j.afterPreparing r next w).2 := by
  unfold Job.afterPreparing
  split
  · exact .of_same (by simp [none_]) rfl
  · split
    · exact .of_same (by simp [none_, Workshop.note]) rfl
    · exact .of_same (by simp [none_]) rfl

theorem step_beside (j : Job) (compiler : Compiler) (phase : Phase) (w : Workshop) :
    Beside j phase w (j.step compiler phase w).2 := by
  have same : ∀ phase, j.callsIn phase = [] → Beside j phase w w :=
    fun phase none_ => .of_same (by simp [none_]) rfl
  cases phase with
  | ready =>
    simp only [Job.step]
    split
    · exact same _ rfl
    · exact same _ rfl
  | discarding =>
    have prepared : Beside j .discarding { w with notices := w.notices ++ (j.discard w.tree).2 }
        (j.step compiler .discarding w).2 := prepared_beside rfl
    exact ⟨prepared.calls, prepared.called, prepared.quiet⟩
  | makingHome => exact prepared_beside rfl
  | clearing => exact prepared_beside rfl
  | marking => exact prepared_beside rfl
  | starting =>
    simp only [Job.step]
    generalize taken : j.launch compiler w = r
    cases launches taken with
    | unfit unfit => exact same _ (by simp [Job.callsIn, unfit])
    | refused fit => exact .of_same (by simp [Job.callsIn, fit]) rfl
    | started fit => exact .of_same (by simp [Job.callsIn, fit]) rfl
  | running process polls =>
    simp only [Job.step, Job.poll]
    split
    · split
      · refine ⟨by simp [Job.callsIn, Workshop.note], fun called => ?_, fun quiet => ?_⟩
        · simp [Workshop.note, called]
        · simp [Workshop.note, quiet process rfl]
      · refine ⟨by simp [Job.callsIn], fun called => ?_, fun quiet => ?_⟩
        · simp [called]
        · simp [quiet process rfl]
    · exact .of_same (by simp [Job.callsIn, Workshop.reap]) rfl
  | stopping process =>
    simp only [Job.step]
    generalize taken : j.stop process w = r
    cases stops taken with
    | _ => exact .of_same (by simp [Job.callsIn, Workshop.reap]) rfl
  | exited process =>
    simp only [Job.step]
    generalize taken : j.judge process w = r
    cases judges taken with
    | failed => exact .of_same (by simp [Job.callsIn, Workshop.note]) rfl
    | _ => exact same _ rfl
  | unmarking process artifacts =>
    simp only [Job.step, Job.unmark]
    split
    · exact same _ rfl
    · exact .of_same (by simp [Job.callsIn]) rfl
  | ended result => exact same _ rfl
  | broken cause => exact same _ rfl

-- Directories on the way to `root` are missing in `t` and there in `u`. Nothing is found below it in either, and
-- whoever makes a directory there comes to the same from both.
structure Missing (root : FilePath) (l : Location) (t u : FileTree) : Prop where
  astray : ∀ k, ¬ Stands t root k
  stands : Stands u root l
  clear : Clear u l
  unmarked : ∀ abi, t.isFile (root.under (markerNames abi)) = .ok false ∧
    u.isFile (root.under (markerNames abi)) = .ok false
  housed : ∀ abi : Abi, (t.ensureDirectory (root.under [abi.text])).fault = none ∧
    t.ensureDirectory (root.under [abi.text]) = u.ensureDirectory (root.under [abi.text])

-- No directory can be made below `root`.
structure Barred (root : FilePath) (t : FileTree) : Prop where
  astray : ∀ k, ¬ Stands t root k
  refused : ∀ abi : Abi, ∃ fault, t.ensureDirectory (root.under [abi.text]) = ⟨t, some fault⟩

-- The tree of a pool that began with `t`, in a phase of one of its jobs, beside the tree of the job's shadow,
-- which began with `u`.
inductive Meets (root : FilePath) (l : Location) (t u : FileTree) (j : Job) (phase : Phase)
    (pool shadow : FileTree) : Prop
  | alike (alike : Alike root l j.abi.text pool shadow)
  | early (missing : Missing root l t u) (before : pool = t) (beside : shadow = u) (soon : stage phase ≤ 2)
  | barred (barred : Barred root t) (before : pool = t) (beside : shadow = t)
      (soon : stage phase ≤ 2 ∨ phase.isOver = true)

-- What a step of the job does to the pool's tree.
inductive Effect (root : FilePath) (l : Location) (t u : FileTree) (j : Job) (before after : FileTree) : Prop
  | still (astray : ∀ k, ¬ Stands t root k) (start : before = t) (same : after = t)
  | inside (stands : Stands before root l) (clear : Clear before l)
      (changes : Changes (l ++ [j.abi.text]) nowhere before after)
  | laid (missing : Missing root l t u) (start : before = t)
      (changes : Changes (l ++ [j.abi.text]) nowhere u after)

theorem step_unmarked (compiler : Compiler) (homed : j.Homed root)
    (unmarked : w.tree.isFile (root.under (markerNames j.abi)) = .ok false) :
    (j.step compiler .discarding w).1 = .makingHome ∧ (j.step compiler .discarding w).2.tree = w.tree := by
  have same : (j.discard w.tree).1 = .start w.tree := by
    unfold Job.discard
    rw [marker_eq homed, unmarked]
  simp only [Job.step, afterPreparing_tree, same]
  exact ⟨afterPreparing_fine rfl, rfl⟩

theorem discard_astray (homed : j.Homed root) (astray : ∀ k, ¬ Stands t root k) :
    (j.discard t).1.tree = t := by
  rcases discard_parts (j := j) (t := t) with ⟨fault, same⟩ | ⟨_, same⟩ | ⟨record, present, _, _⟩
  · rw [same]
  · rw [same]
    rfl
  · rw [marker_eq homed] at present
    obtain ⟨found, probed, answer⟩ := isFile_parts present
    obtain ⟨node, rfl⟩ := Option.isSome_iff_exists.mp (Option.isSome_of_any answer.symm)
    obtain ⟨m, located, _⟩ := probe_some probed
    obtain ⟨k, stands⟩ := stands_of_locate located (by simp [markerNames])
    exact absurd stands (astray k)

theorem meets_step (homed : j.Homed root) (secluded : j.Secluded compiler root)
    (started : j.Started compiler phase) (calm : w.cancelled = false) (flags : v.cancelled = false)
    (meets : Meets root l t u j phase w.tree v.tree) :
    (j.step compiler phase w).1 = (j.step compiler phase v).1 ∧
    Meets root l t u j (j.step compiler phase w).1 (j.step compiler phase w).2.tree
      (j.step compiler phase v).2.tree ∧
    Effect root l t u j w.tree (j.step compiler phase w).2.tree := by
  cases meets with
  | alike alike =>
    obtain ⟨same, parallel⟩ := step_parallel homed secluded started alike (calm.trans flags.symm)
    exact ⟨same, .alike parallel.alike, .inside alike.left alike.leftClear parallel.changes⟩
  | early missing before beside soon =>
    cases phase with
    | ready =>
      simp only [Job.step, calm, flags, Bool.false_eq_true, if_false]
      exact ⟨trivial, .early missing before beside (by simp [stage]), .still missing.astray before before⟩
    | discarding =>
      obtain ⟨left, right⟩ := missing.unmarked j.abi
      obtain ⟨phase, tree⟩ := step_unmarked compiler homed (before ▸ left)
      obtain ⟨phase', tree'⟩ := step_unmarked compiler homed (beside ▸ right)
      rw [phase, phase', tree, tree']
      exact ⟨rfl, .early missing before beside (by simp [stage]), .still missing.astray before before⟩
    | makingHome =>
      obtain ⟨fine, same⟩ := missing.housed j.abi
      have made : Parallel root l j.abi.text u (u.ensureDirectory (root.under [j.abi.text])).tree
          (u.ensureDirectory (root.under [j.abi.text])).tree :=
        (ensureDirectory_abreast (.refl missing.stands missing.clear) (abi_notUp j.abi)).parallel
      simp only [Job.step, afterPreparing_tree, homed.home, before, beside, same]
      rw [same] at fine
      rw [afterPreparing_fine fine, afterPreparing_fine fine]
      exact ⟨rfl, .alike made.alike, .laid missing rfl made.changes⟩
    | _ => simp [stage] at soon
  | barred barred before beside soon =>
    have equal : w.tree = v.tree := before.trans beside.symm
    rcases soon with soon | finished
    · cases phase with
      | ready =>
        simp only [Job.step, calm, flags, Bool.false_eq_true, if_false]
        exact ⟨trivial, .barred barred before beside (.inl (by simp [stage])),
          .still barred.astray before before⟩
      | discarding =>
        have kept := discard_astray homed barred.astray
        simp only [Job.step, afterPreparing_tree, before, beside, kept]
        refine ⟨afterPreparing_phase rfl, .barred barred rfl rfl ?_, .still barred.astray rfl rfl⟩
        rcases afterPreparing_stage j (j.discard t).1 .makingHome _ with finished | next
        · exact .inr finished
        · exact .inl (by rw [next]; simp [stage])
      | makingHome =>
        obtain ⟨fault, refused⟩ := barred.refused j.abi
        simp only [Job.step, afterPreparing_tree, homed.home, before, beside, refused]
        have failed : (Trail.mk t (some fault)).fault = some fault := rfl
        exact ⟨afterPreparing_phase rfl, .barred barred rfl rfl (.inr (Lost.isOver (afterPreparing_lost failed))),
          .still barred.astray rfl rfl⟩
      | _ => simp [stage] at soon
    · rw [step_over finished, step_over finished]
      exact ⟨rfl, .barred barred before beside (.inr finished), .still barred.astray before before⟩

-- What one job does in its directory leaves the others with their shadows.
theorem meets_elsewhere {a b : FileTree} (effect : Effect root l t u j a b) (apart : k.abi ≠ j.abi)
    {shadow : FileTree} (meets : Meets root l t u k phase a shadow) : Meets root l t u k phase b shadow := by
  have other : j.abi.text ≠ k.abi.text := fun same => apart (text_injective same.symm)
  cases meets with
  | alike alike =>
    cases effect with
    | still astray start => exact absurd (start ▸ alike.left) (astray l)
    | inside _ _ changes => exact .alike (alike.moved changes other)
    | laid missing start => exact absurd (start ▸ alike.left) (missing.astray l)
  | early missing before beside soon =>
    cases effect with
    | still _ _ same => exact .early missing same beside soon
    | inside stands => exact absurd (before ▸ stands) (missing.astray l)
    | laid _ _ changes =>
      rw [beside]
      exact .alike ((Alike.refl missing.stands missing.clear).moved changes other)
  | barred barred before beside soon =>
    cases effect with
    | still _ _ same => exact .barred barred same beside soon
    | inside stands => exact absurd (before ▸ stands) (barred.astray l)
    | laid missing =>
      obtain ⟨fault, refused⟩ := barred.refused j.abi
      have fine := (missing.housed j.abi).1
      rw [refused] at fine
      cases fine

-- A job in a phase of a pool beside its shadow.
structure Shadow (root : FilePath) (l : Location) (t u : FileTree) (compiler : Compiler) (j : Job) (phase : Phase)
    (w : Workshop) (s : Phase × Workshop) : Prop where
  same : s.1 = phase
  uncalled : s.2.cancelled = false
  started : j.Started compiler phase
  meets : Meets root l t u j phase w.tree s.2.tree
  calls : j.call ∈ w.calls ↔ j.call ∈ s.2.calls
  unplaced : stage phase < 6 → s.2.calls = []

theorem Shadow.quiet {x : Phase × Workshop} (shadow : Shadow root l t u compiler j phase w x)
    (secluded : j.Secluded compiler root) :
    ∀ process, phase.process? = some process → process.cancelOnPoll = none :=
  fun process own => secluded.uncalled process (shadow.started process own)

theorem stage_over (finished : phase.isOver = true) : stage phase = 6 := by
  cases phase <;> first | rfl | cases finished

theorem callsIn_early (early : stage (j.step compiler phase w).1 < 6) :
    stage phase < 6 ∧ j.callsIn phase = [] := by
  have before : stage phase < 6 := by
    have bound : stage phase ≤ 6 := by cases phase <;> simp [stage]
    rcases Nat.lt_or_eq_of_le bound with less | late
    · exact less
    · rw [(@step_remaining compiler j phase w late).1] at early
      omega
  refine ⟨before, ?_⟩
  rcases @step_stage compiler j phase w before with finished | next
  · rw [stage_over finished] at early
    omega
  · cases phase with
    | starting =>
      rw [next] at early
      simp [stage] at early
    | _ => rfl

theorem shadow_step (homed : j.Homed root) (secluded : j.Secluded compiler root)
    (calm : w.cancelled = false) {x : Phase × Workshop} (shadow : Shadow root l t u compiler j phase w x) :
    Shadow root l t u compiler j (j.step compiler phase w).1 (j.step compiler phase w).2
      (j.step compiler x.1 x.2) ∧
    Effect root l t u j w.tree (j.step compiler phase w).2.tree := by
  have quiet := shadow.quiet secluded
  obtain ⟨phase', v⟩ := x
  obtain ⟨rfl, uncalled, started, meets, calls, unplaced⟩ := shadow
  simp only at uncalled started meets calls unplaced quiet ⊢
  obtain ⟨same, further, effect⟩ := meets_step homed secluded started calm uncalled meets
  have own := step_beside j compiler phase' w
  have other := step_beside j compiler phase' v
  refine ⟨⟨same.symm, (other.quiet quiet).trans uncalled, acts_started started (step_acts _ _ _ _), further,
    ?_, ?_⟩, effect⟩
  · rw [own.calls, other.calls, List.mem_append, List.mem_append, calls]
  · intro early
    obtain ⟨before, none_⟩ := callsIn_early (by rwa [same] at early)
    rw [other.calls, unplaced before, none_]
    rfl

theorem callsIn_parts (j : Job) (phase : Phase) :
    j.callsIn phase = [] ∨ phase = .starting ∧ j.callsIn phase = [j.call] := by
  cases phase with
  | starting =>
    by_cases fit : j.call.fault?.isNone = true
    · exact .inr ⟨rfl, if_pos fit⟩
    · exact .inl (if_neg fit)
  | _ => exact .inl rfl

theorem mem_callsIn {c : Call} (asked : c ∈ j.callsIn phase) : c = j.call := by
  rcases callsIn_parts j phase with none_ | ⟨_, single⟩
  · simp [none_] at asked
  · simpa [single] using asked

theorem Beside.others (beside : Beside j phase w v) (differ : k.call ≠ j.call) :
    k.call ∈ v.calls ↔ k.call ∈ w.calls := by
  rw [beside.calls, List.mem_append]
  exact ⟨fun placed => placed.resolve_right fun asked => differ (mem_callsIn asked), .inl⟩

theorem shadow_elsewhere {before : Phase} {x : Phase × Workshop} (effect : Effect root l t u j w.tree v.tree)
    (beside : Beside j before w v) (apart : k.abi ≠ j.abi) (other : k.call ≠ j.call)
    (shadow : Shadow root l t u compiler k phase w x) : Shadow root l t u compiler k phase v x :=
  { shadow with
    meets := meets_elsewhere effect apart shadow.meets
    calls := (beside.others other).trans shadow.calls }

theorem shadow_final {count : Nat} {x : Workshop}
    (shadow : Shadow root l t u compiler j phase w (j.steps compiler count (.ready, x)))
    (finished : phase.isOver = true) : Shadow root l t u compiler j phase w (j.run compiler x) := by
  obtain ⟨enough, same⟩ := run_steps j compiler x
  have ended : (j.steps compiler count (.ready, x)).1.isOver = true := by rwa [shadow.same]
  have run : (j.steps compiler enough (.ready, x)).1.isOver = true := same ▸ run_isOver j compiler x
  have equal : j.steps compiler count (.ready, x) = j.run compiler x := by
    rw [same]
    rcases Nat.le_total count enough with less | more
    · obtain ⟨rest, rfl⟩ := Nat.exists_eq_add_of_le less
      rw [steps_add]
      exact (steps_over ended rest).symm
    · obtain ⟨rest, rfl⟩ := Nat.exists_eq_add_of_le more
      rw [steps_add]
      exact steps_over run rest
  rwa [equal] at shadow

end AbiBuild.Build
