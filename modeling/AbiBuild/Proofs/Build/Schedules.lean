import AbiBuild.Proofs.Build.Invocations
import AbiBuild.Proofs.Build.Pairing

namespace AbiBuild.Build
open FileTree

-- How an invocation may go with any number of workers that take their steps in any order. Nobody calls it off
-- from outside.
inductive Builder.Schedules (b : Builder) (compiler : Compiler) (variant : Value) (w : Workshop) :
    Except Failure Invocation → Workshop → Prop
  | unplanned (refused : b.plan w.tree variant = .error cause) :
      Schedules b compiler variant w (.error cause) w
  | unworkable (planned : b.plan w.tree variant = .ok found) (refused : b.checkWorkers = .error cause) :
      Schedules b compiler variant w (.error cause) (w.noting found.notices)
  | ran {count : Nat} (planned : b.plan w.tree variant = .ok found) (workable : b.checkWorkers = .ok ())
      (run : Pool.Calm compiler count (Pool.start found.jobs (w.noting found.notices)) last)
      (finished : last.isOver = true) :
      Schedules b compiler variant w (Pool.gather found.invocation (last.jobs.map Prod.snd)) last.workshop

-- A build of a configuration that was accepted, with no links below its target directory and with processes that
-- keep to their own directories.
structure Builder.Proper (b : Builder) (compiler : Compiler) (variant : Value) (t : FileTree) : Prop where
  resolved : ∃ s base data, Config.resolve s base data = .ok b.config
  wellFormed : t.WellFormed
  clear : ∀ l, LeadsTo t b.config.targetDir l → Clear t l
  secluded : ∀ j ∈ b.planned t variant, j.Secluded compiler b.config.targetDir

-- Whatever order the steps fall in, it all comes to the same as one job after the other.
def Builder.Independent (b : Builder) (compiler : Compiler) (variant : Value) (t : FileTree) : Prop :=
  ∀ outcome w, b.Schedules compiler variant (.opened t) outcome w →
    outcome = (b.invoke compiler variant (.opened t)).1 ∧
    w.calls.Perm (b.invoke compiler variant (.opened t)).2.calls ∧
    ∀ m, w.tree.node? m = (b.invoke compiler variant (.opened t)).2.tree.node? m

def Pool.play (compiler : Compiler) (workers : Nat) : Pool → List Move → Option Pool
  | p, [] => some p
  | p, .advance index :: rest =>
    if p.mayAdvance workers index then play compiler workers (p.apply compiler (.advance index)) rest else none
  | p, .cancel :: rest =>
    if p.raised then play compiler workers (p.apply compiler .cancel) rest else none

def Builder.play (b : Builder) (compiler : Compiler) (variant : Value) (t : FileTree) (moves : List Move) :
    Option (Except Failure Invocation × Workshop) :=
  match b.plan t variant, b.checkWorkers with
  | .ok plan, .ok () =>
    match Pool.play compiler 2 (Pool.start plan.jobs ((Workshop.opened t).noting plan.notices)) moves with
    | some last =>
      if last.isOver then some (Pool.gather plan.invocation (last.jobs.map Prod.snd), last.workshop) else none
    | none => none
  | _, _ => none

variable {t : FileTree} {compiler : Compiler} {w : Workshop} {p last : Pool} {workers : Nat}
  {moves : List Move} {b : Builder} {variant : Value} {plan : Builder.Plan}
  {outcome : Except Failure Invocation}

theorem command_injective {c : Config} {cargo : String} {abi other : Abi} {p : Profile}
    (same : Command.build c cargo abi p = Command.build c cargo other p) : abi = other := by
  have triples : abi.triple = other.triple := by
    simp only [Command.build, List.cons_append, List.cons.injEq] at same
    exact same.2.2.2.2.2.2.1
  revert triples
  cases abi <;> cases other <;> decide

theorem plan_calls (planned : b.plan t variant = .ok plan) :
    ∀ j ∈ plan.jobs, ∀ k ∈ plan.jobs, j.call = k.call → j.abi = k.abi := by
  obtain ⟨v, p, architectures, cargo, ndk, _, _, _, _, _, same⟩ := plan_parts planned
  intro j first k second equal
  rw [same] at first second
  obtain ⟨abi, _, rfl⟩ := List.mem_map.mp first
  obtain ⟨other, _, rfl⟩ := List.mem_map.mp second
  exact command_injective (congrArg Call.command equal)

theorem plan_separate (accepted : Accepted b.config)
    (planned : b.plan t variant = .ok plan)
    (secluded : ∀ j ∈ plan.jobs, j.Secluded compiler b.config.targetDir) :
    Separate b.config.targetDir compiler plan.jobs :=
  ⟨fun j member => (plan_homed accepted planned j member).1, secluded, plan_distinct planned, plan_calls planned⟩

theorem play_calm (played : Pool.play compiler workers p moves = some last) :
    Pool.Calm compiler workers p last := by
  induction moves generalizing p with
  | nil =>
    cases played
    exact .nil
  | cons move rest ih =>
    cases move with
    | advance index =>
      unfold Pool.play at played
      split at played
      · rename_i may
        exact .advance may (ih played)
      · cases played
    | cancel =>
      unfold Pool.play at played
      split at played
      · rename_i raised
        exact .cancel raised (ih played)
      · cases played

theorem play_schedules (played : b.play compiler variant t moves = some (outcome, w)) :
    b.Schedules compiler variant (.opened t) outcome w := by
  unfold Builder.play at played
  split at played
  · rename_i plan _ planned workable
    split at played
    · rename_i last run
      split at played
      · rename_i finished
        cases played
        exact .ran planned workable (play_calm run) finished
      · cases played
    · cases played
  · cases played

-- What raises depends on no schedule; what the other jobs have done by then does.
theorem schedules_agree (proper : b.Proper compiler variant t) (sturdy : Sturdy t b.config.targetDir)
    (run : b.Schedules compiler variant (.opened t) outcome w) :
    outcome = (b.invoke compiler variant (.opened t)).1 ∧
    ∀ i, outcome = .ok i → w.calls.Perm (b.invoke compiler variant (.opened t)).2.calls ∧
      ∀ m, w.tree.node? m = (b.invoke compiler variant (.opened t)).2.tree.node? m := by
  obtain ⟨_, _, _, resolved⟩ := proper.resolved
  have accepted := Config.resolve_accepted resolved
  have secluded := proper.secluded
  unfold Builder.invoke
  cases run with
  | unplanned refused =>
    rw [refused]
    exact ⟨rfl, by simp⟩
  | unworkable planned refused =>
    rw [planned]
    simp only [refused]
    exact ⟨trivial, by simp⟩
  | @ran plan last count planned workable run finished =>
    rw [planned]
    simp only [workable]
    have known : b.planned t variant = plan.jobs := by
      unfold Builder.planned
      rw [show b.plan t variant = .ok plan from planned]
    rw [known] at secluded
    have separate := plan_separate accepted planned secluded
    obtain ⟨l, u, ground⟩ := ground_exists proper.wellFormed accepted.target sturdy proper.clear
    have paired : Paired b.config.targetDir l t u compiler plan.jobs
        (Pool.start plan.jobs ((Workshop.opened t).noting plan.notices)) := start_paired ground rfl rfl
    have inOrder := @inOrder_calm compiler b workable plan.jobs ((Workshop.opened t).noting plan.notices)
    have agree := runs_agree separate paired rfl run finished inOrder (inOrder_isOver _ _ _ _) plan.invocation
    rw [zip_snd (inOrder_over compiler plan.jobs ((Workshop.opened t).noting plan.notices)).1] at agree
    exact agree

theorem secluded_of_tidy {j : Job} {root : FilePath} (homed : j.Homed root) (tidy : j.Tidy compiler j.home)
    (uncalled : ∀ process, compiler j.command = .started process → process.cancelOnPoll = none) :
    j.Secluded compiler root := by
  refine ⟨fun process started item member => ?_, uncalled⟩
  obtain ⟨names, content, executable, rfl, some_, plain⟩ := tidy process started item member
  refine ⟨names, .file content executable, ?_, some_, plain, by simp⟩
  rw [homed.home, FilePath.under_under]
  rfl

theorem sample_proper {variant : Value} (resolved : ∃ s base data, Config.resolve s base data = .ok b.config)
    (wellFormed : t.WellFormed) (clear : ∀ l, Clear t l) (byte : UInt8) (exit : Int)
    (own : ∀ j ∈ b.planned t variant, j.command.outputDir = j.outputDir j.profile) :
    b.Proper (sampleCompiler byte exit) variant t := by
  refine ⟨resolved, wellFormed, fun l _ => clear l, fun j member => ?_⟩
  obtain ⟨_, _, _, resolved⟩ := resolved
  have tidy : j.Tidy (sampleCompiler byte exit) j.home :=
    Tidy.home (ofBehaviours_tidy (own j member) fun _ => sampleBehaviour_plain _ _)
  have homed : j.Homed b.config.targetDir := by
    unfold Builder.planned at member
    split at member
    · rename_i planned
      exact (plan_homed (Config.resolve_accepted resolved) planned j member).1
    · cases member
  refine secluded_of_tidy homed tidy fun process started => ?_
  cases started
  rfl

-- The second architecture goes all the way before the first one, once that has begun.
def overtaking : List Move :=
  .advance 0 :: List.replicate 9 (.advance 1) ++ List.replicate 8 (.advance 0)

theorem overtaking_agrees : ∃ i w,
    sampleBuilder.Schedules (sampleCompiler 1 0) (.text "debug") (.opened Sample.tree) (.ok i) w ∧
      w.calls.map (fun c => c.command.triple) = [Abi.x86.triple, Abi.arm64.triple] ∧
      ∀ m, w.tree.node? m =
        (sampleBuilder.invoke (sampleCompiler 1 0) (.text "debug") (.opened Sample.tree)).2.tree.node? m := by
  have facts : (sampleBuilder.play (sampleCompiler 1 0) (.text "debug") Sample.tree overtaking).map
      (fun r => (r.1.toOption.isSome, r.2.calls.map fun c => c.command.triple)) =
      some (true, [Abi.x86.triple, Abi.arm64.triple]) := by decide +kernel
  obtain ⟨⟨outcome, w⟩, played, seen⟩ := Option.map_eq_some_iff.mp facts
  obtain ⟨good, order⟩ := Prod.mk.inj seen
  obtain ⟨i, good⟩ := Option.isSome_iff_exists.mp good
  have done : outcome = .ok i := ok_of_toOption good
  subst done
  have run := play_schedules played
  have proper : sampleBuilder.Proper (sampleCompiler 1 0) (.text "debug") Sample.tree :=
    sample_proper ⟨_, _, _, Sample.resolved⟩ sample_wellFormed (fun l => Clear.of_entries (by decide)) 1 0
      (by decide +kernel)
  have sturdy : Sturdy Sample.tree sampleBuilder.config.targetDir := sturdy_of_names (by decide +kernel)
  exact ⟨i, w, run, order, ((schedules_agree proper sturdy run).2 i rfl).2⟩

def Sample.settingsWith (target library : String) : Config.Entries := [
  (.text "module", .text "/m"),
  (.text "targets", .list [.text "arm64", .text "x86"]),
  (.text "libraries", .list [.text library]),
  (.text "target_dir", .text target),
  (.text "jni_libs_dir", .text "/j"),
  (.text "ndk_dir", .text "/ndk"),
  (.text "cargo_bin", .text "/bin/cargo")]

def Sample.configWith (target library : String) : Config :=
  { Sample.config with targetDir := .ofText target, libraries := [library] }

def Sample.builderWith (target library : String) : Builder :=
  .of (Sample.configWith target library) none [] none []

def Sample.interrupted : FileTree := ⟨[], Sample.tree.entries ++ (["t"], .directory) ::
  [Abi.arm64, Abi.x86].flatMap fun abi => [
    (["t", abi.text], .directory),
    (["t", abi.text, Config.markerName], .file (Text.encode "release\n") false),
    (["t", abi.text, abi.triple], .directory),
    (["t", abi.text, abi.triple, "release"], .directory),
    (["t", abi.text, abi.triple, "release", "liba.so"], .file [9] false)]⟩

-- The second process leaves a link to where the first one puts its library.
def linkingCompiler : Compiler := .ofBehaviours fun triple =>
  if triple = Abi.x86.triple then
    { sampleBehaviour [1] 0 with
      libraries := [("liba.so", .link "../../../arm64-v8a/aarch64-linux-android/debug/liba.so")] }
  else sampleBehaviour [1] 0

-- Whether a schedule leaves something else at the place, or comes to another result for the second
-- architecture, than one job after the other.
def Builder.differs (b : Builder) (compiler : Compiler) (t : FileTree) (moves : List Move) (m : Location) :
    Bool :=
  let result (outcome : Except Failure Invocation) := outcome.toOption.bind fun i => i.result? .x86
  let inOrder := b.invoke compiler (.text "debug") (.opened t)
  (b.play compiler (.text "debug") t moves).any fun r =>
    r.2.tree.node? m != inOrder.2.tree.node? m || result r.1 != result inOrder.1

theorem not_independent {m : Location} (differs : b.differs compiler t moves m = true) :
    ¬ b.Independent compiler (.text "debug") t := by
  intro independent
  obtain ⟨⟨outcome, w⟩, played, apart⟩ := (Option.any_eq_true _ _).mp differs
  obtain ⟨same, _, tree⟩ := independent outcome w (play_schedules played)
  simp [same, tree m] at apart

def lookingFirst : List Move :=
  .advance 0 :: List.replicate 2 (.advance 1) ++ List.replicate 8 (.advance 0) ++
    List.replicate 7 (.advance 1)

def calledOff : List Move := List.replicate 4 (.advance 0) ++ [.cancel, .advance 1]

-- Behind a missing directory, `..` leads to what is there already, so that a job finds its marker or not. Once
-- the build is called off, as a name that no file can have makes it, jobs do not begin. A link lets a job see
-- into the directory of another.
theorem schedules_differ :
    ((Sample.builderWith "/t/z/.." "liba.so").Proper (sampleCompiler 1 0) (.text "debug") Sample.interrupted ∧
      ¬ (Sample.builderWith "/t/z/.." "liba.so").Independent (sampleCompiler 1 0) (.text "debug")
        Sample.interrupted) ∧
    ((Sample.builderWith "/t" "a\x00.so").Proper (sampleCompiler 1 0) (.text "debug") Sample.tree ∧
      ¬ (Sample.builderWith "/t" "a\x00.so").Independent (sampleCompiler 1 0) (.text "debug") Sample.tree) ∧
    ¬ sampleBuilder.Independent linkingCompiler (.text "debug") Sample.tree := by
  have upward : Config.resolve Sample.tree none (Sample.settingsWith "/t/z/.." "liba.so") =
      .ok (Sample.configWith "/t/z/.." "liba.so") := ok_of_toOption (by decide +kernel)
  have broken : Config.resolve Sample.tree none (Sample.settingsWith "/t" "a\x00.so") =
      .ok (Sample.configWith "/t" "a\x00.so") := ok_of_toOption (by decide +kernel)
  refine ⟨⟨?_, ?_⟩, ⟨?_, ?_⟩, ?_⟩
  · exact sample_proper ⟨_, _, _, upward⟩ (WellFormed.of_entries (by decide +kernel))
      (fun l => Clear.of_entries (by decide +kernel)) 1 0 (by decide +kernel)
  · have differs : (Sample.builderWith "/t/z/.." "liba.so").differs (sampleCompiler 1 0) Sample.interrupted
        lookingFirst ["t", "x86", "i686-linux-android", "release", "liba.so"] = true := by decide +kernel
    exact not_independent differs
  · exact sample_proper ⟨_, _, _, broken⟩ sample_wellFormed (fun l => Clear.of_entries (by decide)) 1 0
      (by decide +kernel)
  · have differs : (Sample.builderWith "/t" "a\x00.so").differs (sampleCompiler 1 0) Sample.tree calledOff
        ["t", "x86"] = true := by decide +kernel
    exact not_independent differs
  · have differs : sampleBuilder.differs linkingCompiler Sample.tree overtaking [] = true := by decide +kernel
    exact not_independent differs

end AbiBuild.Build
