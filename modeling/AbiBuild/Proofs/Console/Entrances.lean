import AbiBuild.Console
import AbiBuild.Markup.Content
import AbiBuild.Proofs.Build.Footprint
import AbiBuild.Proofs.Build.Solo

namespace AbiBuild.Console
open AbiBuild.Build

def entrances (v : Variant) : List String := [Tasks.nativeTask v, Tasks.hookTask v]

def passage (v : Variant) (task : String) : List String :=
  if task = Tasks.nativeTask v then [task] else [Tasks.nativeTask v, task]

def raised? : Except Failure α → Option Failure
  | .error failure => some failure
  | .ok _ => none

def Unbroken (crew : Crew) (environ : Table String) (s : Source) (v : Variant) (w : Workshop) : Prop :=
  ∀ c, s.load w.tree = .ok c → (Builder.of c none [] none environ).Unbroken crew (.text v.text) w

def packageActions (b : Builder) (crew : Crew) : Table (Tasks.Program Workshop) :=
  Variant.all.map (fun v => (Tasks.nativeTask v, nativeAction b crew v)) ++
    Variant.all.map fun v => (Tasks.hookTask v, .skip)

def packageNeeds : Tasks.Needs :=
  Variant.all.map (fun v => (Tasks.nativeTask v, [])) ++
    Variant.all.map fun v => (Tasks.hookTask v, [Tasks.nativeTask v])

variable {compiler : Compiler} {crew one two : Crew} {environ overrides : Table String} {s : Source} {v : Variant} {variant : Value}
  {task : String} {w w' : Workshop} {b : Builder} {p : Package} {outcome : Except Failure Invocation}
  {cause : Failure}

theorem package_parts (b : Builder) (crew : Crew) (w : Workshop) :
    ∃ p, package b crew w = .ok p ∧ p.world = w ∧ p.graph.actions = packageActions b crew ∧
      p.graph.needs = packageNeeds :=
  ⟨_, rfl, rfl, rfl, rfl⟩

theorem native_registered (b : Builder) (crew : Crew) (v : Variant) :
    (packageActions b crew).get? (Tasks.nativeTask v) = some (nativeAction b crew v) := by
  cases v <;> rfl

theorem hook_registered (b : Builder) (crew : Crew) (v : Variant) :
    (packageActions b crew).get? (Tasks.hookTask v) = some .skip := by
  cases v <;> rfl

theorem entrance_known (actions : p.graph.actions = packageActions b crew) (entry : task ∈ entrances v) :
    p.graph.has task = true := by
  unfold Tasks.Graph.has
  rcases List.mem_pair.mp entry with rfl | rfl
  · rw [actions, native_registered]
    rfl
  · rw [actions, hook_registered]
    rfl

theorem entrance_order (entry : task ∈ entrances v) : Tasks.order packageNeeds task = .ok (passage v task) := by
  rcases List.mem_pair.mp entry with rfl | rfl
  · cases v <;> rfl
  · cases v <;> rfl

-- The native task builds once, with a cancel flag of its own, and fails as the build does.
theorem native_run (run : Nat) (actions : p.graph.actions = packageActions b crew)
    (built : b.build crew (.text v.text) { p.world with cancelled := false } = (outcome, w')) :
    ∃ q, Tasks.runTask (Tasks.execute nesting) run (Tasks.nativeTask v) p =
        some ((raised? outcome).map (.ofTask (Tasks.nativeTask v)), q) ∧ q.world = w' ∧ q.graph = p.graph := by
  have performed : ∀ q : Package, q.world = p.world →
      Tasks.execute nesting (nativeAction b crew v) q =
        some (outcome.map fun _ => .nothing, { q with world := w' }) := by
    intro q same
    unfold nativeAction nesting Tasks.execute
    simp only [Tasks.executeWith, same, built]
    cases outcome <;> rfl
  unfold Tasks.runTask
  simp only [actions, native_registered]
  rw [performed (p.note _) rfl]
  cases outcome with
  | error failure => exact ⟨_, rfl, rfl, rfl⟩
  | ok i => exact ⟨_, rfl, rfl, rfl⟩

theorem hook_run (run : Nat) (actions : p.graph.actions = packageActions b crew) :
    ∃ q, Tasks.runTask (Tasks.execute nesting) run (Tasks.hookTask v) p = some (none, q) ∧
      q.world = p.world := by
  unfold Tasks.runTask
  simp only [actions, hook_registered]
  exact ⟨_, rfl, rfl⟩

theorem passage_run (run : Nat) (actions : p.graph.actions = packageActions b crew) (entry : task ∈ entrances v)
    (built : b.build crew (.text v.text) { p.world with cancelled := false } = (outcome, w')) :
    ∃ q, Tasks.runTasks (Tasks.execute nesting) run (passage v task) p =
        some ((raised? outcome).map (.ofTask (Tasks.nativeTask v)), q) ∧ q.world = w' := by
  obtain ⟨q, first, world, graph⟩ := native_run run actions built
  unfold passage
  split
  · rename_i same
    rw [same, Tasks.runTasks, first]
    refine ⟨q, ?_, world⟩
    cases raised? outcome <;> rfl
  · rename_i other
    obtain rfl : task = Tasks.hookTask v := (List.mem_pair.mp entry).resolve_left other
    rw [Tasks.runTasks, first]
    cases raised? outcome with
    | some failure => exact ⟨q, rfl, world⟩
    | none =>
      obtain ⟨last, second, same⟩ := hook_run (v := v) run (graph ▸ actions)
      refine ⟨last, ?_, same.trans world⟩
      simp only [Option.map_none, Option.bind_some, Tasks.runTasks, second]

-- A run of an entrance is one build of the variant, whose failure it ends with.
theorem runTask_entrance (entry : task ∈ entrances v) : runTask crew environ s task w =
    match s.load w.tree with
    | .error failure => .fail [] failure w
    | .ok c =>
      match (Builder.of c none [] none environ).build crew (.text v.text) { w with cancelled := false } with
      | (.error failure, w) => .fail [] (.ofTask (Tasks.nativeTask v) failure) w
      | (.ok _, w) => .finish 0 ((passage v task).map doneLine) [] w := by
  unfold runTask loadPackage
  cases loaded : s.load w.tree with
  | error failure => rfl
  | ok c =>
    cases built : (Builder.of c none [] none environ).build crew (.text v.text)
      { w with cancelled := false } with
    | mk outcome w' =>
      obtain ⟨p, put, rfl, actions, needs⟩ := package_parts (Builder.of c none [] none environ) crew w
      have order : p.graph.order task = .ok (passage v task) := by
        unfold Tasks.Graph.order
        rw [entrance_known actions entry, needs, entrance_order entry]
        rfl
      obtain ⟨q, ran, rfl⟩ := passage_run (p := p.begin (passage v task)) p.runs actions entry built
      simp only [bind, Except.bind, put, entrance_known actions entry, Bool.not_true, Bool.false_eq_true,
        if_false, Tasks.runOrder, order, ran, built, Option.map_some]
      cases outcome <;> rfl

theorem fail_ofBuild (ofBuild : cause.isOfBuild = true) (output : List String) :
    Run.fail output cause w = .finish 1 output cause.report w := by
  cases cause with
  | mishap => cases ofBuild
  | _ => rfl

theorem fail_mishap (ofBuild : ¬ cause.isOfBuild = true) (output : List String) :
    ∃ broken, Run.fail output cause w = ⟨.broken broken, ⟨output, []⟩, w⟩ := by
  cases cause with
  | mishap broken => exact ⟨broken, rfl⟩
  | _ => exact absurd rfl ofBuild

theorem fail_workshop (output : List String) (cause : Failure) (w : Workshop) :
    (Run.fail output cause w).workshop = w := by
  cases cause <;> rfl

theorem fail_ending (output : List String) (cause : Failure) (w : Workshop) :
    (Run.fail output cause w).ending ≠ .status 0 := by
  cases cause <;> nofun

theorem build_unbroken (works : crew.Works compiler 1) (heeded : Fails (·.isOfBuild = true) (b.build crew variant w).1) :
    b.Unbroken crew variant w := by
  intro plan planned workable
  cases broke : Pool.breakage (crew.run plan.jobs (w.noting plan.notices)).1 with
  | none => rfl
  | some cause =>
    obtain ⟨length, _, calm⟩ := works plan.jobs (w.noting plan.notices)
    obtain ⟨moves, reached⟩ := calm.reaches
    have gathered : Pool.gather plan.invocation (crew.run plan.jobs (w.noting plan.notices)).1 = .error cause := by
      simp only [Pool.gather, broke]
    obtain ⟨mishap, rfl⟩ := gather_failure (plan_distinct planned) reached ((zip_snd length).symm ▸ gathered)
    have raised : (b.build crew variant w).1 = .error (.mishap mishap) := by
      unfold Builder.build
      rw [invoke_ran _ planned workable, gathered]
    cases heeded _ raised

instance (ending : Ending) (code : Nat) : Decidable (ending = .status code) :=
  match ending with
  | .status own => decidable_of_iff (own = code) (by simp)
  | .over | .broken _ => isFalse nofun

def Sample.project : FileTree := ⟨[], Sample.tree.entries ++ [
  (["m", "abi.yaml"], .file (Text.encode "libraries: [liba.so]\n") false)]⟩

def Sample.source : Source := ⟨⟨.single, ["m", "abi.yaml"]⟩, none, Markup.read⟩

def Sample.surroundings : Table String := [("PATH", "/bin"), ("ANDROID_NDK_HOME", "/ndk")]

end AbiBuild.Console
