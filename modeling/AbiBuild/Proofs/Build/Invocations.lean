import AbiBuild.Proofs.Build.Produced
import AbiBuild.Proofs.Build.Runs
import AbiBuild.Proofs.Config.Accepted

namespace AbiBuild.Build
open FileTree

-- The jobs that are to run, unless the invocation is refused before.
def Builder.planned (b : Builder) (t : FileTree) (variant : Value) : List Job :=
  match b.plan t variant with
  | .ok plan => plan.jobs
  | .error _ => []

-- Whatever the jobs' processes put anywhere is a file below the job's own directory.
def Contained (compiler : Compiler) (jobs : List (Job × Phase)) : Prop :=
  ∀ s ∈ jobs, s.1.Tidy compiler s.1.home

-- An invocation that is over, with the compiler as it then was.
structure Episode where
  compiler : Compiler
  jobs : List (Job × Phase)

-- The last that a process put there which then ended with status zero.
def Episode.Wrote (e : Episode) (path : FilePath) (abi : Abi) (p : Profile) (node : Node) : Prop :=
  ∃ j result process, (j, .ended result) ∈ e.jobs ∧ j.abi = abi ∧ j.profile = p ∧ result.ok = true ∧
    e.compiler j.command = .started process ∧ process.status = 0 ∧
    lastWrite process.writes path = some node

variable {b : Builder} {compiler : Compiler} {t u : FileTree} {root : FilePath} {l : Location}
  {variant : Value} {plan : Builder.Plan} {jobs : List Job} {w w' : Workshop} {j : Job}
  {phase next : Phase} {made : Location → Prop} {c : Config} {p : Profile} {abi : Abi}
  {library : String}

theorem plan_parts (planned : b.plan t variant = .ok plan) : ∃ v p architectures cargo ndk,
    Variant.parse variant = .ok v ∧ Variant.profile (.text v.text) b.config.overrides = .ok p ∧
      Abi.resolve b.requested = .ok architectures ∧ b.findCargo t = .ok cargo ∧
      plan.invocation = .start v p architectures ∧ plan.jobs = architectures.map (b.job cargo p ndk) := by
  unfold Builder.plan at planned
  obtain ⟨v, parsed, planned⟩ := bind_ok planned
  obtain ⟨p, profiled, planned⟩ := bind_ok planned
  obtain ⟨architectures, resolved, planned⟩ := bind_ok planned
  obtain ⟨_, _, planned⟩ := bind_ok planned
  obtain ⟨cargo, found, planned⟩ := bind_ok planned
  obtain ⟨⟨ndk, notices⟩, _, planned⟩ := bind_ok planned
  obtain ⟨_, _, planned⟩ := bind_ok planned
  cases planned
  exact ⟨v, p, architectures, cargo, ndk, mapError_ok parsed, mapError_ok profiled, mapError_ok resolved,
    found, rfl, rfl⟩

theorem job_homed (accepted : Accepted b.config) (cargo : String) (p : Profile) (ndk : FilePath)
    (abi : Abi) : (b.job cargo p ndk abi).Homed b.config.targetDir :=
  ⟨FilePath.child_plain (abi_plain abi), accepted.plain⟩

theorem plan_homed (accepted : Accepted b.config) (planned : b.plan t variant = .ok plan) :
    ∀ j ∈ plan.jobs, j.Homed b.config.targetDir ∧ j.libraries = b.config.libraries := by
  obtain ⟨v, p, architectures, cargo, ndk, _, _, _, _, _, same⟩ := plan_parts planned
  intro j member
  rw [same] at member
  obtain ⟨abi, _, rfl⟩ := List.mem_map.mp member
  exact ⟨job_homed accepted _ _ _ _, rfl⟩

theorem libraryPath_same (homed : j.Homed c.targetDir) :
    j.libraryPath p library = c.libraryPath j.abi p library := by
  unfold Job.libraryPath Job.outputDir Config.libraryPath Config.outputDir Config.abiDir
  rw [homed.home, FilePath.child_plain (abi_plain _)]

theorem config_outputDir (c : Config) (abi : Abi) (p : Profile) :
    c.outputDir abi p = c.targetDir.under (outputNames abi p) := by
  unfold Config.outputDir Config.abiDir
  rw [FilePath.child_plain (abi_plain _), FilePath.child_plain (triple_plain _),
    FilePath.child_plain (outputDir_plain _), FilePath.under_under, FilePath.under_under]
  rfl

theorem config_libraryPath (accepted : Accepted c) (member : library ∈ c.libraries) :
    c.libraryPath abi p library = c.targetDir.under (libraryNames abi p library) := by
  unfold Config.libraryPath
  rw [config_outputDir, FilePath.child_plain (accepted.plain library member), FilePath.under_under]
  rfl

theorem plan_distinct (planned : b.plan t variant = .ok plan) : (plan.jobs.map Job.abi).Nodup := by
  obtain ⟨v, p, architectures, cargo, ndk, _, _, resolved, _, _, same⟩ := plan_parts planned
  have abis : (architectures.map (b.job cargo p ndk)).map Job.abi = architectures := by
    rw [List.map_map]
    exact List.map_id'' (fun _ => rfl) architectures
  rw [same, abis]
  exact Abi.resolve_nodup resolved

theorem Tidy.home (tidy : j.Tidy compiler (j.outputDir p)) :
    j.Tidy compiler j.home := by
  intro process started item member
  have below := tidy process started item member
  unfold Job.outputDir at below
  rw [FilePath.child_plain (triple_plain _), FilePath.child_plain (outputDir_plain _),
    FilePath.under_under] at below
  exact below.above (by simp [triple_plain, outputDir_plain])

theorem own_compatible (absolute : root.root ≠ .relative) (hosts : Hosts t root l)
    (homed : ∀ j ∈ jobs, j.Homed root) (tidy : ∀ j ∈ jobs, j.Tidy compiler j.home) :
    Compatible compiler jobs (fun w => Steady t w.tree)
      (fun j phase w => Own j compiler root l w.tree phase) where
  common j member phase w steady own :=
    steady.changes (acts_changes steady.wellFormed absolute (steady.hosts hosts) (homed j member)
      (tidy j member) (own_started own) (step_acts j compiler phase w))
  own j member phase w steady own :=
    own_acts steady.wellFormed absolute (steady.hosts hosts) (homed j member) (tidy j member) own
      (step_acts j compiler phase w)
  others j member phase w steady own k known apart other kept := by
    have changes := acts_changes steady.wellFormed absolute (steady.hosts hosts) (homed j member)
      (tidy j member) (own_started own) (step_acts j compiler phase w)
    exact own_elsewhere changes (fun library => outside_abi (Ne.symm apart) _) kept
  cancel w steady := steady
  ownCancel j member phase w steady own := own

theorem invokes_planned {outcome : Except Failure Invocation} {ended : List (Job × Phase)}
    (ran : b.Invokes compiler variant w outcome w' ended) : ∀ s ∈ ended, s.1 ∈ b.planned w.tree variant := by
  cases ran with
  | unplanned => simp
  | unworkable => simp
  | ran planned workable reached finished =>
    intro s member
    unfold Builder.planned
    rw [planned]
    simp only
    rw [← reaches_jobs (plan_distinct planned) reached]
    exact List.mem_map_of_mem member

@[simp] theorem behaviour_left (b : Behaviour) (c : Command) : (b.process c).left = [] := by
  unfold Process.left Process.stopped Behaviour.process
  cases b.ignoresTerm <;> rfl

theorem behaviour_items (b : Behaviour) (c : Command) : (b.process c).writes ++ (b.process c).left =
    b.libraries.map fun item => (c.outputDir.child item.1, item.2) := by
  rw [behaviour_left, List.append_nil]
  rfl

theorem ofBehaviours_started {behaviour : String → Behaviour} {c : Command} {process : Process}
    (started : Compiler.ofBehaviours behaviour c = .started process) :
    process = (behaviour c.triple).process c := by
  unfold Compiler.ofBehaviours at started
  simp only at started
  split at started
  · cases started
  · exact (Start.started.inj started).symm

theorem ofBehaviours_tidy {behaviour : String → Behaviour} {p : Profile}
    (own : j.command.outputDir = j.outputDir p)
    (plain : ∀ triple, ∀ item ∈ (behaviour triple).libraries, Plain item.1 ∧ item.2.isFile = true) :
    j.Tidy (.ofBehaviours behaviour) (j.outputDir p) := by
  intro process started item member
  rw [ofBehaviours_started started, behaviour_items, List.mem_map] at member
  obtain ⟨⟨name, node⟩, inside, rfl⟩ := member
  obtain ⟨good, file⟩ := plain _ _ inside
  cases node with
  | directory => cases file
  | link target => cases file
  | file content executable =>
    refine ⟨[name], content, executable, ?_, by simp, by simpa using good⟩
    simp only
    rw [own, FilePath.child_plain good]

theorem sample_wellFormed : Sample.tree.WellFormed := WellFormed.of_entries (by decide)

def sampleBuilder : Builder := .of Sample.config none [] none []

def sampleBehaviour (content : Text.Bytes) (exit : Int) : Behaviour :=
  ⟨none, [("liba.so", .file content false)], exit, "", .zero false, 0, none, false⟩

def sampleCompiler (byte : UInt8) (exit : Int) : Compiler :=
  .ofBehaviours fun _ => sampleBehaviour [byte] exit

theorem sampleBehaviour_plain (content : Text.Bytes) (exit : Int) :
    ∀ item ∈ (sampleBehaviour content exit).libraries, Plain item.1 ∧ item.2.isFile = true := by
  intro item inside
  have only : item = ("liba.so", .file content false) := List.mem_singleton.mp inside
  have plain : Plain "liba.so" := by decide
  subst only
  exact ⟨plain, rfl⟩

theorem invokes_own {outcome : Except Failure Invocation} {ended : List (Job × Phase)}
    (accepted : Accepted b.config) (wellFormed : w.tree.WellFormed)
    (hosts : Hosts w.tree b.config.targetDir l) (contained : Contained compiler ended)
    (ran : b.Invokes compiler variant w outcome w' ended) :
    Steady w.tree w'.tree ∧
      ∀ s ∈ ended, Own s.1 compiler b.config.targetDir l w'.tree s.2 := by
  cases ran with
  | unplanned => exact ⟨.refl wellFormed, by simp⟩
  | unworkable => exact ⟨.refl wellFormed, by simp⟩
  | @ran plan moves last planned workable reached finished =>
    have distinct := plan_distinct planned
    have same := reaches_jobs distinct reached
    have homed := plan_homed accepted planned
    have tidy : ∀ j ∈ plan.jobs, j.Tidy compiler j.home := by
      intro j member
      rw [← same] at member
      obtain ⟨s, inside, rfl⟩ := List.mem_map.mp member
      exact contained s inside
    have compatible := own_compatible accepted.target hosts (fun j member => (homed j member).1) tidy
    have sound := reaches_sound compatible distinct
      (start_sound (w := w.noting plan.notices) (.refl wellFormed) fun _ _ => trivial) reached
    exact ⟨sound.common, sound.own⟩

end AbiBuild.Build
