import AbiBuild.Proofs.Build.Artifacts
import AbiBuild.Proofs.Build.Commands
import AbiBuild.Proofs.Build.Footprint
import AbiBuild.Proofs.Build.Resolution
import AbiBuild.Proofs.Placement.Bringing

namespace AbiBuild.Build
open AbiBuild.Text FileTree Placement

def missed : Except Failure Invocation → Option (List (String × Labelled))
  | .error (.missing first others) => some (first :: others)
  | _ => none

def Builder.output (b : Builder) (compiler : Compiler) (variant : Value) (t : FileTree) (abi : Abi)
    (library : String) : Option Node :=
  ((b.planned t variant).find? fun j => j.abi = abi).bind fun j => j.left compiler (j.command.leaves.child library)

-- What is to be reported: the pairs that were not left, then those that are for another machine.
def Builder.lacks (b : Builder) (compiler : Compiler) (variant : Value) (t : FileTree) : List (String × Labelled) :=
  labels (lacking b.config.architectures b.config.libraries (b.output compiler variant t))

-- Processes put files into their own architectures' directories, in a tree without links. A debug build is not told
-- to be a release build, no directory that libraries are placed in has an output directory in it, and the way to
-- the directory to compile in leads through none of them, though it may end there.
structure Builder.Uncrossed (b : Builder) (compiler : Compiler) (variant : Value) (t : FileTree) : Prop where
  resolved : ∃ s base data, (∀ name ∈ s.here, AbiBuild.Proper name) ∧ (∀ p, base = some p → p.Normal) ∧
    Config.resolve s base data = .ok b.config
  own : b.requested = b.config.architectures.map fun abi => .text abi.text
  wellFormed : t.WellFormed
  clear : Clear t []
  orderly : ∀ j ∈ b.planned t variant, j.Orderly compiler
  profile : ∀ j ∈ b.planned t variant, j.profile = .debug → "--release" ∉ b.config.arguments
  outputs : ∀ v l k, Variant.parse variant = .ok v → LeadsTo t b.config.targetDir l →
    LeadsTo t b.config.jniLibsDir k → ∀ j ∈ b.planned t variant, ∀ other ∈ b.planned t variant,
      ¬ k ++ [v.text, j.abi.text] <+: l ++ outputNames other.abi other.profile
  way : ∀ v k, Variant.parse variant = .ok v → LeadsTo t b.config.jniLibsDir k → ∀ j ∈ b.planned t variant,
    ∀ m, Along t b.config.targetDir.root b.config.targetDir.names m → k ++ [v.text, j.abi.text] <+: m →
      m = k ++ [v.text, j.abi.text]

-- A computation that does not fail as a placing does.
def Unplaced {α : Type} (x : Except Failure α) : Prop := ∀ cause, x = .error cause → cause.stage? ≠ some .placement

variable {b : Builder} {compiler : Compiler} {variant : Value} {t : FileTree} {w w' : Workshop} {i r : Invocation}
  {outcome : Except Failure Invocation} {ended : List (Job × Phase)} {j : Job} {cause : Failure}
  {found : Abi → String → Option Node} {abi : Abi} {l k : Location}
  {artifacts : List (String × FilePath)} {α β ε : Type} {x : Except Failure α}

theorem unplaced_error (other : cause.stage? ≠ some .placement) : Unplaced (.error cause : Except Failure α) :=
  Fails.error other

theorem Unplaced.bind {f : α → Except Failure β} (first : Unplaced x) (onward : ∀ a, Unplaced (f a)) :
    Unplaced (x >>= f) :=
  Fails.bind first fun a _ => onward a

theorem unplaced_mapError {y : Except ε α} {g : ε → Failure} (other : ∀ e, (g e).stage? ≠ some .placement) :
    Unplaced (y.mapError g) :=
  Fails.mapError fun e _ => other e

theorem outer_unplaced (outer : Fails Outer x) : Unplaced x := by
  refine outer.mono fun cause ends => ?_
  rcases ends with stage | stage <;> simp [stage]

theorem plan_unplaced (b : Builder) (t : FileTree) (variant : Value) : Unplaced (b.plan t variant) := by
  unfold Builder.plan
  refine (unplaced_mapError fun fault => by simp [Failure.stage?]).bind fun v => ?_
  refine (unplaced_mapError fun fault => by cases fault <;> simp [Failure.ofVariant, Failure.stage?]).bind fun p => ?_
  refine (unplaced_mapError fun fault => by simp [Failure.stage?]).bind fun architectures => ?_
  refine outer_unplaced ((manifest_outer b t).bind fun _ _ => (cargo_outer b t).bind fun _ _ => ?_)
  exact (find_outer _ _ _ _).bind fun _ _ => (writing_outer _).bind fun _ _ => .ok _

theorem invokes_unplaced (ran : b.Invokes compiler variant w outcome w' ended) : Unplaced outcome := by
  cases ran with
  | unplanned refused => exact unplaced_error (plan_unplaced b w.tree variant _ refused)
  | unworkable planned refused =>
    refine unplaced_error ?_
    unfold Builder.checkWorkers at refused
    split at refused
    · split at refused
      · cases refused
        simp [Failure.stage?]
      · cases refused
    · cases refused
  | ran planned workable reached finished =>
    intro cause failed
    obtain ⟨fault, rfl⟩ := gather_failure (plan_distinct planned) reached failed
    simp [Failure.stage?]

theorem Unplaced.missed (unplaced : Unplaced outcome) : missed outcome = none := by
  cases outcome with
  | ok i => rfl
  | error cause =>
    cases cause with
    | missing first others => exact absurd rfl (unplaced _ rfl)
    | _ => rfl

theorem planned_leaves (uncrossed : b.Uncrossed compiler variant t) (member : j ∈ b.planned t variant) :
    j.command.leaves = j.outputDir j.profile := by
  obtain ⟨s, base, data, here, normal, resolved⟩ := uncrossed.resolved
  have unreleased := uncrossed.profile j member
  unfold Builder.planned at member
  cases planned : b.plan t variant with
  | error cause =>
    rw [planned] at member
    cases member
  | ok plan =>
    rw [planned] at member
    obtain ⟨v, p, architectures, cargo, ndk, _, _, _, _, _, same⟩ := plan_parts planned
    simp only [same] at member
    obtain ⟨abi, _, rfl⟩ := List.mem_map.mp member
    have leaves := @build_leaves b.config cargo abi p (Config.resolve_target_normal here normal resolved)
      (Config.resolve_accepted resolved).target (Config.resolve_module_absolute resolved)
    refine leaves.trans ?_
    have profile : (if "--release" ∈ b.config.arguments then Profile.release else p) = p := by
      cases p with
      | debug => rw [if_neg (unreleased rfl)]
      | release => simp
    rw [profile]
    rfl

theorem uncrossed_disjoint (uncrossed : b.Uncrossed compiler variant w.tree) (steady : Steady w.tree w'.tree)
    (parsed : Variant.parse variant = .ok i.variant) (target : LeadsTo w.tree b.config.targetDir l)
    (jniLibs : LeadsTo w.tree b.config.jniLibsDir k)
    (all : ∀ abi ∈ i.architectures, ∃ j ∈ b.planned w.tree variant, j.abi = abi ∧ j.profile = i.profile) :
    (b.site w'.tree i l k).Disjoint i.architectures := by
  refine ⟨uncrossed.clear.congr steady.links, fun abi member other among => ?_, fun abi member m along => ?_⟩
  · obtain ⟨j, planned, rfl, _⟩ := all abi member
    obtain ⟨j', planned', rfl, profile⟩ := all other among
    have apart := uncrossed.outputs i.variant l k parsed target jniLibs j planned j' planned'
    rw [profile] at apart
    exact apart
  · obtain ⟨j, planned, rfl, _⟩ := all abi member
    exact uncrossed.way i.variant k parsed jniLibs j planned m (steady.along.mp along)

theorem install_lacking (checked : i.check = .ok ())
    (known : (place w.tree i b.config.libraries b.config.jniLibsDir).failure = none → ∀ abi ∈ i.architectures,
      ∀ library ∈ b.config.libraries, ∀ finding, inspect (place w.tree i b.config.libraries b.config.jniLibsDir).tree
        ((abiDir b.config.jniLibsDir i.variant abi).child library) abi = .ok finding →
          finding = .of abi (found abi library)) :
    (∀ pairs, missed (b.install i w).1 = some pairs →
      pairs = labels (lacking i.architectures b.config.libraries found)) ∧
    ∀ r, (b.install i w).1 = .ok r → labels (lacking i.architectures b.config.libraries found) = [] := by
  unfold Builder.install
  simp only
  cases placed : (place w.tree i b.config.libraries b.config.jniLibsDir).failure with
  | some cause =>
    obtain ⟨fault, rfl⟩ := place_failure checked placed
    exact ⟨fun pairs said => (by cases said), fun r fine => (by cases fine)⟩
  | none =>
    rcases require_pairs (known placed) with
      ⟨report, passed, nothing⟩ | ⟨fault, failed⟩ | ⟨first, others, failed, same⟩
    · simp only [passed, nothing]
      exact ⟨fun pairs said => (by cases said), fun _ _ => rfl⟩
    · simp only [failed]
      exact ⟨fun pairs said => (by cases said), fun r fine => (by cases fine)⟩
    · simp only [failed]
      refine ⟨fun pairs said => ?_, fun r fine => (by cases fine)⟩
      cases said
      exact same

theorem output_planned (compiler : Compiler) (member : abi ∈ (b.planned t variant).map Job.abi) :
    ∃ j ∈ b.planned t variant, j.abi = abi ∧ ∀ library,
      b.output compiler variant t abi library = j.left compiler (j.command.leaves.child library) := by
  obtain ⟨own, inside, rfl⟩ := List.mem_map.mp member
  cases found : (b.planned t variant).find? fun j => j.abi = own.abi with
  | none => exact absurd (List.find?_eq_none.mp found own inside) (by simp)
  | some j =>
    refine ⟨j, List.mem_of_find?_eq_some found, by simpa using List.find?_some found, fun library => ?_⟩
    unfold Builder.output
    rw [found]
    rfl

theorem Furnished.lists (left : Furnished j compiler b.config.targetDir l t artifacts)
    (homed : j.Homed b.config.targetDir) (libraries : j.libraries = b.config.libraries)
    (profile : j.profile = i.profile) : (b.site t i l k).Lists j.abi artifacts := by
  intro library path configured listed
  rw [left.paths library path listed, libraryPath_eq homed j.profile (libraries ▸ configured), profile]
  rfl

theorem Furnished.offers (left : Furnished j compiler b.config.targetDir l t artifacts)
    (homed : j.Homed b.config.targetDir) (libraries : j.libraries = b.config.libraries)
    (profile : j.profile = i.profile) : (b.site t i l k).Offers j.abi artifacts := by
  rintro library configured ⟨content, executable, there⟩
  have inside : library ∈ j.libraries := libraries ▸ configured
  change t.node? (l ++ libraryNames j.abi i.profile library) = _ at there
  rw [← profile] at there
  obtain ⟨listed, fits⟩ := left.listed library inside _ ((left.files library inside content executable).mp there)
  refine ⟨listed.trans ?_, fits⟩
  rw [libraryPath_eq homed j.profile inside, profile]
  rfl

-- The libraries that were compiled are those that the processes left where their commands say.
theorem furnished_lacking {u : FileTree} (uncrossed : b.Uncrossed compiler variant t)
    (own : i.architectures = b.config.architectures) (abis : (b.planned t variant).map Job.abi = i.architectures)
    (furnished : ∀ j ∈ b.planned t variant, j.libraries = b.config.libraries ∧ j.profile = i.profile ∧
      ∃ artifacts, Furnished j compiler b.config.targetDir l u artifacts) :
    lacking i.architectures b.config.libraries (fun abi library => u.node? ((b.site u i l k).source abi library)) =
      lacking b.config.architectures b.config.libraries (b.output compiler variant t) := by
  rw [← own]
  refine lacking_congr fun abi member library configured content executable => ?_
  obtain ⟨j, planned, rfl, output⟩ := output_planned compiler (abis ▸ member)
  obtain ⟨libraries, profile, artifacts, left⟩ := furnished j planned
  rw [output, planned_leaves uncrossed planned]
  change u.node? (l ++ libraryNames j.abi i.profile library) = _ ↔ _
  rw [← profile]
  exact left.files library (libraries ▸ configured) content executable

theorem compiled_lacking (uncrossed : b.Uncrossed compiler variant w.tree)
    (ran : b.Invokes compiler variant w (.ok i) w' ended) (checked : i.check = .ok ()) :
    (∀ pairs, missed (b.install i w').1 = some pairs → pairs = b.lacks compiler variant w.tree) ∧
    ∀ r, (b.install i w').1 = .ok r → b.lacks compiler variant w.tree = [] := by
  obtain ⟨_, _, _, _, _, resolution⟩ := uncrossed.resolved
  have accepted := Config.resolve_accepted resolution
  obtain ⟨l, target⟩ := @exists_leads w.tree (base w.tree.here b.config.targetDir) uncrossed.clear
    b.config.targetDir.names
  obtain ⟨k, jniLibs⟩ := @exists_leads w.tree (base w.tree.here b.config.jniLibsDir) uncrossed.clear
    b.config.jniLibsDir.names
  have hosts : ∀ {p m}, LeadsTo w.tree p m → Hosts w.tree p m := fun {_ m} leads other leads' =>
    Leads.deterministic leads' leads ▸ ⟨rfl, uncrossed.clear.under _⟩
  obtain ⟨steady, parsed, resolved, abis, furnished⟩ :=
    invokes_furnished accepted uncrossed.wellFormed (hosts target) uncrossed.orderly ran checked
  rw [uncrossed.own] at resolved
  have own := Abi.resolve_own accepted.distinct resolved
  have valid := site_valid accepted steady.wellFormed (steady.hosts (hosts target)) (steady.hosts (hosts jniLibs)) i
  -- Each architecture has the job that was planned for it, and the result holds what that job found.
  have job : ∀ abi ∈ i.architectures, ∃ j ∈ b.planned w.tree variant, j.abi = abi ∧ j.Homed b.config.targetDir ∧
      j.libraries = b.config.libraries ∧ j.profile = i.profile ∧ Furnished j compiler b.config.targetDir l w'.tree
        (((i.result? abi).map Compilation.artifacts).getD []) := by
    intro abi member
    rw [← abis] at member
    obtain ⟨j, inside, rfl⟩ := List.mem_map.mp member
    obtain ⟨homed, libraries, profile, result, found, left⟩ := furnished j inside
    rw [found]
    exact ⟨j, inside, rfl, homed, libraries, profile, left⟩
  have disjoint := uncrossed_disjoint uncrossed steady parsed target jniLibs fun abi member => by
    obtain ⟨j, inside, same, _, _, profile, _⟩ := job abi member
    exact ⟨j, inside, same, profile⟩
  have lists : ∀ abi ∈ i.architectures,
      (b.site w'.tree i l k).Lists abi (((i.result? abi).map Compilation.artifacts).getD []) := by
    intro abi member
    obtain ⟨j, _, rfl, homed, libraries, profile, left⟩ := job abi member
    exact left.lists homed libraries profile
  have offers : ∀ abi ∈ i.architectures,
      (b.site w'.tree i l k).Offers abi (((i.result? abi).map Compilation.artifacts).getD []) := by
    intro abi member
    obtain ⟨j, _, rfl, homed, libraries, profile, left⟩ := job abi member
    exact left.offers homed libraries profile
  have lacks := furnished_lacking (k := k) uncrossed own abis fun j planned => by
    obtain ⟨_, libraries, profile, result, _, left⟩ := furnished j planned
    exact ⟨libraries, profile, result.artifacts, left⟩
  have distinct : i.architectures.Nodup := own ▸ accepted.distinct
  unfold Builder.lacks
  rw [← lacks]
  refine install_lacking checked fun fine abi member library configured finding looked => ?_
  obtain ⟨j, _, rfl, _, _, _, left⟩ := job abi member
  exact placed_found valid (place_held valid rfl checked lists distinct fine)
    (place_brings valid disjoint left.stands rfl checked lists offers distinct fine) (offers _ member) member
    configured looked

theorem missed_cons {pairs : List (String × Labelled)} (said : missed outcome = some pairs) : pairs ≠ [] := by
  unfold missed at said
  split at said
  · cases said
    simp
  · cases said

theorem builds_lacking (uncrossed : b.Uncrossed compiler variant w.tree)
    (ran : b.Builds compiler variant w outcome w' ended) :
    (∀ pairs, missed outcome = some pairs → pairs = b.lacks compiler variant w.tree) ∧
    ∀ i, outcome = .ok i → b.lacks compiler variant w.tree = [] := by
  cases ran with
  | uncompiled ran =>
    refine ⟨fun pairs said => ?_, fun i fine => (by cases fine)⟩
    rw [(invokes_unplaced ran).missed] at said
    cases said
  | unfinished ran failed =>
    refine ⟨fun pairs said => ?_, fun i fine => (by cases fine)⟩
    have unplaced : Unplaced (.error _ : Except Failure Invocation) :=
      unplaced_error (by rw [check_failure failed]; simp)
    rw [unplaced.missed] at said
    cases said
  | compiled ran checked => exact compiled_lacking uncrossed ran checked

theorem missing_artifacts_exact (uncrossed : b.Uncrossed compiler variant w.tree)
    (ran : b.Builds compiler variant w outcome w' ended) :
    (∀ pairs, missed outcome = some pairs → pairs ≠ [] ∧ pairs = b.lacks compiler variant w.tree) ∧
    (∀ i, outcome = .ok i → b.lacks compiler variant w.tree = []) ∧
    ∀ pairs abi library content executable, missed outcome = some pairs →
      b.output compiler variant w.tree abi library = some (.file content executable) →
      (∀ machine, Elf.machine? content = some machine → machine = abi.machine) → (library, .known abi) ∉ pairs := by
  obtain ⟨said_, fine⟩ := builds_lacking uncrossed ran
  refine ⟨fun pairs said => ⟨missed_cons said, said_ pairs said⟩, fine, ?_⟩
  intro pairs abi library content executable said left machine member
  rw [said_ pairs said] at member
  obtain ⟨⟨library', abi'⟩, inside, same⟩ := List.mem_map.mp member
  obtain ⟨rfl, rfl⟩ : library' = library ∧ abi' = abi := by simpa using same
  rcases List.mem_append.mp inside with absent | foreign
  · obtain ⟨_, _, no⟩ := mem_pairsWhere.mp absent
    simp [left, Node.isFile] at no
  · obtain ⟨_, _, yes⟩ := mem_pairsWhere.mp foreign
    simp only [left, Option.any_some, Node.isForeign, Option.any_eq_true, decide_eq_true_eq] at yes
    obtain ⟨other, found, differs⟩ := yes
    exact differs (machine other found)

def Sample.pair : Builder := .of { Sample.config with libraries := ["liba.so", "libb.so"] } none [] none []

theorem pair_resolved : Config.resolve Sample.tree none [
    (.text "module", .text "/m"), (.text "targets", .list [.text "arm64", .text "x86"]),
    (.text "libraries", .list [.text "liba.so", .text "libb.so"]), (.text "target_dir", .text "/t"),
    (.text "jni_libs_dir", .text "/j"), (.text "ndk_dir", .text "/ndk"),
    (.text "cargo_bin", .text "/bin/cargo")] = .ok Sample.pair.config :=
  ok_of_toOption (by decide +kernel)

theorem pair_uncrossed (content : Bytes) (exit : Int) :
    Sample.pair.Uncrossed (.ofBehaviours fun _ => sampleBehaviour content exit) (.text "debug") Sample.used := by
  have clear : Clear Sample.used [] := Clear.of_entries (by decide)
  have place : ∀ name, name ≠ ".." → ∀ m, LeadsTo Sample.used ⟨.single, [name]⟩ m → m = [name] :=
    fun name notUp m leads => leads_down clear (by simpa using notUp) leads
  refine ⟨⟨Sample.tree, none, _, by simp [Sample.tree], by simp, pair_resolved⟩, rfl,
    WellFormed.of_entries (by decide), clear, fun j member => ?_, fun _ _ _ => by decide, ?_, ?_⟩
  · have facts : ∀ j ∈ Sample.pair.planned Sample.used (.text "debug"), j.command.outputDir = j.outputDir j.profile ∧
        FilePath.anyNul (j.command.outputDir.child "liba.so").names = false ∧
        ∀ name ∈ (j.command.outputDir.child "liba.so").names, ¬ maxNameSize < name.utf8ByteSize := by
      decide +kernel
    obtain ⟨own, noNul, fits⟩ := facts j member
    exact sampleBehaviour_orderly content exit own noNul fits
  · intro v l k _ target jniLibs j _ other _
    rw [place "t" (by decide) l target, place "j" (by decide) k jniLibs]
    simp
  · rintro v k _ jniLibs j _ m ⟨count, leads⟩ inside
    rw [place "j" (by decide) k jniLibs] at inside
    have plain : ∀ name ∈ ["t"].take count, name ≠ ".." := by
      intro name member
      rw [List.mem_singleton.mp (List.mem_of_mem_take member)]
      decide
    have end_ : m = [] ++ ["t"].take count := leads_down clear plain leads
    have length := inside.length_le
    have short : (["t"].take count).length ≤ 1 := List.length_take_le' count ["t"]
    rw [end_] at length
    simp only [List.nil_append, List.length_append, List.length_cons, List.length_nil] at length
    omega

-- The one library is not left at all, the other for one architecture alone.
theorem absent_and_foreign_reported :
    let compiler : Compiler := .ofBehaviours fun _ => sampleBehaviour (sampleElf Abi.arm64.triple) 0
    ∃ outcome w' ended, Sample.pair.Builds compiler (.text "debug") (.opened Sample.used) outcome w' ended ∧
      missed outcome =
        some [("libb.so", .known .arm64), ("libb.so", .known .x86), ("liba.so", .known .x86)] ∧
      Sample.pair.lacks compiler (.text "debug") Sample.used =
        [("libb.so", .known .arm64), ("libb.so", .known .x86), ("liba.so", .known .x86)] := by
  intro compiler
  obtain ⟨ended, ran⟩ := build_builds Sample.pair compiler (.text "debug") (.opened Sample.used)
  have said : missed (Sample.pair.build compiler (.text "debug") (.opened Sample.used)).1 =
      some [("libb.so", .known .arm64), ("libb.so", .known .x86), ("liba.so", .known .x86)] := by decide +kernel
  exact ⟨_, _, ended, ran, said, ((missing_artifacts_exact (pair_uncrossed _ 0) ran).1 _ said).2.symm⟩

-- A configuration that was read, and processes that leave their libraries where the commands say.
def Builder.Obeyed (b : Builder) (compiler : Compiler) (variant : Value) (t : FileTree) : Prop :=
  (∃ data, Config.resolve t none data = .ok b.config) ∧
    ∀ j ∈ b.planned t variant, j.Tidy compiler j.command.leaves

-- What a build would report if nothing could get in its way.
def Builder.Truthful (b : Builder) (compiler : Compiler) (variant : Value) (t : FileTree) : Prop :=
  ∀ outcome w' ended pairs, b.Builds compiler variant (.opened t) outcome w' ended → missed outcome = some pairs →
    pairs = b.lacks compiler variant t

theorem not_truthful (pairs : List (String × Labelled))
    (said : missed (b.build compiler variant (.opened t)).1 = some pairs ∧ b.lacks compiler variant t ≠ pairs) :
    ¬ b.Truthful compiler variant t := by
  intro truthful
  obtain ⟨ended, ran⟩ := build_builds b compiler variant (.opened t)
  exact said.2 (truthful _ _ ended pairs ran said.1).symm

theorem sample_obeyed {p : Profile} {data : Config.Entries} (resolved : Config.resolve t none data = .ok b.config)
    (own : ∀ j ∈ b.planned t variant, j.command.outputDir = j.outputDir p ∧ j.command.leaves = j.outputDir p)
    (byte : UInt8) (exit : Int) : b.Obeyed (sampleCompiler byte exit) variant t := by
  refine ⟨⟨data, resolved⟩, fun j member => ?_⟩
  obtain ⟨written, said⟩ := own j member
  rw [said]
  exact ofBehaviours_tidy written fun _ => sampleBehaviour_plain _ _

def Sample.releasing : Builder := .of { Sample.config with arguments := ["--release"] } none [] none []

-- The process is told to make a release build; or the directories for the libraries are made anew over those that
-- they were compiled in; or over what the way there leads through.
theorem built_libraries_reported :
    (Sample.releasing.Obeyed (sampleCompiler 1 0) (.text "debug") Sample.tree ∧
      ¬ Sample.releasing.Truthful (sampleCompiler 1 0) (.text "debug") Sample.tree) ∧
    ((Sample.builderWith "/j/debug" "liba.so").Obeyed (sampleCompiler 1 0) (.text "debug") Sample.tree ∧
      ¬ (Sample.builderWith "/j/debug" "liba.so").Truthful (sampleCompiler 1 0) (.text "debug") Sample.tree) ∧
    ((Sample.builderWith "/j/debug/x86/z/../../../../t" "liba.so").Obeyed (sampleCompiler 1 0) (.text "debug")
        Sample.tree ∧
      ¬ (Sample.builderWith "/j/debug/x86/z/../../../../t" "liba.so").Truthful (sampleCompiler 1 0) (.text "debug")
        Sample.tree) := by
  have releasing : Config.resolve Sample.tree none
      (Sample.settings ++ [(.text "extra_cargo_build_arguments", .list [.text "--release"])]) =
      .ok Sample.releasing.config := ok_of_toOption (by decide +kernel)
  have above : Config.resolve Sample.tree none (Sample.settingsWith "/j/debug" "liba.so") =
      .ok (Sample.builderWith "/j/debug" "liba.so").config := ok_of_toOption (by decide +kernel)
  have through : Config.resolve Sample.tree none (Sample.settingsWith "/j/debug/x86/z/../../../../t" "liba.so") =
      .ok (Sample.builderWith "/j/debug/x86/z/../../../../t" "liba.so").config := ok_of_toOption (by decide +kernel)
  refine ⟨⟨?_, ?_⟩, ⟨?_, ?_⟩, ?_, ?_⟩
  · exact sample_obeyed (p := .release) releasing (by decide +kernel) 1 0
  · exact not_truthful [("liba.so", .known .arm64), ("liba.so", .known .x86)] (by decide +kernel)
  · exact sample_obeyed (p := .debug) above (by decide +kernel) 1 0
  · exact not_truthful [("liba.so", .known .arm64), ("liba.so", .known .x86)] (by decide +kernel)
  · exact sample_obeyed (p := .debug) through (by decide +kernel) 1 0
  · exact not_truthful [("liba.so", .known .x86)] (by decide +kernel)

end AbiBuild.Build
