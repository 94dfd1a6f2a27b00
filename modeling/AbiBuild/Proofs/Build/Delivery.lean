import AbiBuild.Proofs.Build.Invocations
import AbiBuild.Proofs.Placement.Checking
import AbiBuild.Proofs.Placement.Placing

namespace AbiBuild.Build
open FileTree Placement

-- How a build may end: its invocation may run in any of the ways in which it can.
inductive Builder.Builds (b : Builder) (compiler : Compiler) (variant : Value) (w : Workshop) :
    Except Failure Invocation → Workshop → List (Job × Phase) → Prop
  | uncompiled {w' : Workshop} (ran : b.Invokes compiler variant w (.error cause) w' ended) :
      Builds b compiler variant w (.error cause) w' ended
  | unfinished {w' : Workshop} (ran : b.Invokes compiler variant w (.ok i) w' ended)
      (failed : i.check = .error cause) : Builds b compiler variant w (.error cause) w' ended
  | compiled {w' : Workshop} (ran : b.Invokes compiler variant w (.ok i) w' ended)
      (checked : i.check = .ok ()) :
      Builds b compiler variant w (b.install i w').1 (b.install i w').2 ended

-- What an installation comes to: its libraries cannot be placed, the check behind that fails, or all is well.
inductive Builder.Installs (b : Builder) (i : Invocation) (w : Workshop) : Except Failure Invocation → Prop
  | unplaced (failed : (place w.tree i b.config.libraries b.config.jniLibsDir).failure = some cause) :
      Installs b i w (.error cause)
  | unmet (placed : (place w.tree i b.config.libraries b.config.jniLibsDir).failure = none)
      (required : (require (place w.tree i b.config.libraries b.config.jniLibsDir).tree b.config.jniLibsDir
        (.text i.variant.text) i.architectures b.config.libraries).1 = .error cause) :
      Installs b i w (.error cause)
  | installed (placed : (place w.tree i b.config.libraries b.config.jniLibsDir).failure = none)
      (required : (require (place w.tree i b.config.libraries b.config.jniLibsDir).tree b.config.jniLibsDir
        (.text i.variant.text) i.architectures b.config.libraries).1 = .ok report) :
      Installs b i w (.ok i)

-- What an architecture's directory holds after a build.
structure Delivered (c : Config) (e : Episode) (t : FileTree) (v : Variant) (p : Profile) (abi : Abi) :
    Prop where
  only : ∃ names, t.names (abiDir c.jniLibsDir v abi) = .ok names ∧
    ∀ name, name ∈ names ↔ name ∈ c.libraries
  own : ∀ library ∈ c.libraries, ∃ content executable,
    t.probe ((abiDir c.jniLibsDir v abi).child library) = .ok (some (.file content executable)) ∧
      e.Wrote (c.libraryPath abi p library) abi p (.file content executable) ∧
      ∀ machine, Elf.machine? content = some machine → machine = abi.machine

-- Where a build takes its libraries from and where it puts them, once it has compiled.
def Builder.site (b : Builder) (t : FileTree) (i : Invocation) (l k : Location) : Site :=
  ⟨t, b.config.targetDir, l, b.config.jniLibsDir, k, i.variant, i.profile, b.config.libraries⟩

variable {b : Builder} {compiler : Compiler} {t : FileTree} {variant : Value} {w w' : Workshop}
  {ended : List (Job × Phase)} {phases : List Phase} {i : Invocation} {c : Config} {abi : Abi}
  {v : Variant} {p : Profile} {l k : Location} {outcome : Except Failure Invocation}
  {architectures : List Abi} {result : Compilation} {r : Invocation}

theorem build_builds (b : Builder) (compiler : Compiler) (variant : Value) (w : Workshop) :
    ∃ ended, b.Builds compiler variant w (b.build compiler variant w).1 (b.build compiler variant w).2
      ended := by
  obtain ⟨ended, ran⟩ := invoke_invokes b compiler variant w
  refine ⟨ended, ?_⟩
  unfold Builder.build
  generalize b.invoke compiler variant w = r at ran ⊢
  obtain ⟨outcome, v⟩ := r
  cases outcome with
  | error cause => exact .uncompiled ran
  | ok i =>
    simp only at ran ⊢
    cases checked : i.check with
    | error cause => exact .unfinished ran checked
    | ok done => exact .compiled ran checked

theorem builds_planned (ran : b.Builds compiler variant w outcome w' ended) :
    ∀ s ∈ ended, s.1 ∈ b.planned w.tree variant := by
  cases ran with
  | uncompiled ran => exact invokes_planned ran
  | unfinished ran => exact invokes_planned ran
  | compiled ran => exact invokes_planned ran

theorem record_kept {results : List Compilation} :
    (results.foldl Invocation.record i).variant = i.variant ∧
    (results.foldl Invocation.record i).profile = i.profile ∧
    (results.foldl Invocation.record i).architectures = i.architectures := by
  induction results generalizing i with
  | nil => exact ⟨rfl, rfl, rfl⟩
  | cons first rest ih => exact ih (i := i.record first)

theorem record_found {results : List Compilation}
    (found : (results.foldl Invocation.record i).result? abi = some result) :
    i.result? abi = some result ∨ result ∈ results ∧ result.abi = abi := by
  induction results generalizing i with
  | nil => exact .inl found
  | cons first rest ih =>
    rcases ih (i := i.record first) found with old | ⟨member, own⟩
    · simp only [Invocation.record] at old
      split at old
      · rename_i same
        cases old
        exact .inr ⟨by simp, same.symm⟩
      · exact .inl old
    · exact .inr ⟨List.mem_cons_of_mem _ member, own⟩

theorem check_ok (checked : i.check = .ok ()) (member : abi ∈ i.architectures) :
    ∃ result, i.result? abi = some result ∧ result.ok = true := by
  unfold Invocation.check at checked
  split at checked
  · cases checked
  · cases checked
  · rename_i noPending noFailures
    cases found : i.result? abi with
    | none =>
      have pending : abi ∈ i.pending := List.mem_filter.mpr ⟨member, by simp [found]⟩
      rw [noPending] at pending
      cases pending
    | some result =>
      refine ⟨result, rfl, ?_⟩
      cases good : result.ok with
      | true => rfl
      | false =>
        have listed : result ∈ i.results := List.mem_filterMap.mpr ⟨abi, member, found⟩
        have failed : result ∈ i.failures := List.mem_filter.mpr ⟨listed, by simp [good]⟩
        rw [noFailures] at failed
        cases failed

theorem gather_parts (ran : Pool.gather (.start v p architectures) phases = .ok i) :
    i.variant = v ∧ i.profile = p ∧ i.architectures = architectures ∧
      ∀ abi result, i.result? abi = some result → .ended result ∈ phases ∧ result.abi = abi := by
  obtain ⟨_, rfl⟩ := gather_ok ran
  obtain ⟨variant, profile, same⟩ :=
    @record_kept (.start v p architectures) (phases.filterMap Phase.result?)
  refine ⟨variant, profile, same, fun abi result found => ?_⟩
  rcases record_found found with impossible | ⟨member, own⟩
  · cases impossible
  · obtain ⟨phase, inside, same⟩ := List.mem_filterMap.mp member
    cases phase with
    | ended => cases same; exact ⟨inside, own⟩
    | _ => cases same

theorem install_tree (b : Builder) (i : Invocation) (w : Workshop) :
    (b.install i w).2.tree = (place w.tree i b.config.libraries b.config.jniLibsDir).tree := by
  unfold Builder.install
  simp only
  split
  · rfl
  · split <;> rfl

theorem install_cases {outcome : Except Failure Invocation} (ran : (b.install i w).1 = outcome) :
    b.Installs i w outcome := by
  unfold Builder.install at ran
  simp only at ran
  split at ran
  · rename_i failed
    cases ran
    exact .unplaced failed
  · rename_i fine
    split at ran
    · rename_i required
      cases ran
      exact .unmet fine required
    · rename_i required
      cases ran
      exact .installed fine required

theorem install_parts (fine : (b.install i w).1 = .ok r) : r = i ∧
    (place w.tree i b.config.libraries b.config.jniLibsDir).failure = none ∧
    (b.install i w).2.tree = (place w.tree i b.config.libraries b.config.jniLibsDir).tree ∧
    ∃ report, (require (b.install i w).2.tree b.config.jniLibsDir (.text i.variant.text)
      i.architectures b.config.libraries).1 = .ok report := by
  rw [install_tree]
  cases install_cases fine with
  | installed placed required => exact ⟨rfl, placed, rfl, _, required⟩

theorem site_valid (accepted : Accepted b.config) (wellFormed : t.WellFormed)
    (target : Hosts t b.config.targetDir l) (jniLibs : Hosts t b.config.jniLibsDir k) (i : Invocation) :
    (b.site t i l k).Valid := ⟨wellFormed, target, jniLibs, accepted.jniLibs, accepted.plain⟩

theorem held_own {s : Site} {done : List Abi} {library : String} (valid : s.Valid) (held : s.Held done t)
    (among : abi ∈ done) (member : library ∈ s.libraries)
    (right : Right t ((abiDir s.jniLibsDir s.variant abi).child library) abi) :
    ∃ content executable,
      t.probe ((abiDir s.jniLibsDir s.variant abi).child library) = .ok (some (.file content executable)) ∧
      t.node? (s.place abi ++ [library]) = some (.file content executable) ∧
      s.compiled.node? (s.source abi library) = some (.file content executable) ∧
      ∀ machine, Elf.machine? content = some machine → machine = abi.machine := by
  have goal := held.steady.hosts valid.goal
  have path : (abiDir s.jniLibsDir s.variant abi).child library =
      s.jniLibsDir.under (s.names abi ++ [library]) := by
    rw [abiDir_child (valid.plain library member)]
    rfl
  have plain : ∀ name ∈ s.names abi ++ [library], name ≠ ".." :=
    notUp_append (names_notUp s abi) (by simpa using (valid.plain library member).2.2.1)
  obtain ⟨file, content', read, machine⟩ := right
  rw [path] at file read ⊢
  obtain ⟨content, executable, seen, there⟩ := isFile_seen goal plain (by simp) file
  obtain ⟨_, executable', again⟩ := read_under goal plain (by simp) read
  rw [← List.append_assoc] at there again
  have same : content = content' := by
    have both := there.symm.trans again
    cases both
    rfl
  subst same
  obtain ⟨library', _, only, _, compiled⟩ := held.filled abi among [library] _ (by simp) there
  cases only
  exact ⟨content, executable, seen, there, compiled, machine⟩

theorem held_only {s : Site} {done : List Abi} (valid : s.Valid) (held : s.Held done t)
    (among : abi ∈ done) (some_ : s.libraries ≠ [])
    (right : ∀ library ∈ s.libraries, Right t ((abiDir s.jniLibsDir s.variant abi).child library) abi) :
    ∃ names, t.names (abiDir s.jniLibsDir s.variant abi) = .ok names ∧
      ∀ name, name ∈ names ↔ name ∈ s.libraries := by
  have goal := held.steady.hosts valid.goal
  obtain ⟨library, member⟩ := List.exists_mem_of_ne_nil _ some_
  obtain ⟨_, _, seen, there, _, _⟩ := held_own valid held among member (right library member)
  obtain ⟨_, found, _⟩ := probe_some seen
  rw [abiDir_child (valid.plain library member)] at found
  obtain ⟨m, somewhere⟩ := stands_of_locate found (by simp)
  obtain ⟨stands, clear⟩ := goal.stands somewhere
  have directory := held.steady.wellFormed.above there (by simp)
  refine ⟨t.children (s.place abi), ?_, fun name => ?_⟩
  · rw [abiDir_eq]
    exact names_under stands clear held.steady.wellFormed (names_notUp s abi) (by simp) (names_nameable s abi) directory
  · rw [mem_children]
    constructor
    · rintro ⟨node, present⟩
      obtain ⟨library', inside, only, _⟩ := held.filled abi among [name] node (by simp) present
      cases only
      exact inside
    · intro inside
      obtain ⟨_, _, _, present, _⟩ := held_own valid held among inside (right name inside)
      exact ⟨_, present⟩

theorem invokes_ok (ran : b.Invokes compiler variant w outcome w' ended) (good : outcome = .ok i) :
    ∃ v p architectures cargo ndk, Variant.parse variant = .ok v ∧
      Abi.resolve b.requested = .ok architectures ∧
      Pool.gather (.start v p architectures) (ended.map Prod.snd) = .ok i ∧
      b.planned w.tree variant = architectures.map (b.job cargo p ndk) := by
  cases ran with
  | unplanned => cases good
  | unworkable => cases good
  | @ran plan moves last found workable reached finished =>
    obtain ⟨v, p, architectures, cargo, ndk, parsed, _, resolved, _, start, same⟩ := plan_parts found
    refine ⟨v, p, architectures, cargo, ndk, parsed, resolved, start ▸ good, ?_⟩
    unfold Builder.planned
    rw [found]
    exact same

theorem invokes_results (own : ∀ s ∈ ended, ∀ result, s.2 = .ended result → result.abi = s.1.abi)
    (ran : b.Invokes compiler variant w (.ok i) w' ended) (checked : i.check = .ok ()) :
    ∃ cargo ndk, Variant.parse variant = .ok i.variant ∧ Abi.resolve b.requested = .ok i.architectures ∧
      b.planned w.tree variant = i.architectures.map (b.job cargo i.profile ndk) ∧
      ∀ abi ∈ i.architectures, ∃ result, i.result? abi = some result ∧ result.ok = true ∧
        (b.job cargo i.profile ndk abi, .ended result) ∈ ended := by
  obtain ⟨v, p, architectures, cargo, ndk, parsed, resolved, gathered, planned⟩ := invokes_ok ran rfl
  obtain ⟨rfl, rfl, rfl, results⟩ := gather_parts gathered
  refine ⟨cargo, ndk, parsed, resolved, planned, fun abi member => ?_⟩
  obtain ⟨result, found, fine⟩ := check_ok checked member
  obtain ⟨inside, named⟩ := results abi result found
  obtain ⟨⟨job, phase⟩, present, rfl⟩ := List.mem_map.mp inside
  have known := invokes_planned ran _ present
  rw [planned] at known
  obtain ⟨abi', _, rfl⟩ := List.mem_map.mp known
  have same : abi' = abi := (own _ present result rfl).symm.trans named
  exact ⟨result, found, fine, same ▸ present⟩

-- Between the compilation and the placing nothing comes but the check, so what is placed is what was compiled.
theorem builds_delivers (accepted : Accepted b.config) (wellFormed : w.tree.WellFormed)
    (target : Hosts w.tree b.config.targetDir l) (jniLibs : Hosts w.tree b.config.jniLibsDir k)
    (contained : Contained compiler ended) (ran : b.Builds compiler variant w outcome w' ended)
    (good : outcome = .ok i) : Variant.parse variant = .ok i.variant ∧
      Abi.resolve b.requested = .ok i.architectures ∧
      ∀ abi ∈ i.architectures, Delivered b.config ⟨compiler, ended⟩ w'.tree i.variant i.profile abi := by
  cases ran with
  | uncompiled => cases good
  | unfinished => cases good
  | @compiled _ _ u ran checked =>
    obtain ⟨rfl, placed, after, report, required⟩ := install_parts good
    obtain ⟨steady, owned⟩ := invokes_own accepted wellFormed target contained ran
    obtain ⟨cargo, ndk, parsed, resolved, _, results⟩ := invokes_results (fun s member result ended => by
      have known := owned s member
      rw [ended] at known
      exact known.1) ran checked
    refine ⟨parsed, resolved, ?_⟩
    have produced : ∀ abi ∈ i.architectures, ∃ result process, i.result? abi = some result ∧
        (b.job cargo i.profile ndk abi, .ended result) ∈ ended ∧ result.ok = true ∧
        Produced (b.job cargo i.profile ndk abi) compiler process result l u.tree := by
      intro abi member
      obtain ⟨result, found, fine, present⟩ := results abi member
      obtain ⟨process, produced⟩ := (owned _ present).2 fine
      exact ⟨result, process, found, present, fine, produced⟩
    have valid := site_valid accepted steady.wellFormed (steady.hosts target) (steady.hosts jniLibs) i
    have lists : ∀ abi ∈ i.architectures,
        (b.site u.tree i l k).Lists abi (((i.result? abi).map Compilation.artifacts).getD []) := by
      intro abi member library path configured listed
      obtain ⟨result, process, found, _, _, produced⟩ := produced abi member
      rw [found] at listed
      rw [produced.collected library path listed]
      exact libraryPath_eq (job_homed accepted cargo i.profile ndk abi) i.profile configured
    have held : (b.site u.tree i l k).Held i.architectures (place u.tree i b.config.libraries b.config.jniLibsDir).tree :=
      place_held valid rfl checked lists (Abi.resolve_nodup resolved) placed
    rw [← after] at held
    have right := require_right required
    generalize (b.install i u).2.tree = last at held right ⊢
    intro abi member
    refine ⟨held_only (s := b.site u.tree i l k) valid held member accepted.nonempty (right abi member), ?_⟩
    intro library inside
    obtain ⟨content, executable, seen, _, compiled, machine⟩ :=
      held_own (s := b.site u.tree i l k) valid held member inside (right abi member library inside)
    obtain ⟨result, process, _, present, fine, produced⟩ := produced abi member
    have wrote := produced.written library inside content executable compiled
    rw [libraryPath_same (job_homed accepted cargo i.profile ndk abi)] at wrote
    exact ⟨content, executable, seen,
      ⟨_, result, process, present, rfl, rfl, fine, produced.started, produced.exit, wrote⟩, machine⟩

theorem build_delivers_own_libraries {s : FileTree} {base : Option FilePath} {data : Config.Entries}
    (resolved : Config.resolve s base data = .ok c) {cargo : Option String} {overrides : Table String}
    {workers : Option Int} {environ : Table String} (wellFormed : w.tree.WellFormed)
    (target : ∀ l, LeadsTo w.tree c.targetDir l → Clear w.tree l)
    (jniLibs : ∀ l, LeadsTo w.tree c.jniLibsDir l → Clear w.tree l)
    (contained : Contained compiler ended)
    (ran : (Builder.of c cargo overrides workers environ).Builds compiler variant w (.ok i) w' ended) :
    Variant.parse variant = .ok i.variant ∧
      ∀ abi ∈ c.architectures, Delivered c ⟨compiler, ended⟩ w'.tree i.variant i.profile abi := by
  have accepted := Config.resolve_accepted resolved
  obtain ⟨l, target⟩ := exists_hosts target
  obtain ⟨k, jniLibs⟩ := exists_hosts jniLibs
  obtain ⟨parsed, all, delivered⟩ := builds_delivers accepted wellFormed target jniLibs contained ran rfl
  exact ⟨parsed, fun abi member => delivered abi (Abi.resolve_texts all member)⟩

def Sample.used : FileTree := ⟨[], Sample.tree.entries ++ [
  (["j"], .directory), (["j", "debug"], .directory), (["j", "debug", "arm64-v8a"], .directory),
  (["j", "debug", "arm64-v8a", "old.so"], .file [9] false)]⟩

def sampleElf (triple : String) : Text.Bytes :=
  Elf.magic ++ [2, 1] ++ List.replicate 12 0 ++ (if triple = Abi.arm64.triple then [183, 0] else [3, 0])

theorem used_directory_delivered :
    let compiler : Compiler := .ofBehaviours fun triple => sampleBehaviour (sampleElf triple) 0
    ∃ i w' ended, sampleBuilder.Builds compiler (.text "debug") (.opened Sample.used) (.ok i) w' ended ∧
      Delivered Sample.config ⟨compiler, ended⟩ w'.tree .debug .debug .arm64 := by
  intro compiler
  obtain ⟨ended, ran⟩ := build_builds sampleBuilder compiler (.text "debug") (.opened Sample.used)
  have good : (sampleBuilder.build compiler (.text "debug") (.opened Sample.used)).1.toOption.map
      (fun i => (i.variant, i.profile)) = some (.debug, .debug) := by decide +kernel
  obtain ⟨i, built, same⟩ := Option.map_eq_some_iff.mp good
  obtain ⟨variant, profile⟩ := Prod.mk.inj same
  rw [ok_of_toOption built] at ran
  have own : ∀ j ∈ sampleBuilder.planned Sample.used (.text "debug"),
      j.command.outputDir = j.outputDir j.profile := by decide +kernel
  have contained : Contained compiler ended := by
    intro s member
    have invoked := builds_planned ran s member
    exact Tidy.home (ofBehaviours_tidy (own _ invoked) fun _ => sampleBehaviour_plain _ _)
  have free : ∀ l, Clear Sample.used l := fun l => Clear.of_entries (by decide)
  have wellFormed : Sample.used.WellFormed := WellFormed.of_entries (by decide)
  have delivered := (build_delivers_own_libraries Sample.resolved wellFormed (fun l _ => free l)
    (fun l _ => free l) contained ran).2 .arm64 (by decide)
  rw [variant, profile] at delivered
  exact ⟨i, _, ended, ran, delivered⟩

end AbiBuild.Build
