import AbiBuild.Proofs.Build.Marker

namespace AbiBuild.Build
open AbiBuild.Text FileTree

-- Processes put nothing but files, and these only where the libraries of their job's profile go.
def Episode.Confined (e : Episode) : Prop :=
  ∀ s ∈ e.jobs, s.1.Tidy e.compiler (s.1.outputDir s.1.profile)

inductive History (c : Config) (t : FileTree) : List Episode → FileTree → Prop
  | nil : History c t [] t
  | snoc {b : Builder} {w w' : Workshop} (earlier : History c t log w.tree) (config : b.config = c)
      (confined : Episode.Confined ⟨compiler, jobs⟩) (ran : b.Invokes compiler variant w outcome w' jobs) :
      History c t (log ++ [⟨compiler, jobs⟩]) w'.tree

def Trusted (c : Config) (log : List Episode) (abi : Abi) (p : Profile) (library : String)
    (node : Node) : Prop :=
  ∃ e ∈ log, e.Wrote (c.libraryPath abi p library) abi p node

def shelf (c : Config) (l : Location) (counts : Abi → Profile → String → Node → Prop) (abi : Abi) :
    Shelf := ⟨c.targetDir, l, c.libraries, abi, counts abi⟩

variable {c : Config} {b : Builder} {j : Job} {compiler : Compiler} {t u : FileTree} {root : FilePath}
  {l m : Location} {w w' : Workshop} {variant : Value} {jobs : List Job}
  {ended : List (Job × Phase)} {outcome : Except Failure Invocation} {log : List Episode}
  {counts more : Abi → Profile → String → Node → Prop} {abi : Abi} {p : Profile} {library : String}
  {node : Node}

theorem Shelf.Sure.mono {s : Shelf} (sure : s.Sure t p) {counts : Profile → String → Node → Prop}
    (fewer : ∀ p library node, s.counts p library node → counts p library node) :
    ({ s with counts := counts } : Shelf).Sure t p :=
  fun library member content executable there =>
    fewer _ _ _ (sure library member content executable there)

theorem Shelf.Settled.mono {s : Shelf} (settled : s.Settled t) {counts : Profile → String → Node → Prop}
    (fewer : ∀ p library node, s.counts p library node → counts p library node) :
    ({ s with counts := counts } : Shelf).Settled t := by
  rcases settled with ⟨unmarked, sure⟩ | ⟨p, stands, marker, others⟩
  · exact .inl ⟨unmarked, fun p => (sure p).mono fewer⟩
  · exact .inr ⟨p, stands, marker, fun q other => (others q other).mono fewer⟩

theorem kept_compatible (absolute : c.targetDir.root ≠ .relative) (hosts : Hosts t c.targetDir l)
    (homed : ∀ j ∈ jobs, j.Homed c.targetDir)
    (tidy : ∀ j ∈ jobs, j.Tidy compiler (j.outputDir j.profile)) :
    Compatible compiler jobs
      (fun w => Steady t w.tree ∧ ∀ abi, abi ∉ jobs.map Job.abi → (shelf c l counts abi).Settled w.tree)
      (fun j phase w => Own j compiler c.targetDir l w.tree phase ∧
        Kept j (j.shelf c.targetDir l counts) w.tree phase) := by
  have base := own_compatible absolute hosts homed fun j member => Tidy.home (tidy j member)
  have changed : ∀ j ∈ jobs, ∀ phase w, Steady t w.tree → Own j compiler c.targetDir l w.tree phase →
      Changes (l ++ [j.abi.text]) everywhere w.tree (j.step compiler phase w).2.tree :=
    fun j member phase w steady own =>
      acts_changes steady.wellFormed absolute (steady.hosts hosts) (homed j member)
        (Tidy.home (tidy j member)) (own_started own) (step_acts j compiler phase w)
  constructor
  case common =>
    intro j member phase w ⟨steady, rest⟩ ⟨own, _⟩
    refine ⟨base.common j member phase w steady own, fun abi apart => ?_⟩
    have other : j.abi ≠ abi := by
      rintro rfl
      exact apart (List.mem_map_of_mem member)
    exact settled_elsewhere (changed j member phase w steady own) (fun _ => outside_abi other _)
      (rest abi apart)
  case own =>
    intro j member phase w ⟨steady, _⟩ ⟨own, kept⟩
    exact ⟨base.own j member phase w steady own,
      kept_acts steady.wellFormed absolute (steady.hosts hosts) (homed j member) (tidy j member) own kept
        (step_acts j compiler phase w)⟩
  case others =>
    intro j member phase w ⟨steady, _⟩ ⟨own, _⟩ k known apart other ⟨owned, kept⟩
    exact ⟨base.others j member phase w steady own k known apart other owned,
      kept_elsewhere (changed j member phase w steady own) (fun _ => outside_abi (Ne.symm apart) _) kept⟩
  case cancel => exact fun _ common => common
  case ownCancel => exact fun _ _ _ _ _ own => own

-- A job that is over leaves a settled shelf, on which its own process now counts.
theorem kept_over {phase : Phase} (finished : phase.isOver = true)
    (own : Own j compiler root l t phase) (kept : Kept j (j.shelf root l counts) t phase)
    (fewer : ∀ q library node, counts j.abi q library node → more j.abi q library node)
    (adds : ∀ result process, phase = .ended result → result.ok = true →
      compiler j.command = .started process → process.status = 0 → ∀ library node,
      lastWrite process.writes (j.libraryPath j.profile library) = some node →
      more j.abi j.profile library node) : (j.shelf root l more).Settled t := by
  cases phase with
  | broken cause => exact Shelf.Settled.mono kept fewer
  | ended result =>
    cases good : result.ok with
    | false => exact (kept.1 good).mono fewer
    | true =>
      obtain ⟨unmarked, others⟩ := kept.2 good
      obtain ⟨process, produced⟩ := own.2 good
      refine .inl ⟨unmarked, fun q => ?_⟩
      by_cases same : q = j.profile
      · subst same
        intro library member content executable there
        exact adds result process rfl good produced.started produced.exit _ _
          (produced.written library member content executable there)
      · exact (others q same).mono fewer
  | _ => cases finished

theorem invokes_settled (accepted : Accepted b.config) (wellFormed : w.tree.WellFormed)
    (hosts : Hosts w.tree b.config.targetDir l) (confined : Episode.Confined ⟨compiler, ended⟩)
    (ran : b.Invokes compiler variant w outcome w' ended)
    (settled : ∀ abi, (shelf b.config l counts abi).Settled w.tree)
    (fewer : ∀ abi p library node, counts abi p library node → more abi p library node)
    (adds : ∀ abi p library node,
      Episode.Wrote ⟨compiler, ended⟩ (b.config.libraryPath abi p library) abi p node →
      more abi p library node) :
    Steady w.tree w'.tree ∧ ∀ abi, (shelf b.config l more abi).Settled w'.tree := by
  cases ran with
  | unplanned => exact ⟨.refl wellFormed, fun abi => (settled abi).mono (fewer abi)⟩
  | unworkable => exact ⟨.refl wellFormed, fun abi => (settled abi).mono (fewer abi)⟩
  | @ran plan moves last planned workable reached finished =>
    have distinct := plan_distinct planned
    have same := reaches_jobs distinct reached
    have homed := plan_homed accepted planned
    have tidy : ∀ j ∈ plan.jobs, j.Tidy compiler (j.outputDir j.profile) := by
      intro j member
      rw [← same] at member
      obtain ⟨s, inside, rfl⟩ := List.mem_map.mp member
      exact confined s inside
    have shelves : ∀ j ∈ plan.jobs, ∀ counts,
        j.shelf b.config.targetDir l counts = shelf b.config l counts j.abi := by
      intro j member counts
      unfold Job.shelf shelf
      rw [(homed j member).2]
    have sound := reaches_sound
      (kept_compatible accepted.target hosts (fun j member => (homed j member).1) tidy) distinct
      (start_sound (w := w.noting plan.notices) ⟨.refl wellFormed, fun abi _ => settled abi⟩
        fun j member => ⟨trivial, by rw [shelves j member]; exact settled j.abi⟩) reached
    refine ⟨sound.common.1, fun abi => ?_⟩
    by_cases among : abi ∈ plan.jobs.map Job.abi
    · obtain ⟨j, member, rfl⟩ := List.mem_map.mp among
      have present := member
      rw [← sound.jobs] at present
      obtain ⟨⟨_, phase⟩, inside, rfl⟩ := List.mem_map.mp present
      obtain ⟨own, kept⟩ := sound.own _ inside
      rw [← shelves _ member]
      refine kept_over (List.all_eq_true.mp finished _ inside) own kept (fewer _) ?_
      rintro result process rfl good answer exit library node wrote
      rw [libraryPath_same (homed _ member).1] at wrote
      exact adds _ _ library node ⟨_, result, process, inside, rfl, rfl, good, answer, exit, wrote⟩
    · exact (sound.common.2 abi among).mono (fewer abi)

theorem history_steady (accepted : Accepted c) (wellFormed : t.WellFormed)
    (hosts : Hosts t c.targetDir l) (history : History c t log u) : Steady t u := by
  -- Induction on the history. Links stay, so the host of the first tree is the host of the last.
  induction history with
  | nil => exact .refl wellFormed
  | snoc _ config confined ran ih =>
    subst config
    exact ih.trans (invokes_own accepted ih.wellFormed (ih.hosts hosts)
      (fun s member => Tidy.home (confined s member)) ran).1

theorem history_settled (accepted : Accepted c) (wellFormed : t.WellFormed)
    (hosts : Hosts t c.targetDir l) (empty : ∀ names, names ≠ [] → t.node? (l ++ names) = none)
    (history : History c t log u) (abi : Abi) : (shelf c l (Trusted c log) abi).Settled u := by
  induction history generalizing abi with
  | nil =>
    refine .inl ⟨fun content executable there => ?_, fun p library _ content executable there => ?_⟩
    · exact absurd ((empty _ (by simp [markerNames])).symm.trans there) (by simp)
    · exact absurd ((empty _ (by simp [libraryNames])).symm.trans there) (by simp)
  | @snoc compiler variant outcome jobs log b w w' earlier config confined ran ih =>
    subst config
    have steady := history_steady accepted wellFormed hosts earlier
    refine (invokes_settled accepted steady.wellFormed (steady.hosts hosts) confined ran ih ?_ ?_).2 abi
    · rintro abi p library node ⟨e, member, wrote⟩
      exact ⟨e, List.mem_append_left _ member, wrote⟩
    · exact fun abi p library node wrote => ⟨_, by simp, wrote⟩

-- Every library of the profile that can be seen comes from a process that ended well.
def Vouched (c : Config) (log : List Episode) (u : FileTree) (abi : Abi) (p : Profile) : Prop :=
  ∀ library ∈ c.libraries, ∀ content executable,
    u.probe (c.libraryPath abi p library) = .ok (some (.file content executable)) →
    Trusted c log abi p library (.file content executable)

theorem config_marker (c : Config) (abi : Abi) : c.marker abi = c.targetDir.under (markerNames abi) := by
  unfold Config.marker Config.abiDir
  rw [FilePath.child_plain (abi_plain _), FilePath.child_plain markerName_plain, FilePath.under_under]
  rfl

theorem history_found (accepted : Accepted c) (wellFormed : t.WellFormed) (vacant : Vacant t c.targetDir)
    (history : History c t log u) (stands : Stands u c.targetDir l) :
    u.WellFormed ∧ Hosts u c.targetDir l ∧ ∀ abi, (shelf c l (Trusted c log) abi).Settled u := by
  obtain ⟨m, somewhere⟩ := exists_hosts vacant.clear
  have steady := history_steady accepted wellFormed somewhere history
  have leads := steady.leadsTo.mp stands.leadsTo
  have hosts : Hosts t c.targetDir l := fun k other => ⟨Leads.deterministic other leads, vacant.clear l leads⟩
  exact ⟨steady.wellFormed, steady.hosts hosts,
    history_settled accepted wellFormed hosts (vacant l leads) history⟩

theorem vouched_of_sure (accepted : Accepted c) (wellFormed : t.WellFormed)
    (vacant : Vacant t c.targetDir) (history : History c t log u)
    (sure : ∀ l, Stands u c.targetDir l → (shelf c l (Trusted c log) abi).Sure u p) :
    Vouched c log u abi p := by
  intro library member content executable seen
  rw [config_libraryPath accepted member] at seen
  have plain := notUp_of_plain (libraryNames_plain abi p (accepted.plain library member))
  obtain ⟨k, found, _⟩ := probe_some seen
  obtain ⟨l, stands⟩ := stands_of_locate found (by simp [libraryNames])
  obtain ⟨_, hosts, _⟩ := history_found accepted wellFormed vacant history stands
  have there := (probe_under_some hosts plain (by simp [libraryNames]) seen).2
  exact sure l stands library member content executable there

theorem marker_tells_trusted {s : FileTree} {base : Option FilePath} {data : Config.Entries}
    (resolved : Config.resolve s base data = .ok c) (wellFormed : t.WellFormed)
    (vacant : Vacant t c.targetDir) (history : History c t log u) (abi : Abi) :
    (u.isFile (c.marker abi) ≠ .ok true → ∀ p, Vouched c log u abi p) ∧
    (u.isFile (c.marker abi) = .ok true → ∃ p,
      u.read (c.marker abi) = .ok (encode (p.outputDir ++ "\n")) ∧
        ∀ q, q ≠ p → Vouched c log u abi q) := by
  have accepted := Config.resolve_accepted resolved
  have plain := markerNames_notUp abi
  have some_ := markerNames_ne_nil abi
  rw [config_marker]
  constructor
  · intro missing p
    refine vouched_of_sure accepted wellFormed vacant history fun l stands => ?_
    obtain ⟨sound, hosts, settled⟩ := history_found accepted wellFormed vacant history stands
    obtain ⟨_, clear⟩ := hosts.stands stands
    rcases settled abi with ⟨_, sure⟩ | ⟨q, marked⟩
    · exact sure p
    · obtain ⟨executable, there⟩ := marked.marker
      exact absurd (isFile_there stands clear sound plain some_ (markerNames_nameable abi) there) missing
  · intro present
    obtain ⟨found, probed, answer⟩ := isFile_parts present
    obtain ⟨node, rfl⟩ := Option.isSome_iff_exists.mp (Option.isSome_of_any answer.symm)
    obtain ⟨k, located, _⟩ := probe_some probed
    obtain ⟨l, stands⟩ := stands_of_locate located some_
    obtain ⟨sound, hosts, settled⟩ := history_found accepted wellFormed vacant history stands
    obtain ⟨_, clear⟩ := hosts.stands stands
    obtain ⟨_, content, executable, there⟩ := isFile_true hosts plain some_ present
    rcases settled abi with ⟨unmarked, _⟩ | ⟨p, marked⟩
    · exact absurd there (unmarked content executable)
    · obtain ⟨_, marker⟩ := marked.marker
      refine ⟨p, read_there stands clear sound plain some_ (markerNames_nameable abi) marker, fun q other => ?_⟩
      refine vouched_of_sure accepted wellFormed vacant history fun m again => ?_
      obtain ⟨rfl, _⟩ := hosts m again.leadsTo
      exact marked.others q other

theorem sample_vacant : Vacant Sample.tree Sample.config.targetDir := by
  have absent : Sample.tree.node? ["t"] = none := by decide
  intro l leads names nonempty
  have there : LeadsTo Sample.tree Sample.config.targetDir ["t"] := by
    refine .down (by decide) (fun target link => ?_) .nil
    exact absurd (absent.symm.trans link) (by simp)
  have same : l = ["t"] := Leads.deterministic leads there
  subst same
  exact sample_wellFormed.missing (by simp [absent]) nonempty

def sampleBuilt (variant : String) (byte : UInt8) (exit : Int) (t : FileTree) : FileTree :=
  (sampleBuilder.invoke (sampleCompiler byte exit) (.text variant) (.opened t)).2.tree

theorem sample_history (variant : String) (byte : UInt8) (exit : Int)
    (earlier : History Sample.config t log u)
    (own : ∀ j ∈ sampleBuilder.planned u (.text variant), j.command.outputDir = j.outputDir j.profile) :
    ∃ log, History Sample.config t log (sampleBuilt variant byte exit u) := by
  obtain ⟨jobs, ran⟩ :=
    invoke_invokes sampleBuilder (sampleCompiler byte exit) (.text variant) (.opened u)
  refine ⟨_, .snoc earlier rfl (fun s member => ?_) ran⟩
  exact ofBehaviours_tidy (own _ (invokes_planned ran s member)) fun _ => sampleBehaviour_plain _ _

-- A release build that fails after a debug build that went well: the marker names the release profile,
-- and the debug library counts.
theorem failed_release_tells_trusted :
    ∃ log u, History Sample.config Sample.tree log u ∧
      u.read (Sample.config.marker .arm64) = .ok (encode "release\n") ∧
      u.probe (Sample.config.libraryPath .arm64 .debug "liba.so") = .ok (some (.file [1] false)) ∧
      Trusted Sample.config log .arm64 .debug "liba.so" (.file [1] false) := by
  have start : History Sample.config Sample.tree [] Sample.tree := .nil
  obtain ⟨first, debug⟩ := sample_history "debug" 1 0 start (by decide +kernel)
  obtain ⟨log, release⟩ := sample_history "release" 2 1 debug (by decide +kernel)
  have facts : (sampleBuilt "release" 2 1 (sampleBuilt "debug" 1 0 Sample.tree)).isFile
        (Sample.config.marker .arm64) = .ok true ∧
      (sampleBuilt "release" 2 1 (sampleBuilt "debug" 1 0 Sample.tree)).read
        (Sample.config.marker .arm64) = .ok (encode "release\n") ∧
      (sampleBuilt "release" 2 1 (sampleBuilt "debug" 1 0 Sample.tree)).probe
        (Sample.config.libraryPath .arm64 .debug "liba.so") = .ok (some (.file [1] false)) := by
    decide +kernel
  obtain ⟨present, content, seen⟩ := facts
  obtain ⟨p, read, others⟩ :=
    (marker_tells_trusted Sample.resolved sample_wellFormed sample_vacant release .arm64).2 present
  have other : Profile.debug ≠ p := by
    rintro rfl
    rw [content] at read
    exact absurd read (by decide +kernel)
  exact ⟨log, _, release, content, seen, others .debug other "liba.so" (by decide) _ _ seen⟩

end AbiBuild.Build
