import AbiBuild.Proofs.Build.Delivery
import AbiBuild.Proofs.Build.Yield

namespace AbiBuild.Build
open AbiBuild.Text FileTree

def Job.left (j : Job) (compiler : Compiler) (path : FilePath) : Option Node :=
  match compiler j.command with
  | .started process => lastWrite process.writes path
  | .refused _ => none

def Present (j : Job) (l : Location) (artifacts : List (String × FilePath)) (t : FileTree) : Prop :=
  ∀ item ∈ artifacts, ∃ content executable,
    t.node? (l ++ libraryNames j.abi j.profile item.1) = some (.file content executable)

-- From the moment at which they are collected the artifacts stay.
def Stocks (j : Job) (l : Location) (t : FileTree) : Phase → Prop
  | .unmarking _ artifacts => Present j l artifacts t
  | .ended result => Present j l result.artifacts t
  | _ => True

structure Furnished (j : Job) (compiler : Compiler) (root : FilePath) (l : Location) (t : FileTree)
    (artifacts : List (String × FilePath)) : Prop where
  stands : Stands t root l
  files : ∀ library ∈ j.libraries, ∀ content executable,
    t.node? (l ++ libraryNames j.abi j.profile library) = some (.file content executable) ↔
      j.left compiler (j.libraryPath j.profile library) = some (.file content executable)
  listed : ∀ library ∈ j.libraries, ∀ node, j.left compiler (j.libraryPath j.profile library) = some node →
    artifacts.lookup library = some (j.libraryPath j.profile library) ∧ Nameable [library]
  paths : Collected j artifacts

variable {b : Builder} {j k : Job} {compiler : Compiler} {root : FilePath} {l : Location} {t u : FileTree}
  {phase next : Phase} {process : Process} {library : String} {artifacts : List (String × FilePath)}
  {result : Compilation} {region : Location} {made : Location → Prop} {jobs : List Job} {variant : Value}
  {w w' : Workshop} {i : Invocation} {outcome : Except Failure Invocation} {ended : List (Job × Phase)}

theorem Job.left_started (started : compiler j.command = .started process) (path : FilePath) :
    j.left compiler path = lastWrite process.writes path := by
  unfold Job.left
  rw [started]

theorem gathered_found {found : String → Except FileFault Bool} {item : String × FilePath}
    (ran : j.gathered found = .ok artifacts) (member : item ∈ artifacts) :
    item.1 ∈ j.libraries ∧ found item.1 = .ok true := by
  have answered := gathered_answered ran
  choose! answer same using answered
  rw [gathered_listed same] at ran
  cases ran
  obtain ⟨library, inside, own⟩ := List.mem_filterMap.mp member
  split at own
  · rename_i yes
    cases own
    exact ⟨inside, (same library inside).trans (congrArg Except.ok yes)⟩
  · cases own

theorem listed_lookup {answer : String → Bool} (member : library ∈ j.libraries) (yes : answer library = true) :
    (j.listed answer).lookup library = some (j.libraryPath j.profile library) := by
  unfold Job.listed
  generalize j.libraries = libraries at member
  induction libraries with
  | nil => cases member
  | cons first rest ih =>
    by_cases own : library = first
    · subst own
      rw [List.filterMap_cons, if_pos yes]
      simp only [List.lookup_cons, beq_self_eq_true]
    · have later := ih ((List.mem_cons.mp member).resolve_left own)
      have differ : (library == first) = false := by simpa using own
      rw [List.filterMap_cons]
      split
      · exact later
      · rename_i found
        split at found
        · cases found
          simp only [List.lookup_cons, differ, later]
        · cases found

theorem present_elsewhere (changes : Changes region made t u)
    (outside : ∀ library, ¬ region <+: l ++ libraryNames j.abi j.profile library)
    (present : Present j l artifacts t) : Present j l artifacts u := by
  intro item member
  obtain ⟨content, executable, there⟩ := present item member
  exact ⟨content, executable, (changes.file (outside item.1)).mpr there⟩

theorem stocks_elsewhere (changes : Changes region made t u)
    (outside : ∀ library, ¬ region <+: l ++ libraryNames j.abi j.profile library)
    (stocks : Stocks j l t phase) : Stocks j l u phase := by
  cases phase with
  | unmarking => exact present_elsewhere changes outside stocks
  | ended => exact present_elsewhere changes outside stocks
  | _ => trivial

theorem stocks_lost (lost : j.Lost phase) : Stocks j l t phase := by
  obtain ⟨cause, rfl⟩ | ⟨diagnostic, status, duration, rfl⟩ := lost
  · trivial
  · intro item member
    cases member

theorem stocks_acts (hosts : Hosts t root l) (homed : j.Homed root) (stocks : Stocks j l t phase)
    (acts : j.Acts compiler phase t next u) : Stocks j l u next := by
  cases acts with
  | collected _ exit found =>
    intro item member
    rw [collect_gathered] at found
    obtain ⟨configured, seen⟩ := gathered_found found member
    rw [libraryPath_eq homed j.profile configured] at seen
    exact (isFile_true hosts (notUp_of_plain (libraryNames_plain j.abi j.profile (homed.libraries _ configured)))
      (by simp [libraryNames]) seen).2
  | built removed =>
    obtain ⟨removing, _⟩ := marker_removed hosts homed removed
    exact present_elsewhere removing (fun library => library_outside_marker) stocks
  | finished => exact stocks
  | begun => trivial
  | discarded => trivial
  | housed => trivial
  | cleared => trivial
  | marked => trivial
  | launched => trivial
  | waited => trivial
  | called => trivial
  | exited => trivial
  | cancelled lost => exact stocks_lost lost
  | undiscarded _ lost => exact stocks_lost lost
  | unhoused _ lost => exact stocks_lost lost
  | uncleared _ lost => exact stocks_lost lost
  | unmarked _ lost => exact stocks_lost lost
  | unlaunched lost => exact stocks_lost lost
  | stopped lost => exact stocks_lost lost
  | failed lost => exact stocks_lost lost
  | kept _ lost => exact stocks_lost lost

theorem stocks_compatible (wellFormed : t.WellFormed) (absolute : root.root ≠ .relative) (hosts : Hosts t root l)
    (homed : ∀ j ∈ jobs, j.Homed root) (orderly : ∀ j ∈ jobs, j.Orderly compiler) :
    Compatible compiler jobs (fun w => Within (jobs.map Job.home) t w.tree)
      (fun j phase w => ((j.Started compiler phase ∧ Housed root w.tree phase) ∧
        Tracked j compiler root l w.tree phase) ∧ Stocks j l w.tree phase) := by
  refine (tracked_compatible wellFormed absolute hosts homed orderly).also ?_ ?_ fun _ _ _ _ stocks => stocks
  · intro j member phase w common own stocks
    exact stocks_acts ((common.steady wellFormed).hosts hosts) (homed j member) stocks (step_acts j compiler phase w)
  · intro j member phase w common own k inside apart other _ stocks
    have steady := common.steady wellFormed
    have changes := acts_penned steady.wellFormed absolute (steady.hosts hosts) (homed j member)
      ((orderly j member).tidy.penned (homed j member)) own.1.1 own.1.2 (step_acts j compiler phase w)
    exact stocks_elsewhere changes (fun library => outside_abi (Ne.symm apart) _) stocks

theorem invokes_tracked (accepted : Accepted b.config) (wellFormed : w.tree.WellFormed)
    (hosts : Hosts w.tree b.config.targetDir l) (orderly : ∀ j ∈ b.planned w.tree variant, j.Orderly compiler)
    (ran : b.Invokes compiler variant w outcome w' ended) : ∀ s ∈ ended,
      Tracked s.1 compiler b.config.targetDir l w'.tree s.2 ∧ Stocks s.1 l w'.tree s.2 := by
  cases ran with
  | unplanned => simp
  | unworkable => simp
  | @ran plan moves last planned workable reached finished =>
    rw [planned_jobs planned] at orderly
    have compatible := stocks_compatible wellFormed accepted.target hosts
      (fun j member => (plan_homed accepted planned j member).1) orderly
    have sound := reaches_sound compatible (plan_distinct planned) (start_sound (w := w.noting plan.notices)
      (.refl _ _) fun j member => ⟨⟨⟨fun process own => (by cases own), fun late _ => (by simp [stage] at late)⟩,
        trivial⟩, trivial⟩) reached
    exact fun s member => ⟨(sound.own s member).1.2, (sound.own s member).2⟩

theorem furnished_of_produced (homed : j.Homed root) (orderly : j.Orderly compiler)
    (produced : Produced j compiler process result l t) (reported : Reported j compiler root l result t)
    (present : Present j l result.artifacts t) : Furnished j compiler root l t result.artifacts := by
  obtain ⟨process', artifacts, started, _, yielded, same⟩ := reported.own
  obtain rfl : process' = process := by
    have both := started.symm.trans produced.started
    cases both
    rfl
  have own : result.artifacts = j.listed fun library => process'.wrote (j.libraryPath j.profile library) := by
    rw [same, yield_produced homed orderly started yielded]
    rfl
  have wrote : ∀ library node, j.left compiler (j.libraryPath j.profile library) = some node →
      process'.wrote (j.libraryPath j.profile library) = true := by
    intro library node left
    rw [Job.left_started started] at left
    exact (wrote_iff orderly started _).mpr (mem_of_lastWrite left)
  have listed : ∀ library ∈ j.libraries, ∀ node, j.left compiler (j.libraryPath j.profile library) = some node →
      result.artifacts.lookup library = some (j.libraryPath j.profile library) := by
    intro library member node left
    rw [own]
    exact listed_lookup member (wrote library node left)
  refine ⟨reported.stands, fun library member content executable => ⟨fun there => ?_, fun left => ?_⟩,
    fun library member node left => ⟨listed library member node left, ?_⟩, produced.collected⟩
  · rw [Job.left_started started]
    exact produced.written library member content executable there
  · obtain ⟨front, back, split_, _⟩ := List.lookup_eq_some_iff.mp (listed library member _ left)
    have among : (library, j.libraryPath j.profile library) ∈ result.artifacts := by
      rw [split_]
      simp
    obtain ⟨content', executable', there⟩ := present _ among
    have last := produced.written library member content' executable' there
    rw [Job.left_started started, last] at left
    cases left
    exact there
  · obtain ⟨item, among, place⟩ := (wrote_iff orderly started _).mp (wrote library node left)
    have nameable := (orderly.coexist process' started).nameable item among
    rw [place, libraryPath_eq homed j.profile member] at nameable
    exact nameable.among fun name own => by simp_all [FilePath.under, libraryNames]

-- Once an invocation passes its check, every job that was planned has come to a result and is furnished.
theorem invokes_furnished (accepted : Accepted b.config) (wellFormed : w.tree.WellFormed)
    (hosts : Hosts w.tree b.config.targetDir l) (orderly : ∀ j ∈ b.planned w.tree variant, j.Orderly compiler)
    (ran : b.Invokes compiler variant w (.ok i) w' ended) (checked : i.check = .ok ()) :
    Steady w.tree w'.tree ∧ Variant.parse variant = .ok i.variant ∧ Abi.resolve b.requested = .ok i.architectures ∧
      (b.planned w.tree variant).map Job.abi = i.architectures ∧
      ∀ j ∈ b.planned w.tree variant, j.Homed b.config.targetDir ∧ j.libraries = b.config.libraries ∧
        j.profile = i.profile ∧ ∃ result, i.result? j.abi = some result ∧
          Furnished j compiler b.config.targetDir l w'.tree result.artifacts := by
  have contained : Contained compiler ended := fun s member => (orderly _ (invokes_planned ran s member)).tidy
  obtain ⟨steady, owned⟩ := invokes_own accepted wellFormed hosts contained ran
  obtain ⟨cargo, ndk, parsed, resolved, planned, results⟩ := invokes_results (fun s member result ended => by
    have known := owned s member
    rw [ended] at known
    exact known.1) ran checked
  have tracked := invokes_tracked accepted wellFormed hosts orderly ran
  rw [planned] at orderly ⊢
  have abis : (i.architectures.map (b.job cargo i.profile ndk)).map Job.abi = i.architectures := by
    rw [List.map_map]
    exact List.map_id'' (fun _ => rfl) i.architectures
  refine ⟨steady, parsed, resolved, abis, fun j member => ?_⟩
  obtain ⟨abi, among, rfl⟩ := List.mem_map.mp member
  obtain ⟨result, found, fine, present⟩ := results abi among
  obtain ⟨process, produced⟩ := (owned _ present).2 fine
  have homed := job_homed accepted cargo i.profile ndk abi
  refine ⟨homed, rfl, rfl, result, found, ?_⟩
  exact furnished_of_produced homed (orderly _ member) produced ((tracked _ present).1 fine) (tracked _ present).2

-- What a job has come to bears its own name, and what it has collected lies in its own places.
def Job.Signed (j : Job) : Phase → Prop
  | .unmarking _ artifacts => Collected j artifacts
  | .ended result => result.abi = j.abi ∧ Collected j result.artifacts
  | _ => True

theorem signed_lost (lost : j.Lost phase) : j.Signed phase := by
  obtain ⟨cause, rfl⟩ | ⟨diagnostic, status, duration, rfl⟩ := lost
  · trivial
  · exact ⟨rfl, nofun⟩

theorem signed_acts (signed : j.Signed phase) (acts : j.Acts compiler phase t next u) : j.Signed next := by
  cases acts with
  | cancelled lost => exact signed_lost lost
  | undiscarded _ lost => exact signed_lost lost
  | unhoused _ lost => exact signed_lost lost
  | uncleared _ lost => exact signed_lost lost
  | unmarked _ lost => exact signed_lost lost
  | unlaunched lost => exact signed_lost lost
  | stopped lost => exact signed_lost lost
  | failed lost => exact signed_lost lost
  | kept _ lost => exact signed_lost lost
  | collected _ _ found => exact collect_paths found
  | built => exact ⟨rfl, signed⟩
  | finished => exact signed
  | _ => trivial

theorem signed_compatible (jobs : List Job) :
    Compatible compiler jobs (fun _ => True) (fun j phase _ => j.Signed phase) where
  common _ _ _ _ _ _ := trivial
  own j _ phase w _ signed := signed_acts signed (step_acts j compiler phase w)
  others _ _ _ _ _ _ _ _ _ _ signed := signed
  cancel _ _ := trivial
  ownCancel _ _ _ _ _ signed := signed

theorem invokes_signed (ran : b.Invokes compiler variant w outcome w' ended) : ∀ s ∈ ended, s.1.Signed s.2 := by
  cases ran with
  | unplanned => simp
  | unworkable => simp
  | @ran plan moves last planned workable reached finished =>
    have started : Sound plan.jobs (fun _ => True) (fun j phase _ => j.Signed phase)
        (Pool.start plan.jobs (w.noting plan.notices)) := start_sound trivial fun _ _ => trivial
    exact (reaches_sound (signed_compatible _) (plan_distinct planned) started reached).own

theorem invokes_collected (ran : b.Invokes compiler variant w (.ok i) w' ended) (checked : i.check = .ok ()) :
    Variant.parse variant = .ok i.variant ∧ Abi.resolve b.requested = .ok i.architectures ∧
      ∀ abi ∈ i.architectures, ∃ j result, j.abi = abi ∧ j.home = b.config.abiDir abi ∧
        i.result? abi = some result ∧ Collected j result.artifacts := by
  have signed := invokes_signed ran
  obtain ⟨cargo, ndk, parsed, resolved, -, results⟩ := invokes_results (fun s member result ended => by
    have known := signed s member
    rw [ended] at known
    exact known.1) ran checked
  refine ⟨parsed, resolved, fun abi member => ?_⟩
  obtain ⟨result, found, -, present⟩ := results abi member
  exact ⟨b.job cargo i.profile ndk abi, result, rfl, rfl, found, (signed _ present).2⟩

end AbiBuild.Build
