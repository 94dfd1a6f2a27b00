import AbiBuild.Proofs.Build.Footprint
import AbiBuild.Proofs.Files.Filling

namespace AbiBuild
open AbiBuild.Text

def Process.wrote (process : Process) (path : FilePath) : Bool :=
  process.writes.any fun item => item.1 = path && item.2.isFile

-- Something was written below the place, so that it has become a directory.
def Process.fills (process : Process) (place : FilePath) : Bool :=
  process.writes.any fun item => place.names.isPrefixOf item.1.names && item.1.names ≠ place.names

namespace Build
open FileTree

-- Whether a library is found after the process has exited. A name that is too long is refused as soon as there
-- is a directory to look it up in.
def Job.finds (j : Job) (process : Process) (library : String) : Except FileFault Bool :=
  if maxNameSize < library.utf8ByteSize then
    if process.fills (j.outputDir j.profile) then refuse .nameTooLong (j.libraryPath j.profile library)
    else .ok false
  else .ok (process.wrote (j.libraryPath j.profile library))

def Job.yield (j : Job) (process : Process) : Except FileFault (List (String × FilePath)) :=
  j.gathered (j.finds process)

def Job.produced (j : Job) (process : Process) : List (String × FilePath) :=
  j.listed fun library => process.wrote (j.libraryPath j.profile library)

-- Files alone are written, in the job's own directory, and they can all be there together.
structure Job.Orderly (j : Job) (compiler : Compiler) : Prop where
  tidy : j.Tidy compiler j.home
  coexist : ∀ process, compiler j.command = .started process → Coexist process.writes

-- Nothing is in the place of any library, and none but directories on the way there.
structure Poised (j : Job) (root : FilePath) (l : Location) (t : FileTree) : Prop where
  stands : Stands t root l
  places : ∀ library ∈ j.libraries, Awaits t l (outputNames j.abi j.profile) library

-- The job has been built from what its own process wrote, and its marker is gone.
structure Reported (j : Job) (compiler : Compiler) (root : FilePath) (l : Location) (result : Compilation)
    (t : FileTree) : Prop where
  stands : Stands t root l
  unmarked : t.node? (l ++ markerNames j.abi) = none
  own : ∃ process artifacts, compiler j.command = .started process ∧ process.status = 0 ∧
    j.yield process = .ok artifacts ∧ result = j.built artifacts process.seconds

-- What holds of the files of a job in each phase.
def Tracked (j : Job) (compiler : Compiler) (root : FilePath) (l : Location) (t : FileTree) : Phase → Prop
  | .clearing => Stands t root l
  | .marking => Poised j root l t
  | .starting | .running .. => Poised j root l t ∧ Guarded j root l t
  | .exited process => Guarded j root l t ∧ j.collect t = j.yield process
  | .unmarking process artifacts => (∃ text, process.own.said = .ok text) ∧ process.status = 0 ∧
    Guarded j root l t ∧ j.yield process = .ok artifacts
  | .ended result => result.ok = true → Reported j compiler root l result t
  | _ => True

variable {j k : Job} {compiler : Compiler} {root : FilePath} {l : Location} {t u : FileTree}
  {phase next : Phase} {process : Process} {library : String} {artifacts : List (String × FilePath)}
  {targets : List (Profile × String)} {result : Compilation} {made : Location → Prop}

theorem Job.Tidy.penned (tidy : j.Tidy compiler j.home) (homed : j.Homed root) : j.Penned compiler root := by
  intro process started item member
  obtain ⟨names, content, executable, rfl, nonempty, plain⟩ := tidy process started item member
  rw [homed.home, FilePath.under_under]
  exact ⟨names, _, rfl, nonempty, plain, by simp⟩

theorem orderly_below (orderly : j.Orderly compiler) (homed : j.Homed root)
    (started : compiler j.command = .started process) :
    ∀ item ∈ process.writes, Below (root.under [j.abi.text]) item := by
  intro item member
  rw [← homed.home]
  exact orderly.tidy process started item (List.mem_append_left _ member)

theorem library_notUp (homed : j.Homed root) (p : Profile) (member : library ∈ j.libraries) :
    ∀ name ∈ outputNames j.abi p ++ [library], name ≠ ".." :=
  notUp_of_plain (libraryNames_plain j.abi p (homed.libraries library member))

theorem clear_awaits (based : Based t root l) (homed : j.Homed root)
    (known : ∀ target ∈ targets, target.2 ∈ j.libraries) (fine : (j.clear targets t).fault = none) :
    ∀ target ∈ targets, Awaits (j.clear targets t).tree l (outputNames j.abi target.1) target.2 := by
  -- Induction on the targets. A later removal does not get in the way of an earlier one.
  induction targets generalizing t with
  | nil => simp
  | cons first rest ih =>
    have member := known first (by simp)
    have notUp := library_notUp homed first.1 member
    have later : ∀ target ∈ rest, target.2 ∈ j.libraries := fun target inRest =>
      known target (List.mem_cons_of_mem _ inRest)
    have onward : j.clear (first :: rest) t =
        (rest.map fun target t => unlinkIfThere t (j.libraryPath target.1 target.2)).foldl Trail.next
          ((Trail.start t).next fun t => t.unlinkIfThere (root.under (outputNames j.abi first.1 ++ [first.2]))) := by
      unfold Job.clear series
      rw [List.map_cons, List.foldl_cons, libraryPath_eq homed first.1 member]
      rfl
    cases ran : t.unlinkIfThere (root.under (outputNames j.abi first.1 ++ [first.2])) with
    | error fault =>
      rw [onward, Trail.next_error rfl ran, Trail.foldl_fault rfl] at fine
      cases fine
    | ok u =>
      have same : j.clear (first :: rest) t = j.clear rest u := by
        rw [onward, Trail.next_ok rfl ran]
        rfl
      rw [same] at fine ⊢
      have awaits : Awaits u l (outputNames j.abi first.1) first.2 := unlinkIfThere_awaits based notUp ran
      have changes : Changes (l ++ []) nowhere t u :=
        unlinkIfThere_changes based.hosts notUp (by simp) List.nil_prefix ran
      have after := based.changes changes
      intro target inTargets
      rcases List.mem_cons.mp inTargets with rfl | inRest
      · refine awaits.nodes fun names _ => ?_
        rcases (clear_clearing after.hosts homed later).only (l ++ names) with same | ⟨gone, _⟩
        · exact .inl same
        · exact .inr gone
      · exact ih after later fine target inRest

theorem cleared_poised (based : Based t root l) (homed : j.Homed root)
    (fine : (j.clearOutputs t j.profile).fault = none) : Poised j root l (j.clearOutputs t j.profile).tree := by
  have changes := (clearing_outputs based.hosts homed j.profile).changes nowhere
  refine ⟨changes.stands based.stands, fun library member => ?_⟩
  rw [clearOutputs_eq] at fine ⊢
  exact clear_awaits based homed (targets_known [j.profile]) fine (j.profile, library)
    (mem_targets.mpr ⟨by simp, member⟩)

theorem Poised.same (poised : Poised j root l t) (stands : Stands u root l)
    (same : ∀ library names, names <+: libraryNames j.abi j.profile library →
      u.node? (l ++ names) = t.node? (l ++ names)) : Poised j root l u :=
  ⟨stands, fun library member => (poised.places library member).nodes fun names inside =>
    .inl (same library names inside)⟩

theorem wrote_iff (orderly : j.Orderly compiler) (started : compiler j.command = .started process)
    (path : FilePath) : process.wrote path = true ↔ ∃ item ∈ process.writes, item.1 = path := by
  simp only [Process.wrote, List.any_eq_true, Bool.and_eq_true, decide_eq_true_eq]
  constructor
  · rintro ⟨item, member, same, _⟩
    exact ⟨item, member, same⟩
  · rintro ⟨item, member, same⟩
    obtain ⟨_, _, _, rfl, _, _⟩ := orderly.tidy process started item (List.mem_append_left _ member)
    exact ⟨_, member, same, rfl⟩

theorem fills_iff {place : FilePath} : process.fills place = true ↔
    ∃ item ∈ process.writes, place.names <+: item.1.names ∧ item.1.names ≠ place.names := by
  simp [Process.fills]

theorem mem_of_lastWrite {items : List (FilePath × Node)} {path : FilePath} {node : Node}
    (last : lastWrite items path = some node) : ∃ item ∈ items, item.1 = path := by
  unfold lastWrite at last
  cases found : (items.filter fun item => item.1 = path).getLast? with
  | none => simp [found] at last
  | some item =>
    obtain ⟨member, same⟩ := List.mem_filter.mp (List.mem_of_getLast? found)
    exact ⟨item, member, by simpa using same⟩

theorem found_after (based : Based t root l) (homed : j.Homed root) (orderly : j.Orderly compiler)
    (started : compiler j.command = .started process) (poised : Poised j root l t) (member : library ∈ j.libraries) :
    (t.depositAll process.writes).isFile (j.libraryPath j.profile library) = j.finds process library := by
  have below := orderly_below orderly homed started
  have notUp : j.abi.text ≠ ".." := abi_notUp j.abi _ (by simp)
  have coexist := orderly.coexist process started
  have awaits := poised.places library member
  have after := depositAll_based based notUp below
  have plain := library_notUp homed j.profile member
  have outer := outputNames_nameable j.abi j.profile
  have place : (j.outputDir j.profile).names = root.names ++ outputNames j.abi j.profile := by
    rw [outputDir_eq homed]
    rfl
  rw [Job.finds, libraryPath_eq homed j.profile member]
  by_cases long : maxNameSize < library.utf8ByteSize
  · have noNul : FilePath.anyNul (outputNames j.abi j.profile ++ [library]) = false := by
      have one := outer.noNul
      have two := awaits.noNul
      unfold FilePath.anyNul at one two ⊢
      rw [List.any_append, one, two]
      rfl
    have directory : (t.depositAll process.writes).node? (l ++ outputNames j.abi j.profile) = some .directory ↔
        process.fills (j.outputDir j.profile) = true := by
      rw [fills_iff, place]
      constructor
      · intro there
        by_contra unfilled
        refine awaits.long long (depositAll_unfilled based notUp below (fun item among beyond => ?_) there)
        by_contra longer
        exact unfilled ⟨item, among, beyond, longer⟩
      · rintro ⟨item, among, beyond, longer⟩
        exact depositAll_fills based notUp below coexist awaits.way among beyond longer
    rw [if_pos long]
    refine (isFile_long after plain outer.fits noNul long).trans ?_
    simp only [directory]
    rfl
  · rw [if_neg long]
    have nameable : Nameable (outputNames j.abi j.profile ++ [library]) :=
      nameable_append outer ⟨awaits.noNul, by simpa using long⟩
    refine (isFile_node after plain (by simp) nameable).trans (congrArg Except.ok ?_)
    rw [Bool.eq_iff_iff, wrote_iff orderly started]
    constructor
    · intro there
      have whole : ∀ item ∈ process.writes, Below root item := fun item among =>
        (below item among).above (by simp [abi_plain])
      cases here : (t.depositAll process.writes).node? (l ++ (outputNames j.abi j.profile ++ [library])) with
      | none => simp [here] at there
      | some node =>
        cases node with
        | file content executable =>
          have fresh : ∀ content executable,
              t.node? (l ++ (outputNames j.abi j.profile ++ [library])) ≠ some (.file content executable) := by
            simp [awaits.absent]
          exact mem_of_lastWrite (depositAll_last based.wellFormed based.absolute based.hosts plain (by simp) whole
            fresh content executable here).1
        | directory => simp [here, Node.isFile] at there
        | link target => simp [here, Node.isFile] at there
    · rintro ⟨item, among, same⟩
      obtain ⟨content, executable, there⟩ := depositAll_arrives based notUp below coexist awaits.way
        (by simp [awaits.absent]) (by simp [outputNames]) among same
      rw [there]
      rfl

theorem collect_yield (based : Based t root l) (homed : j.Homed root) (orderly : j.Orderly compiler)
    (started : compiler j.command = .started process) (poised : Poised j root l t) :
    j.collect (t.depositAll process.writes) = j.yield process := by
  rw [collect_gathered]
  exact gathered_same fun library member => found_after based homed orderly started poised member

theorem yield_produced (homed : j.Homed root) (orderly : j.Orderly compiler)
    (started : compiler j.command = .started process) (yielded : j.yield process = .ok artifacts) :
    artifacts = j.produced process := by
  have found : ∀ library ∈ j.libraries,
      j.finds process library = .ok (process.wrote (j.libraryPath j.profile library)) := by
    intro library member
    obtain ⟨answer, found⟩ := gathered_answered yielded library member
    by_cases long : maxNameSize < library.utf8ByteSize
    · have unwritten : process.wrote (j.libraryPath j.profile library) = false := by
        rw [Bool.eq_false_iff]
        intro wrote
        obtain ⟨item, among, same⟩ := (wrote_iff orderly started _).mp wrote
        have nameable := (orderly.coexist process started).nameable item among
        rw [same, libraryPath_eq homed j.profile member] at nameable
        exact nameable.fits library (by simp [FilePath.under, libraryNames]) long
      rw [unwritten]
      unfold Job.finds at found ⊢
      rw [if_pos long] at found ⊢
      split at found
      · cases found
      · rename_i unfilled
        rw [if_neg unfilled]
    · rw [Job.finds, if_neg long]
  unfold Job.yield at yielded
  rw [gathered_listed found] at yielded
  cases yielded
  rfl

theorem tracked_lost (lost : j.Lost phase) : Tracked j compiler root l t phase := by
  rcases lost with ⟨cause, rfl⟩ | ⟨diagnostic, status, duration, rfl⟩
  · trivial
  · intro good
    cases good

-- One case for each thing that a job does.
theorem tracked_acts (wellFormed : t.WellFormed) (absolute : root.root ≠ .relative) (hosts : Hosts t root l)
    (homed : j.Homed root) (orderly : j.Orderly compiler) (started : j.Started compiler phase)
    (tracked : Tracked j compiler root l t phase) (acts : j.Acts compiler phase t next u) :
    Tracked j compiler root l u next := by
  have changes := acts_changes wellFormed absolute hosts homed orderly.tidy started acts
  cases acts with
  | begun => trivial
  | discarded => trivial
  | housed fine =>
    rw [homed.home] at fine ⊢
    exact stands_of_made wellFormed absolute hosts (abi_notUp j.abi) (by simp) fine
  | cleared fine => exact cleared_poised (hosts.based wellFormed absolute tracked) homed fine
  | marked written =>
    obtain ⟨marking, before, there⟩ := marker_written hosts homed written
    have stands := changes.stands before
    refine ⟨Poised.same tracked stands fun library names inside => ?_, stands, _, there⟩
    have outside : ¬ l ++ markerNames j.abi <+: l ++ names := fun within_ =>
      library_outside_marker (within_.trans ((List.prefix_append_right_inj l).mpr inside))
    rcases marking.elsewhere _ outside with same | ⟨impossible, _⟩
    · exact same
    · exact impossible.elim
  | launched => exact tracked
  | waited => exact tracked
  | called => trivial
  | @exited process polls =>
    obtain ⟨poised, guarded⟩ := tracked
    have answer := started process rfl
    have based := hosts.based wellFormed absolute poised.stands
    have solid : ∀ item ∈ process.writes, Solid item := by
      intro item member
      obtain ⟨_, _, _, rfl, _, _⟩ := orderly_below orderly homed answer item member
      exact ⟨absolute, by simp⟩
    exact ⟨guarded.strews (depositAll_strews wellFormed solid), collect_yield based homed orderly answer poised⟩
  | collected said exit found =>
    obtain ⟨guarded, yields⟩ := tracked
    rw [yields] at found
    exact ⟨⟨_, said⟩, exit, guarded, found⟩
  | built removed =>
    obtain ⟨_, exit, guarded, yielded⟩ := tracked
    obtain ⟨_, gone⟩ := marker_removed hosts homed removed
    exact fun _ => ⟨changes.stands guarded.1, gone wellFormed guarded.1, _, _, started _ rfl, exit, yielded, rfl⟩
  | finished => exact tracked
  | cancelled lost => exact tracked_lost lost
  | undiscarded _ lost => exact tracked_lost lost
  | unhoused _ lost => exact tracked_lost lost
  | uncleared _ lost => exact tracked_lost lost
  | unmarked _ lost => exact tracked_lost lost
  | unlaunched lost => exact tracked_lost lost
  | stopped lost => exact tracked_lost lost
  | failed lost => exact tracked_lost lost
  | kept _ lost => exact tracked_lost lost

theorem tracked_elsewhere (hosts : Hosts t root l) (homed : k.Homed root) (apart : k.abi ≠ j.abi)
    (changes : Stands t root l → Changes (l ++ [j.abi.text]) nowhere t u)
    (tracked : Tracked k compiler root l t phase) : Tracked k compiler root l u phase := by
  have onward : Stands t root l → Stands u root l := fun stands => (changes stands).stands stands
  have same : Stands t root l → ∀ names, u.node? (l ++ k.abi.text :: names) = t.node? (l ++ k.abi.text :: names) := by
    intro stands names
    rcases (changes stands).elsewhere _ (outside_abi (Ne.symm apart) names) with same | ⟨impossible, _⟩
    · exact same
    · exact impossible.elim
  have poised : Poised k root l t → Poised k root l u := by
    intro poised
    refine poised.same (onward poised.stands) fun library names inside => ?_
    rcases List.prefix_cons_iff.mp inside with rfl | ⟨rest, rfl, _⟩
    · rw [List.append_nil, poised.stands.directory, (onward poised.stands).directory]
    · exact same poised.stands rest
  have guarded : Guarded k root l t → Guarded k root l u := by
    rintro ⟨stands, content, executable, there⟩
    refine ⟨onward stands, content, executable, ?_⟩
    rw [markerNames, same stands]
    exact there
  cases phase with
  | clearing => exact onward tracked
  | marking => exact poised tracked
  | starting => exact ⟨poised tracked.1, guarded tracked.2⟩
  | running => exact ⟨poised tracked.1, guarded tracked.2⟩
  | exited process =>
    obtain ⟨guard, yields⟩ := tracked
    refine ⟨guarded guard, Eq.trans ?_ yields⟩
    have clear := (hosts.stands guard.1).2
    exact collect_same homed ⟨onward guard.1, clear.congr (changes guard.1).links, guard.1, clear, fun names => by
      simpa using same guard.1 names⟩
  | unmarking => exact ⟨tracked.1, tracked.2.1, guarded tracked.2.2.1, tracked.2.2.2⟩
  | ended result =>
    intro good
    have reported := tracked good
    refine ⟨onward reported.stands, ?_, reported.own⟩
    rw [markerNames, same reported.stands]
    exact reported.unmarked
  | _ => trivial

theorem tracked_compatible {jobs : List Job} (wellFormed : t.WellFormed) (absolute : root.root ≠ .relative)
    (hosts : Hosts t root l) (homed : ∀ j ∈ jobs, j.Homed root) (orderly : ∀ j ∈ jobs, j.Orderly compiler) :
    Compatible compiler jobs (fun w => Within (jobs.map Job.home) t w.tree)
      (fun j phase w => (j.Started compiler phase ∧ Housed root w.tree phase) ∧
        Tracked j compiler root l w.tree phase) := by
  have penned : ∀ j ∈ jobs, j.Penned compiler root := fun j member =>
    (orderly j member).tidy.penned (homed j member)
  refine (penned_compatible wellFormed absolute hosts homed penned).also ?_ ?_ fun _ _ _ _ tracked => tracked
  · intro j member phase w common own tracked
    have steady := common.steady wellFormed
    exact tracked_acts steady.wellFormed absolute (steady.hosts hosts) (homed j member) (orderly j member) own.1
      tracked (step_acts ..)
  · intro j member phase w common own k inside apart other _ tracked
    have steady := common.steady wellFormed
    refine tracked_elsewhere (steady.hosts hosts) (homed k inside) apart (fun stands => ?_) tracked
    have changes := acts_penned steady.wellFormed absolute (steady.hosts hosts) (homed j member) (penned j member)
      own.1 own.2 (step_acts j compiler phase w)
    rw [(homed j member).home] at changes
    exact changes.standing ((steady.hosts hosts).based steady.wellFormed absolute stands) (abi_notUp j.abi _ (by simp))

theorem sampleBehaviour_orderly {p : Profile} (content : Bytes) (exit : Int) (own : j.command.outputDir = j.outputDir p)
    (noNul : FilePath.anyNul (j.command.outputDir.child "liba.so").names = false)
    (fits : ∀ name ∈ (j.command.outputDir.child "liba.so").names, ¬ maxNameSize < name.utf8ByteSize) :
    j.Orderly (.ofBehaviours fun _ => sampleBehaviour content exit) := by
  refine ⟨Tidy.home (ofBehaviours_tidy own fun _ => sampleBehaviour_plain _ _), fun process started => ?_⟩
  cases started
  refine ⟨fun item inside => ?_, fun item inside other among _ => ?_⟩
  · rw [List.mem_singleton.mp inside]
    exact ⟨noNul, fits⟩
  · rw [List.mem_singleton.mp inside, List.mem_singleton.mp among]

end Build

end AbiBuild
