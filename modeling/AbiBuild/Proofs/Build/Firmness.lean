import AbiBuild.Proofs.Build.Delivery
import AbiBuild.Proofs.Build.Shadows
import AbiBuild.Proofs.Files.Growth
import AbiBuild.Proofs.Files.Refusals
import AbiBuild.Proofs.Text.Tails

namespace AbiBuild.Build
open AbiBuild.Text FileTree

-- What a job comes to, unless it breaks. Only where the build is called off is it cancelled.
inductive Job.Ends (j : Job) (compiler : Compiler) (called : Bool) : Compilation → Prop
  | cancelled (off : called = true) : Ends j compiler called (j.failed "cancelled" none (.zero false))
  | unprepared {fault : FileFault} (system : fault.isSystem = true) :
      Ends j compiler called
        (j.failed s!"cannot prepare {j.home.text}: {fault.message}" none (.zero false))
  | unstarted {reason : String} (answer : compiler j.command = .refused reason) :
      Ends j compiler called (j.failed s!"cannot run {j.cargo}: {reason}" none (.zero false))
  | stopped {process : Process} (answer : compiler j.command = .started process) (off : called = true) :
      Ends j compiler called
        (j.failed "cancelled" (some process.stopped.status) process.stopped.seconds)
  | failed {process : Process} {text : String} (answer : compiler j.command = .started process)
      (said : process.own.said = .ok text) (exit : process.status ≠ 0) :
      Ends j compiler called (j.failed (Job.diagnostic text process.status) (some process.status) process.seconds)
  | built {process : Process} {artifacts : List (String × FilePath)}
      (answer : compiler j.command = .started process) (exit : process.status = 0) :
      Ends j compiler called (j.built artifacts process.seconds)

def Legible (path : FilePath) (t : FileTree) : Prop :=
  ∀ m content executable, LeadsTo t path m → t.node? m = some (.file content executable) →
    ∃ text, readText content = .ok text

-- The target directory stands, and the marker is there.
def Guarded (j : Job) (root : FilePath) (l : Location) (t : FileTree) : Prop :=
  Stands t root l ∧ ∃ content executable, t.node? (l ++ markerNames j.abi) = some (.file content executable)

-- Wherever the job's processes put files and directories, at other jobs' markers they put nothing but text.
def Job.Harmless (j : Job) (compiler : Compiler) (jobs : List Job) (t : FileTree) : Prop :=
  ∀ process, compiler j.command = .started process → ∀ item ∈ process.writes ++ process.left,
    Solid item ∧ ∀ k ∈ jobs, k.abi ≠ j.abi → ∀ m content executable, LeadsTo t item.1 m →
      LeadsTo t k.marker m → item.2 = .file content executable → ∃ text, readText content = .ok text

-- The job's call can be passed on, and all that its process says is text, also where it is stopped.
structure Job.Understood (j : Job) (compiler : Compiler) : Prop where
  fit : j.call.fault? = none
  own : ∀ process, compiler j.command = .started process → ∃ text, process.own.said = .ok text
  stopped : ∀ process, compiler j.command = .started process → ∃ text, process.stopped.said = .ok text

-- What holds of a job in each phase as long as nothing breaks it.
def Firm (j : Job) (compiler : Compiler) (root : FilePath) (l : Location) (called : Bool) (t : FileTree) :
    Phase → Prop
  | .ready | .discarding => Legible j.marker t
  | .makingHome => True
  | .clearing | .marking => Stands t root l
  | .starting => Guarded j root l t
  | .running process _ | .exited process => compiler j.command = .started process ∧ Guarded j root l t
  | .stopping process => compiler j.command = .started process ∧ called = true ∧ Guarded j root l t
  | .unmarking process _ =>
    compiler j.command = .started process ∧ process.status = 0 ∧ Guarded j root l t
  | .ended result => j.Ends compiler called result ∧
    (result.ok = false → result.status.isSome = true → Guarded j root l t)
  | .broken _ => False

variable {j k : Job} {compiler : Compiler} {root : FilePath} {l : Location} {t u t₀ : FileTree}
  {called later : Bool} {phase next : Phase} {w v : Workshop} {result : Compilation} {r : Trail}
  {jobs : List Job} {library : String} {path : FilePath}

theorem Job.Ends.abi (ends : j.Ends compiler called result) : result.abi = j.abi := by
  cases ends <;> rfl

theorem Job.Ends.mono (ends : j.Ends compiler called result) (onward : called = true → later = true) :
    j.Ends compiler later result := by
  cases ends with
  | cancelled off => exact .cancelled (onward off)
  | unprepared system => exact .unprepared system
  | unstarted answer => exact .unstarted answer
  | stopped answer off => exact .stopped answer (onward off)
  | failed answer said exit => exact .failed answer said exit
  | built answer exit => exact .built answer exit

theorem diagnostic_inked (text : String) (status : Int) : isBlankText (Job.diagnostic text status) = false := by
  unfold Job.diagnostic
  dsimp only
  split
  · have said : isBlankText "cargo exited with status " = false := by decide
    show isBlankText ("cargo exited with status " ++ toString status) = false
    simp [isBlankText_append, said]
  · rename_i nonempty
    rcases @tailLines_inked text 20 with none_ | inked
    · simp [none_] at nonempty
    · exact inked

theorem Job.Ends.reason (ends : j.Ends compiler called result) (lost : result.ok = false) :
    isBlankText result.diagnostic = false := by
  cases ends with
  | cancelled off =>
    have said : isBlankText "cancelled" = false := by decide
    exact said
  | stopped answer off =>
    have said : isBlankText "cancelled" = false := by decide
    exact said
  | @unprepared fault system =>
    have said : isBlankText "cannot prepare " = false := by decide
    show isBlankText ("cannot prepare " ++ j.home.text ++ ": " ++ fault.message) = false
    simp [isBlankText_append, said]
  | @unstarted reason answer =>
    have said : isBlankText "cannot run " = false := by decide
    show isBlankText ("cannot run " ++ j.cargo ++ ": " ++ reason) = false
    simp [isBlankText_append, said]
  | @failed process text => exact diagnostic_inked text process.status
  | built answer exit => cases lost

theorem Guarded.strews {items : List (FilePath × Node)} (guarded : Guarded j root l t)
    (strews : Strews items t u) : Guarded j root l u := by
  obtain ⟨stands, content, executable, there⟩ := guarded
  exact ⟨strews.changes.stands stands, strews.stays _ content executable there⟩

theorem under_noNul {names : List String} (noNul : root.hasNul = false) (nameable : Nameable names) :
    (root.under names).hasNul = false := by
  rw [FilePath.hasNul_under, noNul, nameable.noNul]
  rfl

theorem clear_system {targets : List (Profile × String)} {fault : FileFault} (homed : j.Homed root)
    (noNul : root.hasNul = false) (nameable : ∀ library ∈ j.libraries, Nameable [library])
    (known : ∀ target ∈ targets, target.2 ∈ j.libraries)
    (failed : (j.clear targets t).fault = some fault) : fault.isSystem = true := by
  refine series_system (fun operation member t fault refused => ?_) failed
  obtain ⟨target, inside, rfl⟩ := List.mem_map.mp member
  have configured := known target inside
  rw [libraryPath_eq homed target.1 configured] at refused
  exact unlinkIfThere_system
    (under_noNul noNul (libraryNames_nameable j.abi target.1 (nameable target.2 configured))) refused

theorem discard_system {fault : FileFault} (wellFormed : t.WellFormed) (hosts : Hosts t root l)
    (homed : j.Homed root) (noNul : root.hasNul = false)
    (nameable : ∀ library ∈ j.libraries, Nameable [library]) (legible : Legible j.marker t)
    (failed : (j.discard t).1.fault = some fault) : fault.isSystem = true := by
  have plain := markerNames_notUp j.abi
  have some_ := markerNames_ne_nil j.abi
  unfold Job.discard at failed
  cases asked : t.isFile j.marker with
  | error cause =>
    rw [asked] at failed
    cases failed
    exact isFile_system asked
  | ok answer =>
    rw [asked] at failed
    cases answer with
    | false => cases failed
    | true =>
      rw [marker_eq homed] at asked
      obtain ⟨stands, content, executable, there⟩ := isFile_true hosts plain some_ asked
      obtain ⟨_, clear⟩ := hosts.stands stands
      have leads : LeadsTo t j.marker (l ++ markerNames j.abi) := by
        rw [marker_eq homed]
        exact stands.leadsTo.under clear plain
      obtain ⟨text, holds⟩ := legible _ content executable leads there
      have recorded : t.readText j.marker = .ok text := by
        rw [marker_eq homed, readText_under stands clear wellFormed plain some_
          (markerNames_nameable j.abi) there, holds]
      rw [recorded] at failed
      simp only [clearStale_eq] at failed
      exact clear_system homed noNul nameable (targets_known _) failed

-- Preparing is refused by the system or not at all, and a refusal fails the job alone.
theorem prepared_firm (system : ∀ fault, r.fault = some fault → fault.isSystem = true)
    (further : r.fault = none → Firm j compiler root l w.cancelled r.tree next) :
    Firm j compiler root l (j.afterPreparing r next w).2.cancelled (j.afterPreparing r next w).2.tree
      (j.afterPreparing r next w).1 := by
  unfold Job.afterPreparing
  cases failed : r.fault with
  | none => exact further failed
  | some fault =>
    have refused := system fault failed
    simp only [refused, if_true]
    exact ⟨.unprepared refused, fun _ known => by cases known⟩

theorem strews_writes {process : Process} (wellFormed : t.WellFormed) (harmless : j.Harmless compiler jobs t₀)
    (started : compiler j.command = .started process) : Strews process.writes t (t.depositAll process.writes) :=
  depositAll_strews wellFormed fun item member =>
    (harmless process started item (List.mem_append_left _ member)).1

theorem strews_left {process : Process} (wellFormed : t.WellFormed) (harmless : j.Harmless compiler jobs t₀)
    (started : compiler j.command = .started process) : Strews process.left t (t.depositAll process.left) :=
  depositAll_strews wellFormed fun item member =>
    (harmless process started item (List.mem_append_right _ member)).1

theorem collect_found (asked : ∀ library ∈ j.libraries, ∃ answer,
    t.isFile (j.libraryPath j.profile library) = .ok answer) : ∃ artifacts, j.collect t = .ok artifacts := by
  choose answer same using asked
  rw [collect_gathered]
  refine ⟨j.listed fun library => if member : library ∈ j.libraries then answer library member else false,
    gathered_listed fun library member => ?_⟩
  rw [same library member, dif_pos member]

theorem collect_nameable (stands : Stands t root l) (clear : Clear t l) (homed : j.Homed root)
    (nameable : ∀ library ∈ j.libraries, Nameable [library]) : ∃ artifacts, j.collect t = .ok artifacts := by
  refine collect_found fun library configured => ?_
  rw [libraryPath_eq homed j.profile configured]
  exact isFile_nameable stands clear
    (notUp_of_plain (libraryNames_plain j.abi j.profile (homed.libraries library configured)))
    (by simp [libraryNames]) (libraryNames_nameable j.abi j.profile (nameable library configured))

-- A job that holds firm takes no step that breaks it.
theorem firm_step (wellFormed : w.tree.WellFormed) (absolute : root.root ≠ .relative)
    (hosts : Hosts w.tree root l) (homed : j.Homed root) (noNul : root.hasNul = false)
    (nameable : ∀ library ∈ j.libraries, Nameable [library]) (harmless : j.Harmless compiler jobs t₀)
    (understood : j.Understood compiler) (firm : Firm j compiler root l w.cancelled w.tree phase) :
    Firm j compiler root l (j.step compiler phase w).2.cancelled (j.step compiler phase w).2.tree
      (j.step compiler phase w).1 := by
  have markerUp := markerNames_notUp j.abi
  have markerSome := markerNames_ne_nil j.abi
  have markerFits := markerNames_nameable j.abi
  cases phase with
  | ready =>
    simp only [Job.step]
    split
    · rename_i off
      exact ⟨.cancelled off, fun _ known => by cases known⟩
    · exact firm
  | discarding =>
    simp only [Job.step]
    exact prepared_firm (fun fault => discard_system wellFormed hosts homed noNul nameable firm)
      fun _ => trivial
  | makingHome =>
    simp only [Job.step]
    refine prepared_firm (fun fault failed => ?_) fun fine => ?_
    · rw [homed.home] at failed
      exact ensureDirectory_system (under_noNul noNul (abi_nameable j.abi)) failed
    · rw [homed.home] at fine ⊢
      exact stands_of_made wellFormed absolute hosts (abi_notUp j.abi) (by simp) fine
  | clearing =>
    simp only [Job.step]
    refine prepared_firm (fun fault failed => ?_) fun fine => ?_
    · rw [clearOutputs_eq] at failed
      exact clear_system homed noNul nameable (targets_known _) failed
    · exact ((clearing_outputs hosts homed j.profile).changes nowhere).stands firm
  | marking =>
    simp only [Job.step]
    cases ran : w.tree.write j.marker (encode (j.profile.outputDir ++ "\n")) with
    | error fault =>
      rw [mark_refused ran]
      refine prepared_firm (fun other failed => ?_) fun impossible => by cases impossible
      cases failed
      rw [marker_eq homed] at ran
      exact write_system (under_noNul noNul markerFits) ran
    | ok u =>
      rw [mark_written ran]
      refine prepared_firm (fun other impossible => by cases impossible) fun _ => ?_
      obtain ⟨changes, _, there⟩ := marker_written hosts homed ran
      exact ⟨changes.stands firm, _, there⟩
  | starting =>
    simp only [Job.step]
    generalize taken : j.launch compiler w = r
    cases launches taken with
    | unfit unfit => cases unfit.symm.trans understood.fit
    | refused _ answer => exact ⟨.unstarted answer, fun _ known => by cases known⟩
    | started _ answer => exact ⟨answer, firm⟩
  | running process polls =>
    obtain ⟨started, guarded⟩ := firm
    simp only [Job.step, Job.poll]
    split
    · split
      · rename_i off
        exact ⟨started, off, guarded⟩
      · exact ⟨started, guarded⟩
    · exact ⟨started, guarded.strews (strews_writes wellFormed harmless started)⟩
  | stopping process =>
    obtain ⟨started, off, guarded⟩ := firm
    simp only [Job.step]
    generalize taken : j.stop process w = r
    cases stops taken with
    | unread garbled =>
      obtain ⟨text, said⟩ := understood.stopped process started
      cases garbled.symm.trans said
    | called => exact ⟨.stopped started off, fun _ _ => guarded.strews (strews_left wellFormed harmless started)⟩
  | exited process =>
    obtain ⟨started, guarded⟩ := firm
    obtain ⟨_, clear⟩ := hosts.stands guarded.1
    simp only [Job.step]
    generalize taken : j.judge process w = r
    cases judges taken with
    | unread garbled =>
      obtain ⟨text, said⟩ := understood.own process started
      cases garbled.symm.trans said
    | failed said exit => exact ⟨.failed started said exit, fun _ _ => guarded⟩
    | uncollected _ _ refused =>
      obtain ⟨artifacts, found⟩ := collect_nameable guarded.1 clear homed nameable
      cases refused.symm.trans found
    | collected _ exit => exact ⟨started, exit, guarded⟩
  | unmarking process artifacts =>
    obtain ⟨started, exit, stands, content, executable, there⟩ := firm
    obtain ⟨_, clear⟩ := hosts.stands stands
    simp only [Job.step, Job.unmark]
    rw [marker_eq homed, unlinkIfThere_there stands clear wellFormed markerUp markerSome markerFits there]
    exact ⟨.built started exit, fun lost => by cases lost⟩
  | ended result => exact firm
  | broken cause => exact firm

theorem firm_started (firm : Firm j compiler root l called t phase) : j.Started compiler phase := by
  intro process own
  cases phase with
  | running => cases own; exact firm.1
  | stopping => cases own; exact firm.1
  | exited => cases own; exact firm.1
  | unmarking => cases own; exact firm.1
  | _ => cases own

-- What goes on elsewhere leaves a job its target directory, its marker, and the text in it.
structure Spares (k : Job) (root : FilePath) (l : Location) (t u : FileTree) : Prop where
  stands : Stands t root l → Stands u root l
  guarded : Guarded k root l t → Guarded k root l u
  legible : Legible k.marker t → Legible k.marker u

theorem Spares.firm (spares : Spares k root l t u) (onward : called = true → later = true)
    (firm : Firm k compiler root l called t phase) : Firm k compiler root l later u phase := by
  cases phase with
  | ready => exact spares.legible firm
  | discarding => exact spares.legible firm
  | makingHome => trivial
  | clearing => exact spares.stands firm
  | marking => exact spares.stands firm
  | starting => exact spares.guarded firm
  | running process polls => exact ⟨firm.1, spares.guarded firm.2⟩
  | stopping process => exact ⟨firm.1, onward firm.2.1, spares.guarded firm.2.2⟩
  | exited process => exact ⟨firm.1, spares.guarded firm.2⟩
  | unmarking process artifacts => exact ⟨firm.1, firm.2.1, spares.guarded firm.2.2⟩
  | ended result =>
    exact ⟨firm.1.mono onward, fun lost known => spares.guarded (firm.2 lost known)⟩
  | broken cause => exact firm

theorem Spares.refl (k : Job) (root : FilePath) (l : Location) (t : FileTree) : Spares k root l t t :=
  ⟨id, id, id⟩

theorem spares_outside {made : Location → Prop} (hosts : Hosts t root l) (homed : k.Homed root)
    (apart : k.abi ≠ j.abi) (changes : Changes (l ++ [j.abi.text]) made t u) : Spares k root l t u := by
  have outside : ¬ l ++ [j.abi.text] <+: l ++ markerNames k.abi := outside_abi (Ne.symm apart) _
  refine ⟨changes.stands, ?_, fun legible m content executable leads there => ?_⟩
  · rintro ⟨stands, content, executable, there⟩
    exact ⟨changes.stands stands, content, executable, (changes.file outside).mpr there⟩
  · have leads' := leads.congr changes.here.symm changes.links.symm
    have place : m = l ++ markerNames k.abi := by
      rw [marker_eq homed] at leads'
      exact leadsTo_under hosts (markerNames_notUp k.abi) leads'
    subst place
    exact legible _ content executable leads' ((changes.file outside).mp there)

theorem spares_strewn {process : Process} {items : List (FilePath × Node)} (steady : Steady t₀ t)
    (harmless : j.Harmless compiler jobs t₀) (started : compiler j.command = .started process)
    (among : ∀ item ∈ items, item ∈ process.writes ++ process.left) (member : k ∈ jobs)
    (apart : k.abi ≠ j.abi) (strews : Strews items t u) : Spares k root l t u := by
  refine ⟨strews.changes.stands, fun guarded => guarded.strews strews,
    fun legible m content executable leads there => ?_⟩
  have leads' := leads.congr strews.changes.here.symm strews.changes.links.symm
  rcases strews.source m content executable there with before | ⟨item, inside, own, aims⟩
  · exact legible m content executable leads' before
  · exact (harmless process started item (among item inside)).2 k member apart m content executable
      (steady.leadsTo.mp aims) (steady.leadsTo.mp leads') own

theorem step_spares (steady : Steady t₀ w.tree) (absolute : root.root ≠ .relative) (hosts : Hosts t₀ root l)
    (homed : j.Homed root) (harmless : j.Harmless compiler jobs t₀) (started : j.Started compiler phase) :
    Steady t₀ (j.step compiler phase w).2.tree ∧ ∀ k ∈ jobs, k.Homed root → k.abi ≠ j.abi →
      Spares k root l w.tree (j.step compiler phase w).2.tree := by
  have hosts' := steady.hosts hosts
  rcases acts_leaves steady.wellFormed absolute hosts' homed (step_acts j compiler phase w) with
    changes | ⟨process, own, items, among, same⟩
  · exact ⟨steady.changes changes, fun k _ homed' apart => spares_outside hosts' homed' apart changes⟩
  · have strews : Strews items w.tree (w.tree.depositAll items) :=
      depositAll_strews steady.wellFormed fun item member =>
        (harmless process (started process own) item (among item member)).1
    rw [same]
    exact ⟨steady.changes strews.changes, fun k member _ apart =>
      spares_strewn steady harmless (started process own) among member apart strews⟩

theorem firm_compatible (absolute : root.root ≠ .relative) (hosts : Hosts t₀ root l)
    (homed : ∀ j ∈ jobs, j.Homed root) (noNul : root.hasNul = false)
    (nameable : ∀ j ∈ jobs, ∀ library ∈ j.libraries, Nameable [library])
    (harmless : ∀ j ∈ jobs, j.Harmless compiler jobs t₀) (understood : ∀ j ∈ jobs, j.Understood compiler) :
    Compatible compiler jobs (fun w => Steady t₀ w.tree)
      (fun j phase w => Firm j compiler root l w.cancelled w.tree phase) where
  common j member _ _ steady firm :=
    (step_spares steady absolute hosts (homed j member) (harmless j member) (firm_started firm)).1
  own j member _ _ steady firm :=
    firm_step steady.wellFormed absolute (steady.hosts hosts) (homed j member) noNul (nameable j member)
      (harmless j member) (understood j member) firm
  others j member phase w steady firm k inside apart _ kept :=
    ((step_spares steady absolute hosts (homed j member) (harmless j member) (firm_started firm)).2 k inside
      (homed k inside) apart).firm (step_beside j compiler phase w).called kept
  cancel _ steady := steady
  ownCancel j _ _ w _ firm := (Spares.refl j root l w.tree).firm (fun _ => rfl) firm

theorem breakage_ended {phases : List Phase} (ended : ∀ phase ∈ phases, ∃ result, phase = .ended result) :
    Pool.breakage phases = none := by
  induction phases with
  | nil => rfl
  | cons first rest ih =>
    obtain ⟨result, rfl⟩ := ended first (by simp)
    exact ih fun phase member => ended phase (List.mem_cons_of_mem _ member)

theorem record_own {results : List Compilation} {i : Invocation}
    (distinct : (results.map Compilation.abi).Nodup) (member : result ∈ results) :
    (results.foldl Invocation.record i).result? result.abi = some result := by
  -- Induction on the results from the last one on: no later result takes the place of an earlier one.
  induction results using List.reverseRecOn with
  | nil => cases member
  | append_singleton results last ih =>
    rw [List.map_append, List.nodup_append] at distinct
    obtain ⟨before, _, apart⟩ := distinct
    rw [List.foldl_append]
    simp only [List.foldl_cons, List.foldl_nil, Invocation.record]
    rcases List.mem_append.mp member with earlier | own
    · have other : result.abi ≠ last.abi :=
        apart result.abi (List.mem_map_of_mem earlier) last.abi (by simp)
      rw [if_neg other]
      exact ih before earlier
    · rw [List.mem_singleton.mp own, if_pos rfl]

theorem results_abis {list : List (Job × Phase)}
    (own : ∀ s ∈ list, ∀ result, s.2 = .ended result → result.abi = s.1.abi) :
    (((list.map Prod.snd).filterMap Phase.result?).map Compilation.abi).Sublist (list.map fun s => s.1.abi) := by
  induction list with
  | nil => exact .slnil
  | cons first rest ih =>
    have later := ih fun s member => own s (List.mem_cons_of_mem _ member)
    obtain ⟨j, phase⟩ := first
    cases phase with
    | ended result =>
      have abi : result.abi = j.abi := own _ List.mem_cons_self result rfl
      simp only [List.map_cons, List.filterMap_cons, Phase.result?, abi]
      exact later.cons_cons _
    | _ => exact later.cons _

theorem record_ended {list : List (Job × Phase)} {i : Invocation} (distinct : (list.map fun s => s.1.abi).Nodup)
    (own : ∀ s ∈ list, ∀ result, s.2 = .ended result → result.abi = s.1.abi) (member : (j, .ended result) ∈ list) :
    (Pool.record i (list.map Prod.snd)).result? j.abi = some result := by
  have found : result ∈ (list.map Prod.snd).filterMap Phase.result? :=
    List.mem_filterMap.mpr ⟨_, List.mem_map_of_mem member, rfl⟩
  rw [show j.abi = result.abi from (own _ member result rfl).symm]
  exact record_own (distinct.sublist (results_abis own)) found

theorem gather_ended {list : List (Job × Phase)} {i : Invocation} (distinct : (list.map fun s => s.1.abi).Nodup)
    (ended : ∀ s ∈ list, ∃ result, s.2 = .ended result ∧ result.abi = s.1.abi) :
    ∃ i', Pool.gather i (list.map Prod.snd) = .ok i' ∧ i'.architectures = i.architectures ∧
      ∀ j result, (j, .ended result) ∈ list → i'.result? j.abi = some result := by
  have whole : ∀ phase ∈ list.map Prod.snd, ∃ result, phase = .ended result := by
    intro phase member
    obtain ⟨s, inside, rfl⟩ := List.mem_map.mp member
    obtain ⟨result, own, _⟩ := ended s inside
    exact ⟨result, own⟩
  refine ⟨Pool.record i (list.map Prod.snd), ?_, record_kept.2.2, fun j result member => ?_⟩
  · unfold Pool.gather
    rw [breakage_ended whole]
  · refine record_ended distinct (fun s inside result same => ?_) member
    obtain ⟨other, own, abi⟩ := ended s inside
    cases own.symm.trans same
    exact abi

end AbiBuild.Build
