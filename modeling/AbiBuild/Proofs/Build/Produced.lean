import AbiBuild.Proofs.Build.Effects

namespace AbiBuild.Build
open AbiBuild.Text FileTree

def Absent (j : Job) (l : Location) (t : FileTree) : Prop :=
  ∀ library ∈ j.libraries, ∀ content executable,
    t.node? (l ++ libraryNames j.abi j.profile library) ≠ some (.file content executable)

-- Of what the process put at a library's path, the last is there.
def Written (j : Job) (process : Process) (l : Location) (t : FileTree) : Prop :=
  ∀ library ∈ j.libraries, ∀ content executable,
    t.node? (l ++ libraryNames j.abi j.profile library) = some (.file content executable) →
    lastWrite process.writes (j.libraryPath j.profile library) = some (.file content executable)

def Collected (j : Job) (artifacts : List (String × FilePath)) : Prop :=
  ∀ library path, (library, path) ∈ artifacts → path = j.libraryPath j.profile library

structure Produced (j : Job) (compiler : Compiler) (process : Process) (result : Compilation)
    (l : Location) (t : FileTree) : Prop where
  started : compiler j.command = .started process
  exit : process.status = 0
  written : Written j process l t
  collected : Collected j result.artifacts

-- What holds of a job's own libraries in each phase.
def Own (j : Job) (compiler : Compiler) (root : FilePath) (l : Location) (t : FileTree) : Phase → Prop
  | .clearing => Stands t root l
  | .marking | .starting => Stands t root l ∧ Absent j l t
  | .running process _ | .stopping process =>
    compiler j.command = .started process ∧ Stands t root l ∧ Absent j l t
  | .exited process => compiler j.command = .started process ∧ Stands t root l ∧ Written j process l t
  | .unmarking process artifacts => compiler j.command = .started process ∧ Stands t root l ∧
    Written j process l t ∧ process.status = 0 ∧ Collected j artifacts
  | .ended result => result.abi = j.abi ∧
    (result.ok = true → ∃ process, Produced j compiler process result l t)
  | _ => True

variable {j : Job} {compiler : Compiler} {root : FilePath} {t u : FileTree} {l m : Location}
  {phase next : Phase} {process : Process} {abi : Abi} {library : String} {region : Location}
  {made : Location → Prop}

theorem own_started (own : Own j compiler root l t phase) : j.Started compiler phase := by
  intro process same
  cases phase with
  | running => cases same; exact own.1
  | stopping => cases same; exact own.1
  | exited => cases same; exact own.1
  | unmarking => cases same; exact own.1
  | _ => cases same

theorem absent_elsewhere (changes : Changes region made t u)
    (outside : ∀ library, ¬ region <+: l ++ libraryNames j.abi j.profile library)
    (absent : Absent j l t) : Absent j l u :=
  fun library member content executable there =>
    absent library member content executable ((changes.file (outside library)).mp there)

theorem written_elsewhere (changes : Changes region made t u)
    (outside : ∀ library, ¬ region <+: l ++ libraryNames j.abi j.profile library)
    (written : Written j process l t) : Written j process l u :=
  fun library member content executable there =>
    written library member content executable ((changes.file (outside library)).mp there)

theorem produced_elsewhere {result : Compilation} (changes : Changes region made t u)
    (outside : ∀ library, ¬ region <+: l ++ libraryNames j.abi j.profile library)
    (produced : Produced j compiler process result l t) : Produced j compiler process result l u :=
  ⟨produced.started, produced.exit, written_elsewhere changes outside produced.written,
    produced.collected⟩

theorem own_elsewhere (changes : Changes region made t u)
    (outside : ∀ library, ¬ region <+: l ++ libraryNames j.abi j.profile library)
    (own : Own j compiler root l t phase) : Own j compiler root l u phase := by
  cases phase with
  | clearing => exact changes.stands own
  | marking => exact ⟨changes.stands own.1, absent_elsewhere changes outside own.2⟩
  | starting => exact ⟨changes.stands own.1, absent_elsewhere changes outside own.2⟩
  | running => exact ⟨own.1, changes.stands own.2.1, absent_elsewhere changes outside own.2.2⟩
  | stopping => exact ⟨own.1, changes.stands own.2.1, absent_elsewhere changes outside own.2.2⟩
  | exited => exact ⟨own.1, changes.stands own.2.1, written_elsewhere changes outside own.2.2⟩
  | unmarking =>
    obtain ⟨started, stands, written, rest⟩ := own
    exact ⟨started, changes.stands stands, written_elsewhere changes outside written, rest⟩
  | ended result =>
    refine ⟨own.1, fun good => ?_⟩
    obtain ⟨process, produced⟩ := own.2 good
    exact ⟨process, produced_elsewhere changes outside produced⟩
  | ready => trivial
  | discarding => trivial
  | makingHome => trivial
  | broken => trivial

theorem own_lost (lost : j.Lost phase) : Own j compiler root l t phase := by
  obtain ⟨cause, rfl⟩ | ⟨diagnostic, status, duration, rfl⟩ := lost
  · trivial
  · exact ⟨rfl, fun good => by cases good⟩

theorem collect_paths {artifacts : List (String × FilePath)} (found : j.collect t = .ok artifacts) :
    Collected j artifacts := by
  unfold Job.collect at found
  generalize j.libraries = libraries at found
  induction libraries generalizing artifacts with
  | nil =>
    cases found
    simp [Collected]
  | cons library rest ih =>
    rw [List.filterMapM_cons] at found
    cases asked : t.isFile (j.libraryPath j.profile library) with
    | error fault => simp [asked, bind, Except.bind] at found
    | ok there =>
      simp only [asked, bind, Except.bind, pure, Except.pure] at found
      cases rest_ : List.filterMapM (fun library => do
          let path := j.libraryPath j.profile library
          return if ← t.isFile path then some (library, path) else none) rest with
      | error fault =>
        simp only [bind, Except.bind, pure, Except.pure] at rest_
        cases there <;> simp [rest_] at found
      | ok others =>
        have inner := ih rest_
        simp only [bind, Except.bind, pure, Except.pure] at rest_
        cases there with
        | false =>
          simp only [Bool.false_eq_true, if_false, rest_] at found
          cases found
          exact inner
        | true =>
          simp only [if_true, rest_] at found
          cases found
          intro name path member
          rcases List.mem_cons.mp member with same | later
          · cases same
            rfl
          · exact inner name path later

theorem stands_of_made {names : List String} (wellFormed : t.WellFormed) (absolute : root.root ≠ .relative)
    (hosts : Hosts t root l) (plain : ∀ name ∈ names, name ≠ "..") (nonempty : names ≠ [])
    (fine : (t.ensureDirectory (root.under names)).fault = none) :
    Stands (t.ensureDirectory (root.under names)).tree root l := by
  have absolute' : (root.under names).root ≠ .relative := absolute
  obtain ⟨s, between, ran⟩ := (makeDirectories_parts wellFormed absolute').2 fine
  rw [List.take_length] at ran
  have hosts' := (between []).hosts hosts
  have path : (⟨(root.under names).root, (root.under names).names⟩ : FilePath) = root.under names := rfl
  rw [path] at ran
  show Stands (makeDirectories t _ _ true _).tree root l
  rcases makeDirectoryOr_parts ran with made | ⟨same, _, there⟩
  · rw [makeDirectory_eq] at made
    have place := (amend_parts hosts' plain nonempty made).1
    have changes : Changes (l ++ []) nowhere s _ :=
      amend_changes makeRule_mild hosts' plain nonempty List.nil_prefix made
    exact changes.stands place.stands
  · rw [same]
    unfold isDirectory at there
    cases probed : s.probe (root.under names) with
    | error fault => simp [probed, Except.map] at there
    | ok found =>
      cases found with
      | none => simp [probed, Except.map] at there
      | some node => exact (probe_under_some hosts' plain nonempty probed).1

theorem own_acts (wellFormed : t.WellFormed) (absolute : root.root ≠ .relative)
    (hosts : Hosts t root l) (homed : j.Homed root) (tidy : j.Tidy compiler j.home)
    (own : Own j compiler root l t phase) (acts : j.Acts compiler phase t next u) :
    Own j compiler root l u next := by
  have changes := acts_changes wellFormed absolute hosts homed tidy (own_started own) acts
  have outside : ∀ library, ¬ l ++ markerNames j.abi <+: l ++ libraryNames j.abi j.profile library :=
    fun library => library_outside_marker
  cases acts with
  | begun => trivial
  | discarded => trivial
  | housed fine =>
    rw [homed.home] at fine ⊢
    exact stands_of_made wellFormed absolute hosts (abi_notUp j.abi) (by simp) fine
  | cleared fine =>
    have cleared := clearing_outputs hosts homed j.profile
    refine ⟨changes.stands own, fun library member content executable there => ?_⟩
    have gone := cleared.done fine own wellFormed (j.profile, library)
      (mem_targets.mpr ⟨by simp, member⟩)
    rw [gone] at there
    cases there
  | marked written =>
    obtain ⟨marking, _, _⟩ := marker_written hosts homed written
    exact ⟨changes.stands own.1, absent_elsewhere marking outside own.2⟩
  | launched answer => exact ⟨answer, own.1, own.2⟩
  | waited => exact own
  | called => exact own
  | @exited process polls =>
    obtain ⟨started, stands, absent⟩ := own
    refine ⟨started, changes.stands stands, fun library member content executable there => ?_⟩
    have plain := libraryNames_plain j.abi j.profile (homed.libraries library member)
    have below : ∀ item ∈ process.writes, Below root item := by
      intro item among
      have home := tidy process started item (List.mem_append_left _ among)
      rw [homed.home] at home
      exact home.above (by simp [abi_plain])
    rw [libraryPath_eq homed _ member]
    exact (depositAll_last wellFormed absolute hosts (notUp_of_plain plain) (by simp [libraryNames])
      below (absent library member) content executable there).1
  | collected _ exit found =>
    obtain ⟨started, stands, written⟩ := own
    exact ⟨started, stands, written, exit, collect_paths found⟩
  | built removed =>
    obtain ⟨started, stands, written, exit, collected⟩ := own
    obtain ⟨removing, _⟩ := marker_removed hosts homed removed
    exact ⟨rfl, fun _ => ⟨_, started, exit, written_elsewhere removing outside written, collected⟩⟩
  | finished => exact own
  | cancelled lost => exact own_lost lost
  | undiscarded _ lost => exact own_lost lost
  | unhoused _ lost => exact own_lost lost
  | uncleared _ lost => exact own_lost lost
  | unmarked _ lost => exact own_lost lost
  | unlaunched lost => exact own_lost lost
  | stopped lost => exact own_lost lost
  | failed lost => exact own_lost lost
  | kept _ lost => exact own_lost lost

end AbiBuild.Build
