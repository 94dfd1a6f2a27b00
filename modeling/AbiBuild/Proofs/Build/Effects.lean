import AbiBuild.Proofs.Build.Handling
import AbiBuild.Proofs.Build.Layout

namespace AbiBuild.Build
open AbiBuild.Text FileTree

def Job.Lost (j : Job) (phase : Phase) : Prop :=
  (∃ cause, phase = .broken cause) ∨
    ∃ diagnostic status duration, phase = .ended (j.failed diagnostic status duration)

-- One constructor for each thing that a step can do.
inductive Job.Acts (j : Job) (compiler : Compiler) : Phase → FileTree → Phase → FileTree → Prop
  | cancelled (lost : j.Lost phase) : Acts j compiler .ready t phase t
  | begun : Acts j compiler .ready t .discarding t
  | discarded (fine : (j.discard t).1.fault = none) :
      Acts j compiler .discarding t .makingHome (j.discard t).1.tree
  | undiscarded (failed : (j.discard t).1.fault = some fault) (lost : j.Lost phase) :
      Acts j compiler .discarding t phase (j.discard t).1.tree
  | housed (fine : (t.ensureDirectory j.home).fault = none) :
      Acts j compiler .makingHome t .clearing (t.ensureDirectory j.home).tree
  | unhoused (failed : (t.ensureDirectory j.home).fault = some fault) (lost : j.Lost phase) :
      Acts j compiler .makingHome t phase (t.ensureDirectory j.home).tree
  | cleared (fine : (j.clearOutputs t j.profile).fault = none) :
      Acts j compiler .clearing t .marking (j.clearOutputs t j.profile).tree
  | uncleared (failed : (j.clearOutputs t j.profile).fault = some fault) (lost : j.Lost phase) :
      Acts j compiler .clearing t phase (j.clearOutputs t j.profile).tree
  | marked (written : t.write j.marker (encode (j.profile.outputDir ++ "\n")) = .ok u) :
      Acts j compiler .marking t .starting u
  | unmarked (refused : t.write j.marker (encode (j.profile.outputDir ++ "\n")) = .error fault)
      (lost : j.Lost phase) : Acts j compiler .marking t phase t
  | unlaunched (lost : j.Lost phase) : Acts j compiler .starting t phase t
  | launched (answer : compiler j.command = .started process) :
      Acts j compiler .starting t (.running process 0) t
  | waited : Acts j compiler (.running process polls) t (.running process (polls + 1)) t
  | called : Acts j compiler (.running process polls) t (.stopping process) t
  | exited : Acts j compiler (.running process polls) t (.exited process) (t.depositAll process.writes)
  | stopped (lost : j.Lost phase) :
      Acts j compiler (.stopping process) t phase (t.depositAll process.left)
  | failed (lost : j.Lost phase) : Acts j compiler (.exited process) t phase t
  | collected (said : process.own.said = .ok text) (exit : process.status = 0)
      (found : j.collect t = .ok artifacts) :
      Acts j compiler (.exited process) t (.unmarking process artifacts) t
  | kept (refused : t.unlinkIfThere j.marker = .error fault) (lost : j.Lost phase) :
      Acts j compiler (.unmarking process artifacts) t phase t
  | built (removed : t.unlinkIfThere j.marker = .ok u) :
      Acts j compiler (.unmarking process artifacts) t
        (.ended (j.built artifacts process.seconds)) u
  | finished (done : phase.isOver = true) : Acts j compiler phase t phase t

variable {j : Job} {compiler : Compiler} {root : FilePath} {t u : FileTree} {l m : Location}
  {phase next : Phase} {w : Workshop} {r : Trail}

theorem lost_ended (diagnostic : String) (status : Option Int) (duration : Binary64) :
    j.Lost (.ended (j.failed diagnostic status duration)) := .inr ⟨_, _, _, rfl⟩

theorem lost_broken (cause : Failure) : j.Lost (.broken cause) := .inl ⟨cause, rfl⟩

theorem Lost.isOver (lost : j.Lost phase) : phase.isOver = true := by
  obtain ⟨cause, rfl⟩ | ⟨_, _, _, rfl⟩ := lost <;> rfl

theorem afterPreparing_tree : (j.afterPreparing r next w).2.tree = r.tree := by
  unfold Job.afterPreparing
  split
  · rfl
  · split <;> rfl

theorem afterPreparing_cases (j : Job) (r : Trail) (next : Phase) (w : Workshop) :
    (j.afterPreparing r next w).1 = next ∨ ∃ fault, r.fault = some fault ∧
      ((j.afterPreparing r next w).1 =
          .ended (j.failed s!"cannot prepare {j.home.text}: {fault.message}" none (.zero false)) ∨
        (j.afterPreparing r next w).1 = .broken (.mishap (.file fault))) := by
  unfold Job.afterPreparing
  cases r.fault with
  | none => exact .inl rfl
  | some fault =>
    refine .inr ⟨fault, rfl, ?_⟩
    simp only
    split
    · exact .inl rfl
    · exact .inr rfl

theorem afterPreparing_fine (fine : r.fault = none) : (j.afterPreparing r next w).1 = next := by
  simp only [Job.afterPreparing, fine]

theorem afterPreparing_lost {fault : FileFault} (failed : r.fault = some fault) :
    j.Lost (j.afterPreparing r next w).1 := by
  simp only [Job.afterPreparing, failed]
  split
  · exact lost_ended _ _ _
  · exact lost_broken _

theorem mark_eq (j : Job) (t : FileTree) :
    j.mark t = (Trail.start t).next fun t => t.write j.marker (encode (j.profile.outputDir ++ "\n")) := rfl

theorem mark_written (written : t.write j.marker (encode (j.profile.outputDir ++ "\n")) = .ok u) :
    j.mark t = ⟨u, none⟩ :=
  (mark_eq j t).trans (Trail.next_ok rfl written)

theorem mark_refused {fault : FileFault}
    (refused : t.write j.marker (encode (j.profile.outputDir ++ "\n")) = .error fault) :
    j.mark t = ⟨t, some fault⟩ :=
  (mark_eq j t).trans (Trail.next_error rfl refused)

theorem marker_written {content : Bytes} (hosts : Hosts t root l) (homed : j.Homed root)
    (written : t.write j.marker content = .ok u) :
    Changes (l ++ markerNames j.abi) nowhere t u ∧ Stands t root l ∧
      ∃ executable, u.node? (l ++ markerNames j.abi) = some (.file content executable) := by
  rw [marker_eq homed] at written
  have changes : Changes (l ++ markerNames j.abi) nowhere t u :=
    write_changes hosts (markerNames_notUp j.abi) (markerNames_ne_nil j.abi) (List.prefix_refl _) written
  obtain ⟨place, executable, rfl⟩ :=
    write_parts hosts (markerNames_notUp j.abi) (markerNames_ne_nil j.abi) written
  exact ⟨changes, place.stands, executable, node?_put_self t place.nonempty _⟩

theorem marker_removed (hosts : Hosts t root l) (homed : j.Homed root)
    (removed : t.unlinkIfThere j.marker = .ok u) :
    Changes (l ++ markerNames j.abi) nowhere t u ∧
      (t.WellFormed → Stands t root l → u.node? (l ++ markerNames j.abi) = none) := by
  rw [marker_eq homed] at removed
  refine ⟨unlinkIfThere_changes hosts (markerNames_notUp j.abi) (markerNames_ne_nil j.abi)
    (List.prefix_refl _) removed, fun wellFormed stands => ?_⟩
  obtain ⟨_, clear⟩ := hosts.stands stands
  exact unlinkIfThere_absent stands clear wellFormed (markerNames_notUp j.abi) (markerNames_ne_nil j.abi) removed

theorem step_acts (j : Job) (compiler : Compiler) (phase : Phase) (w : Workshop) :
    j.Acts compiler phase w.tree (j.step compiler phase w).1 (j.step compiler phase w).2.tree := by
  cases phase with
  | ready =>
    simp only [Job.step]
    split
    · exact .cancelled (lost_ended _ _ _)
    · exact .begun
  | discarding =>
    simp only [Job.step]
    rw [afterPreparing_tree]
    cases failed : (j.discard w.tree).1.fault with
    | none =>
      rw [afterPreparing_fine failed]
      exact .discarded failed
    | some fault => exact .undiscarded failed (afterPreparing_lost failed)
  | makingHome =>
    simp only [Job.step]
    rw [afterPreparing_tree]
    cases failed : (w.tree.ensureDirectory j.home).fault with
    | none =>
      rw [afterPreparing_fine failed]
      exact .housed failed
    | some fault => exact .unhoused failed (afterPreparing_lost failed)
  | clearing =>
    simp only [Job.step]
    rw [afterPreparing_tree]
    cases failed : (j.clearOutputs w.tree j.profile).fault with
    | none =>
      rw [afterPreparing_fine failed]
      exact .cleared failed
    | some fault => exact .uncleared failed (afterPreparing_lost failed)
  | marking =>
    simp only [Job.step]
    rw [afterPreparing_tree]
    cases ran : w.tree.write j.marker (encode (j.profile.outputDir ++ "\n")) with
    | ok u =>
      rw [mark_written ran, afterPreparing_fine rfl]
      exact .marked ran
    | error fault =>
      rw [mark_refused ran]
      exact .unmarked ran (afterPreparing_lost rfl)
  | starting =>
    simp only [Job.step]
    generalize taken : j.launch compiler w = r
    cases launches taken with
    | unfit => exact .unlaunched (lost_broken _)
    | refused => exact .unlaunched (lost_ended _ _ _)
    | started _ answer => exact .launched answer
  | running process polls =>
    simp only [Job.step, Job.poll]
    split
    · split
      · exact .called
      · exact .waited
    · exact .exited
  | stopping process =>
    simp only [Job.step]
    generalize taken : j.stop process w = r
    cases stops taken with
    | unread => exact .stopped (lost_broken _)
    | called => exact .stopped (lost_ended _ _ _)
  | exited process =>
    simp only [Job.step]
    generalize taken : j.judge process w = r
    cases judges taken with
    | unread => exact .failed (lost_broken _)
    | failed => exact .failed (lost_ended _ _ _)
    | uncollected => exact .failed (lost_broken _)
    | collected said exit found => exact .collected said exit found
  | unmarking process artifacts =>
    simp only [Job.step, Job.unmark]
    cases ran : w.tree.unlinkIfThere j.marker with
    | error fault => exact .kept ran (lost_broken _)
    | ok u => exact .built ran
  | ended result => exact .finished rfl
  | broken cause => exact .finished rfl

def Phase.process? : Phase → Option Process
  | .running process _ | .stopping process | .exited process | .unmarking process _ => some process
  | _ => none

-- Whatever a process of the job puts anywhere is a file below `place`.
def Job.Tidy (j : Job) (compiler : Compiler) (place : FilePath) : Prop :=
  ∀ process, compiler j.command = .started process →
    ∀ item ∈ process.writes ++ process.left, Below place item

def Job.Started (j : Job) (compiler : Compiler) (phase : Phase) : Prop :=
  ∀ process, phase.process? = some process → compiler j.command = .started process

theorem acts_started (started : j.Started compiler phase) (acts : j.Acts compiler phase t next u) :
    j.Started compiler next := by
  have lost : ∀ {next}, j.Lost next → j.Started compiler next := by
    intro next lost process own
    obtain ⟨cause, rfl⟩ | ⟨_, _, _, rfl⟩ := lost <;> cases own
  intro process own
  cases acts with
  | launched answer => cases own; exact answer
  | waited => exact started process own
  | called => exact started process own
  | exited => exact started process own
  | collected => exact started process own
  | finished => exact started process own
  | begun => cases own
  | discarded => cases own
  | housed => cases own
  | cleared => cases own
  | marked => cases own
  | built => cases own
  | cancelled away => exact lost away process own
  | undiscarded _ away => exact lost away process own
  | unhoused _ away => exact lost away process own
  | uncleared _ away => exact lost away process own
  | unmarked _ away => exact lost away process own
  | unlaunched away => exact lost away process own
  | stopped away => exact lost away process own
  | failed away => exact lost away process own
  | kept _ away => exact lost away process own

theorem discard_parts : (∃ fault, (j.discard t).1 = ⟨t, some fault⟩) ∨
    t.isFile j.marker = .ok false ∧ (j.discard t).1 = .start t ∨
    ∃ record, t.isFile j.marker = .ok true ∧ t.readText j.marker = .ok record ∧
      (j.discard t).1 = j.clearStale (Job.staleProfiles record) t := by
  unfold Job.discard
  cases asked : t.isFile j.marker with
  | error fault => exact .inl ⟨fault, rfl⟩
  | ok answer =>
    cases answer with
    | false => exact .inr (.inl ⟨rfl, rfl⟩)
    | true =>
      simp only
      cases recorded : t.readText j.marker with
      | error fault => exact .inl ⟨fault, rfl⟩
      | ok record => exact .inr (.inr ⟨record, trivial, rfl, rfl⟩)

theorem targets_known (profiles : List Profile) :
    ∀ target ∈ j.targets profiles, target.2 ∈ j.libraries :=
  fun _ member => (mem_targets.mp member).2

theorem clearing_outputs (hosts : Hosts t root l) (homed : j.Homed root) (p : Profile) :
    Clearing root l j.abi (j.targets [p]) t (j.clearOutputs t p) := by
  rw [clearOutputs_eq]
  exact clear_clearing hosts homed (targets_known _)

theorem clearing_stale (hosts : Hosts t root l) (homed : j.Homed root) (profiles : List Profile) :
    Clearing root l j.abi (j.targets profiles) t (j.clearStale profiles t) := by
  rw [clearStale_eq]
  exact clear_clearing hosts homed (targets_known _)

-- Apart from what a process puts down, a step changes nothing outside the job's own directory, but for the
-- directories on the way there.
theorem acts_leaves (wellFormed : t.WellFormed) (absolute : root.root ≠ .relative)
    (hosts : Hosts t root l) (homed : j.Homed root) (acts : j.Acts compiler phase t next u) :
    Changes (l ++ [j.abi.text]) (Along t j.home.root j.home.names) t u ∨
      ∃ process, phase.process? = some process ∧ ∃ items,
        (∀ item ∈ items, item ∈ process.writes ++ process.left) ∧ u = t.depositAll items := by
  have discards : ∀ made, Changes (l ++ [j.abi.text]) made t (j.discard t).1.tree := by
    intro made
    rcases discard_parts (j := j) (t := t) with ⟨fault, same⟩ | ⟨_, same⟩ | ⟨record, _, _, same⟩
    · rw [same]
      exact .refl _ _ _
    · rw [same]
      exact .refl _ _ _
    · rw [same]
      exact (clearing_stale hosts homed _).changes made
  have houses : Changes (l ++ [j.abi.text]) (Along t j.home.root j.home.names) t
      (t.ensureDirectory j.home).tree :=
    ensureDirectory_changes wellFormed (homed.home ▸ absolute) _
  have clears : ∀ made, Changes (l ++ [j.abi.text]) made t (j.clearOutputs t j.profile).tree :=
    (clearing_outputs hosts homed j.profile).changes
  have notUp := markerNames_notUp j.abi
  cases acts with
  | discarded => exact .inl (discards _)
  | undiscarded => exact .inl (discards _)
  | housed => exact .inl houses
  | unhoused => exact .inl houses
  | cleared => exact .inl (clears _)
  | uncleared => exact .inl (clears _)
  | marked written =>
    rw [marker_eq homed] at written
    exact .inl (write_changes hosts notUp (markerNames_ne_nil j.abi) (by simp [markerNames]) written)
  | exited => exact .inr ⟨_, rfl, _, fun item member => List.mem_append_left _ member, rfl⟩
  | stopped => exact .inr ⟨_, rfl, _, fun item member => List.mem_append_right _ member, rfl⟩
  | built removed =>
    rw [marker_eq homed] at removed
    exact .inl (unlinkIfThere_changes hosts notUp (markerNames_ne_nil j.abi) (by simp [markerNames]) removed)
  | cancelled => exact .inl (.refl _ _ _)
  | begun => exact .inl (.refl _ _ _)
  | unmarked => exact .inl (.refl _ _ _)
  | unlaunched => exact .inl (.refl _ _ _)
  | launched => exact .inl (.refl _ _ _)
  | waited => exact .inl (.refl _ _ _)
  | called => exact .inl (.refl _ _ _)
  | failed => exact .inl (.refl _ _ _)
  | collected => exact .inl (.refl _ _ _)
  | kept => exact .inl (.refl _ _ _)
  | finished => exact .inl (.refl _ _ _)

theorem acts_changes (wellFormed : t.WellFormed) (absolute : root.root ≠ .relative)
    (hosts : Hosts t root l) (homed : j.Homed root) (tidy : j.Tidy compiler j.home)
    (started : j.Started compiler phase) (acts : j.Acts compiler phase t next u) :
    Changes (l ++ [j.abi.text]) everywhere t u := by
  rcases acts_leaves wellFormed absolute hosts homed acts with changes | ⟨process, own, items, among, rfl⟩
  · exact changes.mono fun _ _ => trivial
  · refine depositAll_changes wellFormed absolute hosts (abi_notUp j.abi) fun item member => ?_
    rw [← homed.home]
    exact tidy process (started process own) item (among item member)

end AbiBuild.Build
