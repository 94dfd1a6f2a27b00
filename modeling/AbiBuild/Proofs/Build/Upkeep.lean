import AbiBuild.Proofs.Build.Footprint
import AbiBuild.Proofs.Files.Touching

namespace AbiBuild.Build
open AbiBuild.Text FileTree Placement

-- A compiler that puts nothing but files, under plain names, into the job's output directories.
def Job.Outputs (j : Job) (compiler : Compiler) : Prop :=
  ∀ process, compiler j.command = .started process → ∀ item ∈ process.writes ++ process.left,
    ∃ p name content executable, Plain name ∧ item = ((j.outputDir p).child name, .file content executable)

def Scratch (l m : Location) : Prop :=
  ∃ abi, m = l ++ markerNames abi ∨ ∃ p name, m = l ++ libraryNames abi p name

def Rack (k : Location) (v : Variant) (m : Location) : Prop := ∃ abi : Abi, k ++ [v.text, abi.text] <+: m

variable {b : Builder} {compiler : Compiler} {variant : Value} {t u : FileTree} {root : FilePath} {l k m : Location}
  {j : Job} {jobs : List Job} {phase next : Phase} {w w' : Workshop} {i : Invocation} {v : Variant}
  {outcome : Except Failure Invocation} {ended : List (Job × Phase)} {others : Location → Prop}
  {abi : Abi} {library : String} {libraries : List String}

theorem clearing_touch {targets : List (Profile × String)} {r : Trail}
    (clearing : Clearing root l abi targets t r) : Touches (Scratch l) others t r.tree := by
  refine (clearing.changes nowhere).touches fun m => (clearing.only m).imp_right ?_
  rintro ⟨-, target, -, rfl⟩
  exact ⟨abi, .inr ⟨_, _, rfl⟩⟩

theorem discard_touch (hosts : Hosts t root l) (homed : j.Homed root) :
    Touches (Scratch l) others t (j.discard t).1.tree := by
  rcases discard_parts (j := j) (t := t) with ⟨fault, same⟩ | ⟨_, same⟩ | ⟨record, _, _, same⟩
  · rw [same]
    exact .refl _ _ _
  · rw [same]
    exact .refl _ _ _
  · rw [same]
    exact clearing_touch (clearing_stale hosts homed _)

theorem deposits_touch (wellFormed : t.WellFormed) (absolute : root.root ≠ .relative) (hosts : Hosts t root l)
    (homed : j.Homed root) {items : List (FilePath × Node)}
    (put : ∀ item ∈ items, ∃ p name content executable, Plain name ∧
      item = ((j.outputDir p).child name, .file content executable)) :
    Touches (Scratch l) others t (t.depositAll items) := by
  have place : ∀ p {name}, Plain name → (j.outputDir p).child name = root.under (libraryNames j.abi p name) := by
    intro p name plain
    rw [outputDir_eq homed, FilePath.child_plain plain, FilePath.under_under]
    rfl
  refine (depositAll_strews wellFormed fun item member => ?_).touches fun item member m leads => ?_
  · obtain ⟨p, name, content, executable, plain, rfl⟩ := put item member
    exact ⟨by rw [place p plain]; exact absolute, nofun⟩
  · obtain ⟨p, name, content, executable, plain, rfl⟩ := put item member
    simp only at leads
    rw [place p plain] at leads
    have at_ := leadsTo_under hosts (notUp_of_plain (libraryNames_plain j.abi p plain)) leads
    exact ⟨j.abi, .inr ⟨p, name, at_⟩⟩

theorem acts_touch (wellFormed : t.WellFormed) (absolute : root.root ≠ .relative) (hosts : Hosts t root l)
    (homed : j.Homed root) (outputs : j.Outputs compiler) (started : j.Started compiler phase)
    (acts : j.Acts compiler phase t next u) : Touches (Scratch l) others t u := by
  have houses : Touches (Scratch l) others t (t.ensureDirectory j.home).tree :=
    ensureDirectory_touch wellFormed (homed.home ▸ absolute)
  have discards : Touches (Scratch l) others t (j.discard t).1.tree := discard_touch hosts homed
  have clears : Touches (Scratch l) others t (j.clearOutputs t j.profile).tree :=
    clearing_touch (clearing_outputs hosts homed _)
  have marker : Scratch l (l ++ markerNames j.abi) := ⟨j.abi, .inl rfl⟩
  have notUp := markerNames_notUp j.abi
  cases acts with
  | discarded => exact discards
  | undiscarded => exact discards
  | housed => exact houses
  | unhoused => exact houses
  | cleared => exact clears
  | uncleared => exact clears
  | marked written =>
    rw [marker_eq homed] at written
    exact write_touch hosts notUp (markerNames_ne_nil _) marker written
  | built removed =>
    rw [marker_eq homed] at removed
    exact unlinkIfThere_touch hosts notUp (markerNames_ne_nil _) marker removed
  | exited =>
    exact deposits_touch wellFormed absolute hosts homed fun item member =>
      outputs _ (started _ rfl) item (List.mem_append_left _ member)
  | stopped =>
    exact deposits_touch wellFormed absolute hosts homed fun item member =>
      outputs _ (started _ rfl) item (List.mem_append_right _ member)
  | _ => exact .refl _ _ _

theorem spares_compatible (wellFormed : t.WellFormed) (absolute : root.root ≠ .relative) (hosts : Hosts t root l)
    (homed : ∀ j ∈ jobs, j.Homed root) (outputs : ∀ j ∈ jobs, j.Outputs compiler) :
    Compatible compiler jobs (fun w => Touches (Scratch l) others t w.tree)
      (fun j phase _ => j.Started compiler phase) where
  common j member phase w touches started := by
    have steady := touches.steady wellFormed
    exact touches.trans (acts_touch steady.wellFormed absolute (steady.hosts hosts) (homed j member) (outputs j member)
      started (step_acts j compiler phase w))
  own j _ phase w _ started := acts_started started (step_acts j compiler phase w)
  others _ _ _ _ _ _ _ _ _ _ theirs := theirs
  cancel _ common := common
  ownCancel _ _ _ _ _ own := own

theorem invokes_touch (accepted : Accepted b.config) (wellFormed : w.tree.WellFormed)
    (hosts : Hosts w.tree b.config.targetDir l) (outputs : ∀ j ∈ b.planned w.tree variant, j.Outputs compiler)
    (ran : b.Invokes compiler variant w outcome w' ended) : Touches (Scratch l) others w.tree w'.tree := by
  cases ran with
  | unplanned => exact .refl _ _ _
  | unworkable => exact .refl _ _ _
  | @ran plan moves last planned workable reached finished =>
    rw [planned_jobs planned] at outputs
    have compatible : Compatible compiler plan.jobs (fun v => Touches (Scratch l) others w.tree v.tree)
        (fun j phase _ => j.Started compiler phase) := spares_compatible wellFormed accepted.target hosts
      (fun j member => (plan_homed accepted planned j member).1) outputs
    have started : Sound plan.jobs (fun v => Touches (Scratch l) others w.tree v.tree)
        (fun j phase _ => j.Started compiler phase) (Pool.start plan.jobs (w.noting plan.notices)) :=
      start_sound (.refl _ _ _) fun _ _ process own => by cases own
    exact (reaches_sound compatible (plan_distinct planned) started reached).common

theorem place_touch (wellFormed : t.WellFormed) (absolute : root.root ≠ .relative) (hosts : Hosts t root k)
    (plain : ∀ library ∈ libraries, Plain library) {files : Location → Prop} :
    Touches files (Rack k i.variant) t (place t i libraries root).tree := by
  have within : Within (i.architectures.map (abiDir root i.variant)) t (place t i libraries root).tree :=
    place_within wellFormed absolute hosts plain fun abi member => List.mem_map_of_mem member
  refine within.touches fun p member l leads m below => ?_
  obtain ⟨abi, _, rfl⟩ := List.mem_map.mp member
  rw [abiDir_eq] at leads
  have notUp : ∀ name ∈ [i.variant.text] ++ [abi.text], name ≠ ".." :=
    notUp_of_plain (abiDir_names_plain i.variant abi)
  exact ⟨abi, leadsTo_under hosts notUp leads ▸ below⟩

-- A placed library lies in none of the places where compiling changes files, wherever the one directory lies to
-- the other: what is compiled lies in a directory with another name, and no library is named as a marker is.
theorem placed_not_scratch (other : library ≠ Config.markerName) : ¬ Scratch l (k ++ [v.text, abi.text, library]) := by
  rintro ⟨abi', marker | ⟨p, name, output⟩⟩
  · have last := congrArg List.getLast? marker
    simp [markerNames] at last
    exact other last
  · have above := congrArg (fun m => (m.dropLast).getLast?) output
    simp [libraryNames] at above
    revert above
    cases abi <;> cases p <;> decide

theorem placed_beside {other : Variant} (differ : other ≠ v) : ¬ Rack k other (k ++ [v.text, abi.text, library]) := by
  rintro ⟨abi', inside⟩
  have inner := (List.prefix_append_right_inj k).mp inside
  have same := (List.cons_prefix_cons.mp inner).1
  revert same
  revert differ
  cases v <;> cases other <;> decide

end AbiBuild.Build
