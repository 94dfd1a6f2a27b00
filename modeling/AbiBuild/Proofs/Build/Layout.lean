import AbiBuild.Proofs.Files.Deposits
import AbiBuild.Build.Job

namespace AbiBuild.Build
open AbiBuild.Text FileTree

-- The job's directory lies right below `root`, and its libraries have plain names.
structure Job.Homed (j : Job) (root : FilePath) : Prop where
  home : j.home = root.under [j.abi.text]
  libraries : ∀ library ∈ j.libraries, Plain library

def markerNames (abi : Abi) : List String := [abi.text, Config.markerName]

def outputNames (abi : Abi) (p : Profile) : List String := [abi.text, abi.triple, p.outputDir]

def libraryNames (abi : Abi) (p : Profile) (library : String) : List String :=
  [abi.text, abi.triple, p.outputDir, library]

variable {j : Job} {root : FilePath} {t u : FileTree} {l m : Location} {abi other : Abi}
  {p q : Profile} {library : String} {libraries : List String} {profiles : List Profile}
  {made : Location → Prop} {r : Trail}

theorem abi_plain (abi : Abi) : Plain abi.text := by
  cases abi <;> decide

theorem triple_plain (abi : Abi) : Plain abi.triple := by
  cases abi <;> decide

theorem outputDir_plain (p : Profile) : Plain p.outputDir := by
  cases p <;> decide

theorem markerName_plain : Plain Config.markerName := by
  decide

theorem text_injective (same : abi.text = other.text) : abi = other := by
  have named := congrArg Abi.named? same
  rw [Abi.named?_text, Abi.named?_text] at named
  exact Option.some.inj named

theorem outputDir_injective (same : p.outputDir = q.outputDir) : p = q := by
  revert same
  cases p <;> cases q <;> decide

theorem marker_eq (homed : j.Homed root) : j.marker = root.under (markerNames j.abi) := by
  unfold Job.marker
  rw [homed.home, FilePath.child_plain markerName_plain, FilePath.under_under]
  rfl

theorem outputDir_eq (homed : j.Homed root) (p : Profile) :
    j.outputDir p = root.under (outputNames j.abi p) := by
  unfold Job.outputDir
  rw [homed.home, FilePath.child_plain (triple_plain _), FilePath.child_plain (outputDir_plain _),
    FilePath.under_under, FilePath.under_under]
  rfl

theorem libraryPath_eq (homed : j.Homed root) (p : Profile) (member : library ∈ j.libraries) :
    j.libraryPath p library = root.under (libraryNames j.abi p library) := by
  unfold Job.libraryPath
  rw [outputDir_eq homed, FilePath.child_plain (homed.libraries library member), FilePath.under_under]
  rfl

theorem markerNames_ne_nil (abi : Abi) : markerNames abi ≠ [] := by
  simp [markerNames]

theorem markerNames_notUp (abi : Abi) : ∀ name ∈ markerNames abi, name ≠ ".." := by
  have plain : ∀ name ∈ markerNames abi, Plain name := by
    simp [markerNames, abi_plain, markerName_plain]
  exact notUp_of_plain plain

theorem abi_nameable (abi : Abi) : Nameable [abi.text] := by
  refine ⟨?_, ?_⟩
  · cases abi <;> decide
  · cases abi <;> decide

theorem markerNames_nameable (abi : Abi) : Nameable (markerNames abi) := by
  refine ⟨?_, ?_⟩
  · cases abi <;> decide
  · cases abi <;> decide

theorem outputNames_nameable (abi : Abi) (p : Profile) : Nameable (outputNames abi p) := by
  refine ⟨?_, ?_⟩
  · cases abi <;> cases p <;> decide
  · cases abi <;> cases p <;> decide

theorem libraryNames_nameable (abi : Abi) (p : Profile) (fits : Nameable [library]) :
    Nameable (libraryNames abi p library) :=
  nameable_append (outputNames_nameable abi p) fits

theorem libraryNames_plain (abi : Abi) (p : Profile) (plain : Plain library) :
    ∀ name ∈ libraryNames abi p library, Plain name := by
  simp [libraryNames, abi_plain, triple_plain, outputDir_plain, plain]

theorem outputNames_plain (abi : Abi) (p : Profile) : ∀ name ∈ outputNames abi p, Plain name := by
  simp [outputNames, abi_plain, triple_plain, outputDir_plain]

theorem outputNames_notUp (abi : Abi) (p : Profile) : ∀ name ∈ outputNames abi p, name ≠ ".." :=
  notUp_of_plain (outputNames_plain abi p)

theorem abi_notUp (abi : Abi) : ∀ name ∈ [abi.text], name ≠ ".." := by
  have plain : ∀ name ∈ [abi.text], Plain name := by simp [abi_plain]
  exact notUp_of_plain plain

theorem prefix_inside {names : List String} {name : String} (rest : l ++ [abi.text] <+: l ++ name :: names) :
    abi.text = name := by
  have inner := (List.prefix_append_right_inj l).mp rest
  exact (List.cons_prefix_cons.mp inner).1

theorem outside_abi (apart : other ≠ abi) (names : List String) :
    ¬ l ++ [other.text] <+: l ++ abi.text :: names :=
  fun rest => apart (text_injective (prefix_inside rest))

theorem marker_outside_outputs (abi : Abi) (p : Profile) :
    ¬ l ++ outputNames abi p <+: l ++ markerNames abi := by
  intro rest
  have inner := ((List.prefix_append_right_inj l).mp rest).length_le
  simp [outputNames, markerNames] at inner

theorem library_outside_marker : ¬ l ++ markerNames other <+: l ++ libraryNames abi p library := by
  intro rest
  have inner := (List.prefix_append_right_inj l).mp rest
  simp only [markerNames, libraryNames, List.cons_prefix_cons] at inner
  have apart : Config.markerName ≠ abi.triple := by cases abi <;> decide
  exact apart inner.2.1

theorem library_outside_outputs (apart : q ≠ p) :
    ¬ l ++ outputNames abi p <+: l ++ libraryNames abi q library := by
  intro rest
  have inner := (List.prefix_append_right_inj l).mp rest
  simp only [outputNames, libraryNames, List.cons_prefix_cons, true_and] at inner
  exact apart (outputDir_injective inner.1.symm)

theorem libraryNames_ne_marker : libraryNames abi p library ≠ markerNames other := by
  simp [libraryNames, markerNames]

-- Libraries with their profiles, taken away one after the other.
def Job.clear (j : Job) (targets : List (Profile × String)) (t : FileTree) : Trail :=
  t.series (targets.map fun target t => t.unlinkIfThere (j.libraryPath target.1 target.2))

def Job.targets (j : Job) (profiles : List Profile) : List (Profile × String) :=
  profiles.flatMap fun p => j.libraries.map fun library => (p, library)

theorem mem_targets : (p, library) ∈ j.targets profiles ↔ p ∈ profiles ∧ library ∈ j.libraries := by
  simp only [Job.targets, List.mem_flatMap, List.mem_map, Prod.mk.injEq]
  constructor
  · rintro ⟨q, member, name, inside, rfl, rfl⟩
    exact ⟨member, inside⟩
  · rintro ⟨member, inside⟩
    exact ⟨p, member, library, inside, rfl, rfl⟩

theorem Trail.foldl_fault {operations : List (FileTree → Except FileFault FileTree)}
    {fault : FileFault} (failed : r.fault = some fault) : operations.foldl Trail.next r = r := by
  induction operations with
  | nil => rfl
  | cons first rest ih =>
    rw [List.foldl_cons, Trail.next_fault failed]
    exact ih

theorem clearOutputs_eq : j.clearOutputs t p = j.clear (j.targets [p]) t := by
  unfold Job.clearOutputs Job.clear Job.targets
  simp only [List.flatMap_cons, List.flatMap_nil, List.append_nil, List.map_map]
  rfl

theorem clearStale_eq : j.clearStale profiles t = j.clear (j.targets profiles) t := by
  unfold Job.clearStale Job.clear series
  generalize Trail.start t = r
  induction profiles generalizing r with
  | nil => rfl
  | cons p rest ih =>
    have split : j.targets (p :: rest) = j.targets [p] ++ j.targets rest := by
      simp [Job.targets]
    rw [List.foldl_cons, split, List.map_append, List.foldl_append, ih]
    congr 1
    cases failed : r.fault with
    | some fault => exact (Trail.foldl_fault failed).symm
    | none =>
      have same : r = .start r.tree := by
        cases r
        cases failed
        rfl
      rw [clearOutputs_eq]
      conv_rhs => rw [same]
      rfl

-- Clearing takes libraries away and does nothing else; what is not refused is done.
structure Clearing (root : FilePath) (l : Location) (abi : Abi) (targets : List (Profile × String))
    (t : FileTree) (r : Trail) : Prop where
  changes : ∀ made, Changes (l ++ [abi.text]) made t r.tree
  only : ∀ m, r.tree.node? m = t.node? m ∨ r.tree.node? m = none ∧
    ∃ target ∈ targets, m = l ++ libraryNames abi target.1 target.2
  done : r.fault = none → Stands t root l → t.WellFormed → ∀ target ∈ targets,
    r.tree.node? (l ++ libraryNames abi target.1 target.2) = none

theorem clear_clearing (hosts : Hosts t root l) (homed : j.Homed root)
    {targets : List (Profile × String)} (known : ∀ target ∈ targets, target.2 ∈ j.libraries) :
    Clearing root l j.abi targets t (j.clear targets t) := by
  unfold Job.clear series Trail.start
  -- Induction on the targets. A later removal never brings an earlier one back.
  induction targets generalizing t with
  | nil => exact ⟨fun _ => .refl _ _ _, fun _ => .inl rfl, by simp⟩
  | cons target rest ih =>
    have member := known target (by simp)
    have notUp := notUp_of_plain (libraryNames_plain j.abi target.1 (homed.libraries _ member))
    rw [List.map_cons, List.foldl_cons, libraryPath_eq homed target.1 member]
    cases ran : t.unlinkIfThere (root.under (libraryNames j.abi target.1 target.2)) with
    | error fault =>
      rw [Trail.next_error rfl ran, Trail.foldl_fault rfl]
      exact ⟨fun _ => .refl _ _ _, fun _ => .inl rfl, by simp⟩
    | ok u =>
      have first : ∀ made, Changes (l ++ [j.abi.text]) made t u := fun made =>
        unlinkIfThere_changes hosts notUp (by simp [libraryNames]) (by simp [libraryNames]) ran
      have later := ih ((first nowhere).hosts hosts)
        fun other inRest => known other (List.mem_cons_of_mem _ inRest)
      rw [Trail.next_ok rfl ran]
      refine ⟨fun made => (first made).trans (later.changes made), fun m => ?_, ?_⟩
      · rcases later.only m with same | ⟨gone, other, inRest, place⟩
        · rw [same]
          rcases unlinkIfThere_only hosts notUp (by simp [libraryNames]) ran m with kept | ⟨gone, here⟩
          · exact .inl kept
          · exact .inr ⟨gone, target, by simp, here⟩
        · exact .inr ⟨gone, other, List.mem_cons_of_mem _ inRest, place⟩
      · intro fine stands wellFormed other inTargets
        have stands' := (first nowhere).stands stands
        have clear := (hosts.stands stands).2
        rcases List.mem_cons.mp inTargets with rfl | inRest
        · have absent := unlinkIfThere_absent stands clear wellFormed notUp (by simp [libraryNames]) ran
          rcases later.only (l ++ libraryNames j.abi other.1 other.2) with same | ⟨gone, _⟩
          · rw [same]
            exact absent
          · exact gone
        · exact later.done fine stands' ((first nowhere).wellFormed wellFormed) other inRest

end AbiBuild.Build
