import AbiBuild.Proofs.Files.Frames
import AbiBuild.Proofs.Placement.Placing
import AbiBuild.Proofs.Placement.Checking

namespace AbiBuild.Placement
open FileTree Build

variable {t u : FileTree} {root : FilePath} {l : Location} {names : List String} {paths : List FilePath}
  {p q : Progress} {abi : Abi} {library : String} {libraries : List String} {i : Invocation} {v : Variant}
  {artifacts : List (String × FilePath)} {cause : Failure} {architectures : List Abi} {report : Report}

theorem renew_alters (wellFormed : t.WellFormed) (absolute : root.root ≠ .relative) (hosts : Hosts t root l)
    (plain : ∀ name ∈ names, name ≠ "..") (nonempty : names ≠ []) :
    Alters (l ++ names) (Along t root.root (root.under names).names) t (renew t (root.under names)).tree := by
  obtain ⟨s, cleared, _, _, ⟨fault, failed⟩ | same⟩ := renew_ways hosts plain nonempty
  · rw [failed]
    exact cleared _
  · rw [same]
    have steady := (cleared nowhere).steady wellFormed
    have absolute' : (root.under names).root ≠ .relative := absolute
    have made := newDirectory_changes steady.wellFormed absolute' (l ++ names)
    exact (cleared _).trans (made.mono fun m => steady.along.mp).alters

theorem foldl_within {α : Type} {f : Progress → α → Progress} {list : List α} (wellFormed : p.tree.WellFormed)
    (step : ∀ q : Progress, Steady p.tree q.tree → ∀ a ∈ list, Within paths q.tree (f q a).tree) :
    Within paths p.tree (list.foldl f p).tree := by
  induction list generalizing p with
  | nil => exact .refl _ _
  | cons a rest ih =>
    have first := step p (.refl wellFormed) a (by simp)
    have steady := first.steady wellFormed
    refine first.trans wellFormed (ih steady.wellFormed fun q onward b member => ?_)
    exact step q (steady.trans onward) b (List.mem_cons_of_mem _ member)

theorem LibraryStep.within (step : LibraryStep abi (root.under names) artifacts library p q)
    (hosts : Hosts p.tree root l) (plain : ∀ name ∈ names, name ≠ "..") (nonempty : names ≠ [])
    (named : Plain library) (member : root.under names ∈ paths) : Within paths p.tree q.tree := by
  cases step with
  | stopped _ => exact .refl _ _
  | unread _ _ => exact .refl _ _
  | absent _ _ _ => exact .refl _ _
  | uncopied _ _ _ => exact .refl _ _
  | copied _ _ ran =>
    rw [(add_parts _).1]
    rw [FilePath.child_plain named, FilePath.under_under] at ran
    have plain' := notUp_append plain (@notUp_of_plain [library] (by simpa using named))
    refine .of_hosted hosts plain nonempty member fun k hosts => ?_
    exact copy_alters hosts plain' (by simp) (List.prefix_append names [library]) ran

theorem AbiStep.within (step : AbiStep i libraries root abi p q) (wellFormed : p.tree.WellFormed)
    (absolute : root.root ≠ .relative) (hosts : Hosts p.tree root l)
    (plain : ∀ library ∈ libraries, Plain library) (member : abiDir root i.variant abi ∈ paths) :
    Within paths p.tree q.tree := by
  have notUp : ∀ name ∈ [i.variant.text] ++ [abi.text], name ≠ ".." :=
    notUp_append (@notUp_of_plain [i.variant.text] (by simpa using variant_plain i.variant))
      (abi_notUp abi)
  have dir := abiDir_eq root i.variant abi
  have renewed : Within paths p.tree (renew p.tree (abiDir root i.variant abi)).tree := by
    rw [dir] at member ⊢
    exact .of_hosted hosts notUp (by simp) member fun k hosts =>
      renew_alters wellFormed absolute hosts notUp (by simp)
  cases step with
  | stopped _ => exact .refl _ _
  | obstructed _ _ => exact renewed
  | filled _ _ =>
    have steady := renewed.steady wellFormed
    refine renewed.trans wellFormed
      (foldl_within (p := { p with tree := _ }) steady.wellFormed fun q onward library known => ?_)
    rw [dir] at member ⊢
    exact placeLibrary_step.within (onward.hosts (steady.hosts hosts)) notUp (by simp) (plain library known) member

-- However it ends, placing stays within the directories of its architectures.
theorem place_within (wellFormed : t.WellFormed) (absolute : root.root ≠ .relative) (hosts : Hosts t root l)
    (plain : ∀ library ∈ libraries, Plain library)
    (member : ∀ abi ∈ i.architectures, abiDir root i.variant abi ∈ paths) :
    Within paths t (place t i libraries root).tree := by
  unfold place
  split
  · exact .refl _ _
  · refine foldl_within (p := .start t) wellFormed fun q onward abi known => ?_
    exact placeAbi_step.within onward.wellFormed absolute (onward.hosts hosts) plain (member abi known)

-- A placing that fails after the check of the invocation fails on a file.
def Progress.Sober (p : Progress) : Prop := ∀ cause, p.failure = some cause → ∃ fault, cause = .mishap (.file fault)

theorem fail_sober (fault : FileFault) : (p.fail fault).Sober := by
  intro cause failed
  cases failed
  exact ⟨fault, rfl⟩

theorem LibraryStep.sober {dir : FilePath} (step : LibraryStep abi dir artifacts library p q) (sober : p.Sober) :
    q.Sober := by
  cases step with
  | stopped _ => exact sober
  | unread _ _ => exact fail_sober _
  | absent _ _ _ => exact sober
  | uncopied _ _ _ => exact fail_sober _
  | copied _ _ _ =>
    intro cause failed
    rw [(add_parts _).2] at failed
    exact sober cause failed

theorem AbiStep.sober (step : AbiStep i libraries root abi p q) (sober : p.Sober) : q.Sober := by
  cases step with
  | stopped _ => exact sober
  | obstructed _ _ => exact fail_sober _
  | filled _ _ =>
    exact List.foldlRecOn libraries _ (motive := Progress.Sober) sober
      fun _ before library _ => placeLibrary_step.sober before

theorem place_failure (checked : i.check = .ok ()) (failed : (place t i libraries root).failure = some cause) :
    ∃ fault, cause = .mishap (.file fault) := by
  unfold place at failed
  rw [checked] at failed
  have start : (Progress.start t).Sober := fun cause failed => by cases failed
  exact List.foldlRecOn i.architectures _ (motive := Progress.Sober) start
    (fun _ before abi _ => placeAbi_step.sober before) cause failed

theorem demand_failure (failed : (demand report).1 = .error cause) : cause.stage? = some .placement := by
  unfold demand at failed
  split at failed
  · cases failed
  · rename_i passed
    cases failed
    unfold Failure.ofMissing
    split
    · rename_i none_
      simp only [Report.pairs, List.map_eq_nil_iff, List.append_eq_nil_iff] at none_
      simp [Report.passed, none_.1, none_.2] at passed
    · rfl

theorem require_failure (failed : (require t root (.text v.text) architectures libraries).1 = .error cause) :
    (∃ fault, cause = .mishap (.file fault)) ∨ cause.stage? = some .placement := by
  unfold require at failed
  rw [checkNamed_known (parse_text v)] at failed
  cases asked : check t root v architectures libraries with
  | error fault =>
    rw [asked] at failed
    cases failed
    exact .inl ⟨fault, rfl⟩
  | ok report =>
    rw [asked] at failed
    exact .inr (demand_failure failed)

end AbiBuild.Placement
