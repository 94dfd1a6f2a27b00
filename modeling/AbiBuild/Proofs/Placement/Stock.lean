import AbiBuild.Proofs.Placement.Bounds

namespace AbiBuild.Placement
open AbiBuild.Text FileTree Build

namespace Site

-- Of the files in the architecture's directory, each is a library, where it goes.
def Swept (s : Site) (t : FileTree) (abi : Abi) : Prop :=
  ∀ rest content executable, t.node? (s.place abi ++ rest) = some (.file content executable) →
    ∃ library ∈ s.libraries, rest = [library]

structure Stocked (s : Site) (abis done : List Abi) (p : Progress) : Prop where
  steady : Steady s.compiled p.tree
  files : ∀ m, Fewer m s.compiled p.tree ∨
    ∃ abi ∈ abis, ∃ library ∈ s.libraries, m = s.place abi ++ [library]
  swept : p.failure = none → ∀ abi ∈ done, s.Swept p.tree abi

end Site

variable {s : Site} {t u : FileTree} {root path : FilePath} {l m : Location} {names : List String}
  {p q : Progress} {abi other : Abi} {library : String} {abis done : List Abi} {i : Invocation}
  {artifacts : List (String × FilePath)}

theorem renew_fewer (wellFormed : t.WellFormed) (absolute : root.root ≠ .relative) (hosts : Hosts t root l)
    (plain : ∀ name ∈ names, name ≠ "..") (nonempty : names ≠ []) (m : Location) :
    Fewer m t (renew t (root.under names)).tree := by
  obtain ⟨s, cleared, fewer, _, ⟨fault, failed⟩ | same⟩ := renew_ways hosts plain nonempty
  · rw [failed]
    exact fewer m
  · rw [same]
    have steady := (cleared nowhere).steady wellFormed
    have absolute' : (root.under names).root ≠ .relative := absolute
    have made := newDirectory_changes steady.wellFormed absolute' (m ++ [""])
    refine (fewer m).trans (.elsewhere made fun inside => ?_)
    have longer := inside.length_le
    simp only [List.length_append, List.length_singleton] at longer
    omega

theorem Site.Swept.fewer (swept : s.Swept t abi) (fewer : ∀ m, Fewer m t u) : s.Swept u abi :=
  fun rest content executable there => swept rest content executable (fewer _ content executable there)

theorem Site.Stocked.fail (stocked : s.Stocked abis done p) (fault : FileFault) :
    s.Stocked abis done (p.fail fault) := ⟨stocked.steady, stocked.files, fun fine => by cases fine⟩

theorem Site.Stocked.add (stocked : s.Stocked abis done p) (item : Placed) :
    s.Stocked abis done (p.add item) := by
  obtain ⟨tree, failure⟩ := @add_parts p item
  refine ⟨?_, ?_, fun fine => ?_⟩
  · rw [tree]
    exact stocked.steady
  · rw [tree]
    exact stocked.files
  · rw [tree]
    exact stocked.swept (failure ▸ fine)

theorem renew_steady (valid : s.Valid) (stocked : s.Stocked abis done p) (abi : Abi) :
    Steady s.compiled (renew p.tree (s.jniLibsDir.under (s.names abi))).tree :=
  stocked.steady.trans ((renew_alters stocked.steady.wellFormed valid.absolute (stocked.steady.hosts valid.goal)
    (names_notUp s abi) (by simp [Site.names])).steady stocked.steady.wellFormed)

theorem renew_swept (valid : s.Valid) (steady : Steady s.compiled t)
    (fine : (renew t (s.jniLibsDir.under (s.names abi))).fault = none) :
    s.Swept (renew t (s.jniLibsDir.under (s.names abi))).tree abi := by
  obtain ⟨v, alters, located, absent, after⟩ := renew_parts steady.wellFormed valid.absolute
    (steady.hosts valid.goal) (names_notUp s abi) (by simp [Site.names]) fine
  have place : s.jniLibs ++ s.names abi = s.place abi := rfl
  rw [place] at absent after
  intro rest content executable there
  exfalso
  rw [after, node?_put (place ▸ located.nonempty)] at there
  split at there
  · cases there
  · have some_ : rest ≠ [] := by
      rintro rfl
      rw [List.append_nil, absent] at there
      cases there
    rw [(alters.wellFormed steady.wellFormed).missing (by rw [absent]; simp) some_] at there
    cases there

theorem copy_stocked (valid : s.Valid) (stocked : s.Stocked abis done p) (known : abi ∈ abis)
    (member : library ∈ s.libraries)
    (ran : p.tree.copy path (s.jniLibsDir.under (s.names abi ++ [library])) = .ok u) :
    s.Stocked abis done { p with tree := u } := by
  have plain : ∀ name ∈ s.names abi ++ [library], name ≠ ".." :=
    notUp_append (names_notUp s abi) (by simpa using (valid.plain library member).2.2.1)
  obtain ⟨_, content, executable, _, _, located, free, rfl⟩ :=
    copy_puts (stocked.steady.hosts valid.goal) plain (by simp) ran
  have changes : Changes [] nowhere p.tree (p.tree.put _ (.file content executable)) :=
    changes_put List.nil_prefix located.nonempty located.parent free (located.noLink (by simp)) (by simp)
  have whole : s.jniLibs ++ (s.names abi ++ [library]) = s.place abi ++ [library] :=
    (List.append_assoc _ _ _).symm
  have nonempty : s.place abi ++ [library] ≠ [] := by simp
  rw [whole] at changes ⊢
  refine ⟨stocked.steady.changes changes, fun m => ?_, fun fine other inDone rest old oldExecutable there => ?_⟩
  · by_cases own : m = s.place abi ++ [library]
    · exact .inr ⟨abi, known, library, member, own⟩
    · refine (stocked.files m).imp_left fun fewer => fewer.trans fun old oldExecutable there => ?_
      rwa [node?_put_of_ne _ own] at there
  · simp only [node?_put nonempty] at there
    split at there
    · rename_i here
      have same : abi = other := place_inside (m := rest) (by rw [here]; exact List.prefix_append _ _)
      subst same
      exact ⟨library, member, List.append_cancel_left here⟩
    · exact stocked.swept fine other inDone rest old oldExecutable there

theorem LibraryStep.stocked (step : LibraryStep abi (abiDir s.jniLibsDir s.variant abi) artifacts library p q)
    (valid : s.Valid) (known : abi ∈ abis) (member : library ∈ s.libraries) (stocked : s.Stocked abis done p) :
    s.Stocked abis done q := by
  cases step with
  | stopped _ => exact stocked
  | unread _ _ => exact stocked.fail _
  | absent _ _ _ => exact ⟨stocked.steady, stocked.files, stocked.swept⟩
  | uncopied _ _ _ => exact stocked.fail _
  | copied _ _ ran =>
    rw [abiDir_child (valid.plain library member)] at ran
    exact (copy_stocked valid stocked known member ran).add _

theorem AbiStep.stocked (step : AbiStep i s.libraries s.jniLibsDir abi p q) (valid : s.Valid)
    (variant : i.variant = s.variant) (known : abi ∈ abis) (stocked : s.Stocked abis done p) :
    s.Stocked abis (done ++ [abi]) q := by
  have fewer := renew_fewer stocked.steady.wellFormed valid.absolute (stocked.steady.hosts valid.goal)
    (names_notUp s abi) (by simp [Site.names])
  have steady := renew_steady valid stocked abi
  have files : ∀ m, Fewer m s.compiled (renew p.tree (s.jniLibsDir.under (s.names abi))).tree ∨
      ∃ abi ∈ abis, ∃ library ∈ s.libraries, m = s.place abi ++ [library] := fun m =>
    (stocked.files m).imp_left fun before => before.trans (fewer m)
  have dir : abiDir s.jniLibsDir s.variant abi = s.jniLibsDir.under (s.names abi) := abiDir_eq _ _ _
  cases step with
  | stopped failed => exact ⟨stocked.steady, stocked.files, fun fine => absurd fine failed⟩
  | obstructed _ _ =>
    rw [variant, dir]
    exact ⟨steady, files, fun fine => by cases fine⟩
  | filled fine renewed =>
    rw [variant] at renewed ⊢
    have swept : s.Stocked abis (done ++ [abi])
        { p with tree := (renew p.tree (s.jniLibsDir.under (s.names abi))).tree } := by
      refine ⟨steady, files, fun _ other member => ?_⟩
      rcases List.mem_append.mp member with old | new
      · exact (stocked.swept fine other old).fewer fewer
      · rw [List.mem_singleton.mp new]
        exact renew_swept valid stocked.steady (dir ▸ renewed)
    refine List.foldlRecOn s.libraries _ (motive := s.Stocked abis (done ++ [abi])) (dir ▸ swept)
      fun _ before _ member => ?_
    exact placeLibrary_step.stocked valid known member before

theorem place_stocked (valid : s.Valid) (variant : i.variant = s.variant) (checked : i.check = .ok ()) :
    s.Stocked i.architectures i.architectures (place s.compiled i s.libraries s.jniLibsDir) := by
  have start : s.Stocked i.architectures [] (.start s.compiled) :=
    ⟨.refl valid.wellFormed, fun _ => .inl fun _ _ there => there, fun _ _ member => by cases member⟩
  unfold place
  rw [checked]
  refine foldl_done (motive := s.Stocked i.architectures) start fun done abi rest p split_ before => ?_
  exact placeAbi_step.stocked valid variant (by simp [← split_]) before

end AbiBuild.Placement
