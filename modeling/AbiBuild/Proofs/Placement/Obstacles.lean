import AbiBuild.Proofs.Files.Passage
import AbiBuild.Proofs.Placement.Findings

namespace AbiBuild.Placement
open AbiBuild.Text FileTree Build

-- A directory that a path leads to, in which there is room for the architectures' directories: nothing else is
-- in their places, and the path itself does not go through them.
structure Roomy (t : FileTree) (shelf : FilePath) (k : Location) (abis : List Abi) : Prop where
  wellFormed : t.WellFormed
  linked : LinksFit t
  stands : Stands t shelf k
  free : ∀ abi ∈ abis, t.node? (k ++ [abi.text]) = none ∨ t.node? (k ++ [abi.text]) = some .directory
  apart : ∀ m, GoesOver t shelf m → ∀ abi ∈ abis, ¬ k ++ [abi.text] <+: m

-- The directory is there with room in it, or it can be made.
inductive Unobstructed (t : FileTree) (shelf : FilePath) (abis : List Abi) : Prop
  | there {k : Location} (roomy : Roomy t shelf k abis) : Unobstructed t shelf abis
  | missing {front rest : List String} {first : String} {l : Location} (wellFormed : t.WellFormed)
      (linked : LinksFit t) (fresh : Fresh t shelf front first rest l) : Unobstructed t shelf abis

-- An architecture's directory with nothing but files in it.
structure Tended (t : FileTree) (k : Location) (abi : Abi) : Prop where
  directory : t.node? (k ++ [abi.text]) = some .directory
  files : ∀ name node, t.node? (k ++ [abi.text] ++ [name]) = some node → node.isFile = true

-- What is said to have been produced is found by names that fit, the library's own among them.
def Handy (libraries : List String) (artifacts : List (String × FilePath)) : Prop :=
  ∀ library ∈ libraries, ∀ path, (library, path) ∈ artifacts →
    Fits path.names ∧ (path.hasNul = false → FilePath.anyNul [library] = false)

variable {t u : FileTree} {shelf : FilePath} {k m : Location} {abis : List Abi} {abi other : Abi} {name library : String}
  {p q : Progress} {artifacts : List (String × FilePath)} {libraries : List String} {i : Invocation} {v : Variant}
  {root path : FilePath} {front rest : List String} {first : String} {l : Location} {content : Bytes} {executable : Bool}
  {cause : Failure} {architectures : List Abi}

theorem abi_beside (inside : k ++ [abi.text] <+: k ++ [other.text]) : other = abi := by
  by_contra apart
  exact outside_abi (fun same => apart same.symm) [] inside

theorem Roomy.kept (roomy : Roomy t shelf k abis) (member : abi ∈ abis) (wellFormed : u.WellFormed)
    (here : u.here = t.here) (same : ∀ m, ¬ k ++ [abi.text] <+: m → u.node? m = t.node? m)
    (linked : ∀ m target, u.node? m = some (.link target) → t.node? m = some (.link target))
    (free : u.node? (k ++ [abi.text]) = none ∨ u.node? (k ++ [abi.text]) = some .directory) :
    Roomy u shelf k abis := by
  obtain ⟨stands, back⟩ := roomy.stands.stays here
    (fun m passes => (same m (roomy.apart m passes abi member)).trans (roomy.stands.passes passes))
    (fun m name target passes there => by
      rw [same, there]
      intro inside
      -- A link in a place that the path goes over is neither such a directory nor in one.
      rcases List.prefix_concat_iff.mp inside with at_ | below
      · rcases roomy.free abi member with absent | directory
        · rw [at_, there] at absent
          cases absent
        · rw [at_, there] at directory
          cases directory
      · exact roomy.apart m passes abi member below)
  refine ⟨wellFormed, roomy.linked.fewer linked, stands, fun other among => ?_, fun m passes => roomy.apart m (back m passes)⟩
  by_cases is : other = abi
  · rw [is]
    exact free
  · rw [same _ fun inside => is (abi_beside inside)]
    exact roomy.free other among

theorem removeDirectory_in (stands : Stands t shelf k) (notUp : name ≠ "..") (nameable : Nameable [name])
    (there : t.node? (k ++ [name]) = some .directory) (apart : ∀ m, GoesOver t shelf m → ¬ k ++ [name] <+: m) :
    t.removeDirectory (shelf.under [name]) = ⟨t.eraseAll (k ++ [name]), none⟩ := by
  have outside : ∀ m, ¬ k ++ [name] <+: m → (t.eraseBelow (k ++ [name])).node? m = t.node? m := fun m out => by
    rw [node?_eraseBelow, if_neg fun inside => out inside.1]
  have emptied := stands.stays (u := t.eraseBelow (k ++ [name])) rfl
    (fun m passes => (outside m (apart m passes)).trans (stands.passes passes))
    (fun m other target passes linked => by
      rw [outside, linked]
      intro inside
      rcases List.prefix_concat_iff.mp inside with at_ | below
      · rw [at_, linked] at there
        cases there
      · exact apart m passes below)
  have never (t : FileTree) : false = true → ∀ target, t.node? (k ++ [name]) ≠ some (.link target) :=
    fun absurd => by cases absurd
  have found := locate_in stands notUp nameable (never t)
  have again := locate_in emptied.1 notUp nameable (never _)
  unfold removeDirectory
  rw [found]
  simp only [there]
  refine Trail.next_ok rfl ?_
  rw [show (Trail.start (t.eraseBelow (k ++ [name]))).tree = t.eraseBelow (k ++ [name]) from rfl, again]
  rfl

theorem newDirectory_in (stands : Stands t shelf k) (notUp : name ≠ "..") (nameable : Nameable [name])
    (absent : t.node? (k ++ [name]) = none) :
    t.newDirectory (shelf.under [name]) = ⟨t.put (k ++ [name]) .directory, none⟩ := by
  have made : t.makeDirectory (shelf.under [name]) = .ok (t.put (k ++ [name]) .directory) := by
    unfold makeDirectory
    rw [locate_in stands notUp nameable (by simp)]
    simp only [bind, Except.bind, absent]
  refine makeDirectories_made ?_
  rw [List.take_length]
  unfold makeDirectoryOr
  rw [show (⟨(shelf.under [name]).root, (shelf.under [name]).names⟩ : FilePath) = shelf.under [name] from rfl, made]

theorem exists_in (stands : Stands t shelf k) (notUp : name ≠ "..") (nameable : Nameable [name])
    (noLink : ∀ target, t.node? (k ++ [name]) ≠ some (.link target)) :
    t.exists? (shelf.under [name]) = .ok (t.node? (k ++ [name])).isSome := by
  unfold exists? probe
  rw [locate_in stands notUp nameable fun _ => noLink]
  rfl

theorem Roomy.noLink (roomy : Roomy t shelf k abis) (member : abi ∈ abis) (target : String) :
    t.node? (k ++ [abi.text]) ≠ some (.link target) := by
  intro there
  rcases roomy.free abi member with absent | directory
  · rw [absent] at there
    cases there
  · rw [directory] at there
    cases there

theorem Roomy.removed (roomy : Roomy t shelf k abis) (member : abi ∈ abis) :
    Roomy (t.eraseAll (k ++ [abi.text])) shelf k abis := by
  have at_ := node?_eraseAll (t := t) (l := k ++ [abi.text]) (by simp)
  refine roomy.kept member (eraseAll_wellFormed (by simp) roomy.wellFormed) rfl (fun m out => ?_)
    (fun m target there => ?_) (.inl ?_)
  · rw [at_, if_neg out]
  · rw [at_] at there
    split at there
    · cases there
    · exact there
  · rw [at_, if_pos (List.prefix_refl _)]

theorem Roomy.made (roomy : Roomy t shelf k abis) (member : abi ∈ abis)
    (empty : ∀ m, k ++ [abi.text] <+: m → t.node? m = none) :
    Roomy (t.put (k ++ [abi.text]) .directory) shelf k abis ∧ Tended (t.put (k ++ [abi.text]) .directory) k abi := by
  have at_ := node?_put (t := t) (m := k ++ [abi.text]) (by simp) .directory
  have changes : Changes k everywhere t (t.put (k ++ [abi.text]) .directory) :=
    changes_made (empty _ (List.prefix_refl _)) (by rw [List.dropLast_concat]; exact roomy.stands.directory) trivial
  refine ⟨roomy.kept member (changes.wellFormed roomy.wellFormed) rfl (fun m out => ?_)
    (fun m target there => (changes.links m target).mpr there) (.inr ?_), ?_, fun name node there => ?_⟩
  · refine (at_ m).trans (if_neg ?_)
    rintro rfl
    exact out (List.prefix_refl _)
  · rw [at_, if_pos rfl]
  · rw [at_, if_pos rfl]
  · rw [at_, if_neg (by simp), empty _ (List.prefix_append _ _)] at there
    cases there

-- What comes of an architecture's directory that is made anew, all in all.
theorem renew_roomy (roomy : Roomy t shelf k abis) (member : abi ∈ abis) :
    ∃ u, renew t (shelf.under [abi.text]) = ⟨u, none⟩ ∧ Roomy u shelf k abis ∧ Tended u k abi := by
  unfold renew
  rw [exists_in roomy.stands (abi_plain abi).2.2.1 (abi_nameable abi) (roomy.noLink member)]
  rcases roomy.free abi member with absent | directory
  · have empty : ∀ m, k ++ [abi.text] <+: m → t.node? m = none := by
      rintro m ⟨names, rfl⟩
      by_cases nonempty : names = []
      · rw [nonempty, List.append_nil]
        exact absent
      · exact roomy.wellFormed.missing (by rw [absent]; nofun) nonempty
    rw [absent]
    exact ⟨_, newDirectory_in roomy.stands (abi_plain abi).2.2.1 (abi_nameable abi) absent, roomy.made member empty⟩
  · have gone : Roomy (t.eraseAll (k ++ [abi.text])) shelf k abis := roomy.removed member
    have empty : ∀ m, k ++ [abi.text] <+: m → (t.eraseAll (k ++ [abi.text])).node? m = none := fun m inside => by
      rw [node?_eraseAll (by simp), if_pos inside]
    rw [directory]
    simp only [Option.isSome_some, if_true, removeDirectory_in roomy.stands (abi_plain abi).2.2.1 (abi_nameable abi) directory
      fun m passes => roomy.apart m passes abi member]
    exact ⟨_, newDirectory_in gone.stands (abi_plain abi).2.2.1 (abi_nameable abi) (empty _ (List.prefix_refl _)),
      gone.made member empty⟩

theorem roomy_laid (fresh : Fresh t shelf front first rest l) (wellFormed : t.WellFormed) (linked : LinksFit t) :
    Roomy (t.layDown l (first :: rest)) shelf (l ++ first :: rest) abis := by
  obtain ⟨changes, -, empty⟩ := fresh.laid wellFormed
  have stands := fresh.stands wellFormed
  refine ⟨(changes []).wellFormed wellFormed, linked.fewer fun m target there => ((changes []).links m target).mpr there,
    stands, fun abi _ => .inl (empty [abi.text] (by simp)), ?_⟩
  rintro m passes abi - ⟨more, rfl⟩
  have there := stands.passes passes
  rw [List.append_assoc, empty _ (by simp)] at there
  cases there

theorem renew_fresh (fresh : Fresh t shelf front first rest l) (wellFormed : t.WellFormed) (linked : LinksFit t)
    (member : abi ∈ abis) : ∃ u, renew t (shelf.under [abi.text]) = ⟨u, none⟩ ∧
      Roomy u shelf (l ++ first :: rest) abis ∧ Tended u (l ++ first :: rest) abi := by
  have roomy : Roomy (t.layDown l (first :: rest)) shelf (l ++ first :: rest) abis := roomy_laid fresh wellFormed linked
  have empty : ∀ m, l ++ first :: rest ++ [abi.text] <+: m → (t.layDown l (first :: rest)).node? m = none := by
    rintro m ⟨more, rfl⟩
    rw [List.append_assoc]
    exact (fresh.laid wellFormed).2.2 _ (by simp)
  have absent : t.exists? (shelf.under [abi.text]) = .ok false := by
    have walked : t.walk true maxLinks (base t.here shelf) (shelf.names ++ [abi.text]) = .error .noEntry :=
      fresh.walk (by simp)
    unfold exists? probe locate
    rw [FilePath.hasNul_under, fresh.noNul, (abi_nameable abi).noNul, base_under,
      show (shelf.under [abi.text]).names = shelf.names ++ [abi.text] from rfl, walked]
    rfl
  have names_ : (shelf.under [abi.text]).names = front ++ first :: (rest ++ [abi.text]) := by
    rw [show (shelf.under [abi.text]).names = shelf.names ++ [abi.text] from rfl, fresh.names]
    simp
  have laid : t.newDirectory (shelf.under [abi.text]) = ⟨t.layDown l (first :: (rest ++ [abi.text])), none⟩ := by
    obtain ⟨left, route⟩ := fresh.route
    have made : makeDirectories t shelf.root (front ++ first :: (rest ++ [abi.text]) ++ []) false
        (front ++ first :: (rest ++ [abi.text])).length = ⟨t.layDown l (first :: (rest ++ [abi.text])), none⟩ :=
      makeDirectories_fresh wellFormed ?_ route fresh.absent ?_ ?_
    · rw [List.append_nil, ← names_] at made
      exact made
    · have noNul : (shelf.under [abi.text]).hasNul = false := by
        rw [FilePath.hasNul_under, fresh.noNul, (abi_nameable abi).noNul]
        rfl
      rw [List.append_nil, ← names_]
      exact noNul
    · intro name member
      rcases List.mem_append.mp (show name ∈ first :: rest ++ [abi.text] from member) with before | last
      · exact fresh.fits name before
      · exact (abi_nameable abi).fits name last
    · intro name member
      rcases List.mem_append.mp (show name ∈ first :: rest ++ [abi.text] from member) with before | last
      · exact fresh.notUp name before
      · rw [List.mem_singleton.mp last]
        exact (abi_plain abi).2.2.1
  unfold renew
  rw [absent]
  refine ⟨_, laid, ?_⟩
  rw [show first :: (rest ++ [abi.text]) = first :: rest ++ [abi.text] from rfl, layDown_append]
  exact roomy.made member empty

theorem copy_roomy (roomy : Roomy t shelf k abis) (member : abi ∈ abis) (tended : Tended t k abi)
    (plain : Plain library) (nameable : Nameable [library]) (found : t.locate true path = .ok m)
    (there : t.node? m = some (.file content executable)) :
    ∃ u, t.copy path ((shelf.under [abi.text]).child library) = .ok u ∧ Roomy u shelf k abis ∧ Tended u k abi := by
  have inside := stands_in roomy.stands (abi_plain abi).2.2.1 (abi_nameable abi) tended.directory
  have noLink : ∀ target, t.node? (k ++ [abi.text] ++ [library]) ≠ some (.link target) := fun target linked => by
    cases tended.files library _ linked
  have noDirectory : t.node? (k ++ [abi.text] ++ [library]) ≠ some .directory := fun directory => by
    cases tended.files library _ directory
  have goal : t.locate true ((shelf.under [abi.text]).under [library]) = .ok (k ++ [abi.text] ++ [library]) :=
    locate_in inside plain.2.2.1 nameable fun _ => noLink
  have at_ := node?_put (t := t) (m := k ++ [abi.text] ++ [library]) (by simp) (.file content executable)
  have changes : Changes k nowhere t (t.put (k ++ [abi.text] ++ [library]) (.file content executable)) :=
    changes_put (by simp) (by simp) (by rw [List.dropLast_concat]; exact tended.directory) noDirectory noLink nofun
  refine ⟨t.put (k ++ [abi.text] ++ [library]) (.file content executable), ?_, ?_, ?_, fun name node lies => ?_⟩
  · unfold copy
    rw [FilePath.child_plain plain, found]
    simp only [bind, Except.bind, there, goal]
  · refine roomy.kept member (changes.wellFormed roomy.wellFormed) rfl (fun m out => (at_ m).trans (if_neg ?_))
      (fun m target lies => (changes.links m target).mpr lies) (.inr ?_)
    · rintro rfl
      exact out (by simp)
    · rw [at_, if_neg (by simp)]
      exact tended.directory
  · rw [at_, if_neg (by simp)]
    exact tended.directory
  · rw [at_] at lies
    split at lies
    · cases lies
      rfl
    · exact tended.files name node lies

-- A placing that has not failed, at an architecture whose directory has been made anew.
structure Underway (p : Progress) (shelf : FilePath) (k : Location) (abis : List Abi) (abi : Abi) : Prop where
  fine : p.failure = none
  roomy : Roomy p.tree shelf k abis
  tended : Tended p.tree k abi

theorem LibraryStep.underway (step : LibraryStep abi (shelf.under [abi.text]) artifacts library p q)
    (underway : Underway p shelf k abis abi) (member : abi ∈ abis) (configured : library ∈ libraries)
    (handy : Handy libraries artifacts) (plain : Plain library) (fits : Fits [library]) :
    Underway q shelf k abis abi := by
  -- What is found to be there can be copied.
  have copies : ∀ path, source p.tree artifacts library = .ok (some path) →
      ∃ u, p.tree.copy path ((shelf.under [abi.text]).child library) = .ok u ∧ Roomy u shelf k abis ∧
        Tended u k abi := by
    intro path found
    obtain ⟨listed, asked⟩ := source_parts found
    obtain ⟨m, content, executable, located, there⟩ := isFile_located asked
    have nameable : Nameable [library] := ⟨(handy library configured path listed).2 (noNul_of_locate located), fits⟩
    exact copy_roomy underway.roomy member underway.tended plain nameable located there
  cases step with
  | stopped failed => exact absurd underway.fine failed
  | unread _ asked =>
    obtain ⟨path, listed, refused⟩ := source_fault asked
    obtain ⟨answer, answered⟩ := isFile_fits underway.roomy.linked (handy library configured path listed).1
    rw [answered] at refused
    cases refused
  | absent _ _ _ => exact ⟨underway.fine, underway.roomy, underway.tended⟩
  | uncopied _ found ran =>
    obtain ⟨u, copied, _⟩ := copies _ found
    rw [copied] at ran
    cases ran
  | copied _ found ran =>
    obtain ⟨u, copied, roomy, tended⟩ := copies _ found
    rw [copied] at ran
    cases ran
    obtain ⟨tree, failure⟩ := add_parts (p := { p with tree := _ }) ⟨library, abi, (shelf.under [abi.text]).child library⟩
    exact ⟨failure.trans underway.fine, tree ▸ roomy, tree ▸ tended⟩

theorem placeLibraries_underway (underway : Underway p shelf k abis abi) (member : abi ∈ abis)
    (handy : Handy libraries artifacts) (plain : ∀ library ∈ libraries, Plain library) (fits : Fits libraries) :
    Underway (libraries.foldl (placeLibrary abi (shelf.under [abi.text]) artifacts) p) shelf k abis abi := by
  refine List.foldlRecOn libraries _ (motive := (Underway · shelf k abis abi)) underway
    fun p before library configured => ?_
  exact placeLibrary_step.underway before member configured handy (plain library configured)
    fun name is => List.mem_singleton.mp is ▸ fits library configured

theorem renew_unobstructed (clear : Unobstructed t shelf abis) (member : abi ∈ abis) :
    ∃ u k, renew t (shelf.under [abi.text]) = ⟨u, none⟩ ∧ Roomy u shelf k abis ∧ Tended u k abi := by
  cases clear with
  | there roomy =>
    obtain ⟨u, renewed, roomy, tended⟩ := renew_roomy roomy member
    exact ⟨u, _, renewed, roomy, tended⟩
  | missing wellFormed linked fresh =>
    obtain ⟨u, renewed, roomy, tended⟩ := renew_fresh fresh wellFormed linked member
    exact ⟨u, _, renewed, roomy, tended⟩

-- A placing under way that nothing has stopped, and nothing will.
structure Progress.Smooth (p : Progress) (shelf : FilePath) (abis : List Abi) : Prop where
  fine : p.failure = none
  clear : Unobstructed p.tree shelf abis

section Placing
variable (handy : ∀ abi ∈ abis, Handy libraries (((i.result? abi).map Compilation.artifacts).getD []))
  (plain : ∀ library ∈ libraries, Plain library) (fits : Fits libraries)
include plain fits

theorem AbiStep.smooth (step : AbiStep i libraries root abi p q)
    (smooth : p.Smooth (root.child i.variant.text) abis) (member : abi ∈ abis)
    (handy : Handy libraries (((i.result? abi).map Compilation.artifacts).getD [])) :
    q.Smooth (root.child i.variant.text) abis := by
  obtain ⟨u, k, ran, roomy, tended⟩ := renew_unobstructed smooth.clear member
  have dir : abiDir root i.variant abi = (root.child i.variant.text).under [abi.text] :=
    FilePath.child_plain (abi_plain abi)
  rw [← dir] at ran
  cases step with
  | stopped failed => exact absurd smooth.fine failed
  | obstructed _ refused =>
    rw [ran] at refused
    cases refused
  | filled _ _ =>
    rw [ran, dir]
    have started : Underway { p with tree := u } (root.child i.variant.text) k abis abi :=
      ⟨smooth.fine, roomy, tended⟩
    have placed := placeLibraries_underway started member handy plain fits
    exact ⟨placed.fine, .there placed.roomy⟩

include handy in
theorem placeAbis_smooth (smooth : p.Smooth (root.child i.variant.text) abis) :
    (abis.foldl (placeAbi i libraries root) p).Smooth (root.child i.variant.text) abis :=
  List.foldlRecOn abis _ (motive := (Progress.Smooth · (root.child i.variant.text) abis)) smooth
    fun _ before abi member => placeAbi_step.smooth plain fits before member (handy abi member)

end Placing

-- Where nothing is in the way, all that was produced can be placed.
theorem place_smooth (clear : Unobstructed t (root.child i.variant.text) i.architectures) (checked : i.check = .ok ())
    (handy : ∀ abi ∈ i.architectures, Handy libraries (((i.result? abi).map Compilation.artifacts).getD []))
    (plain : ∀ library ∈ libraries, Plain library) (fits : Fits libraries) :
    (place t i libraries root).Smooth (root.child i.variant.text) i.architectures := by
  unfold place
  rw [checked]
  exact placeAbis_smooth handy plain fits ⟨rfl, clear⟩

theorem Unobstructed.linked (clear : Unobstructed t shelf abis) : LinksFit t := by
  cases clear with
  | there roomy => exact roomy.linked
  | missing _ linked _ => exact linked

theorem check_fits (linked : LinksFit t) (architectures : List Abi)
    (fits : ∀ abi ∈ architectures, ∀ library ∈ libraries, Fits ((abiDir root v abi).child library).names) :
    ∃ report, check t root v architectures libraries = .ok report := by
  cases asked : check t root v architectures libraries with
  | ok report => exact ⟨report, rfl⟩
  | error fault =>
    obtain ⟨abi, among, library, member, refused⟩ := check_refused asked
    obtain ⟨answer, answered⟩ := isFile_fits linked (fits abi among library member)
    cases answered.symm.trans refused

theorem require_fits (checked : ∃ report, check t root v architectures libraries = .ok report)
    (failed : (require t root (.text v.text) architectures libraries).1 = .error cause) :
    cause.stage? = some .placement := by
  obtain ⟨report, checked⟩ := checked
  unfold require at failed
  rw [checkNamed_known (parse_text v), checked] at failed
  exact demand_failure failed

end AbiBuild.Placement
