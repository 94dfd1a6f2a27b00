import AbiBuild.Proofs.Ndk.Finding

namespace AbiBuild.Ndk

-- No variable that names an NDK names a directory.
def Unnamed (t : FileTree) (environ : Environment) : Prop :=
  ∀ name ∈ ndkVariables, ∀ value, setting? environ name = some value → t.isDirectory (.ofText value) ≠ .ok true

-- The newest of an SDK's installations by name, which stands for the pinned version where that is not there.
structure Newest (t : FileTree) (pinned : Option String) (all dir : FilePath) : Prop where
  unpinned : ∀ version, pinned = some version → version ≠ "" → t.isDirectory (all.child version) = .ok false
  there : t.isDirectory all = .ok true
  chosen : ∃ entries name, t.names all = .ok entries ∧ newestName entries = some name ∧ dir = all.child name

-- An entry with the name of a version, found below the first SDK that offers anything, that is no directory.
structure Stray (t : FileTree) (environ : Environment) (pinned : Option String) (dir : FilePath) : Prop where
  unnamed : Unnamed t environ
  listed : ∃ before name after root, sdkVariables = before ++ name :: after ∧
    (∀ earlier ∈ before, ∀ value, setting? environ earlier = some value →
      ∀ other, ¬ Offers t pinned ((FilePath.ofText value).child "ndk") other) ∧
    setting? environ name = some root ∧ Newest t pinned ((FilePath.ofText root).child "ndk") dir
  noDirectory : t.isDirectory dir ≠ .ok true

variable {t : FileTree} {configured : Option FilePath} {pinned : Option String} {environ : Environment}
  {dir all sdk : FilePath} {names before after : List String} {name value version : String} {notices : List Notice}
  {ask : String → Except FileFault (Option FilePath)}

theorem firstOf_found (ran : firstOf ask environ names = .ok (some dir)) :
    ∃ before name after value, names = before ++ name :: after ∧
      (∀ earlier ∈ before, ∀ value, setting? environ earlier = some value → ask value = .ok none) ∧
      setting? environ name = some value ∧ ask value = .ok (some dir) := by
  induction names with
  | nil => cases ran
  | cons first rest ih =>
    rcases firstOf_cons ran with ⟨silent, later⟩ | ⟨value, set, answered, _⟩
    · obtain ⟨before, name, after, value, rfl, earlier, set, answered⟩ := ih later
      refine ⟨first :: before, name, after, value, rfl, ?_, set, answered⟩
      intro other member
      rcases List.mem_cons.mp member with rfl | inside
      · exact silent
      · exact earlier other inside
    · exact ⟨[], first, rest, value, rfl, by simp, set, answered⟩

theorem firstOf_skips (silent : ∀ name ∈ before, ∀ value, setting? environ name = some value →
      ∀ dir, ask value ≠ .ok (some dir))
    (ran : firstOf ask environ (before ++ names) = .ok (some dir)) :
    firstOf ask environ names = .ok (some dir) := by
  induction before with
  | nil => exact ran
  | cons first rest ih =>
    rcases firstOf_cons ran with ⟨_, later⟩ | ⟨value, set, answered, _⟩
    · exact ih (fun name member => silent name (List.mem_cons_of_mem _ member)) later
    · exact absurd answered (silent first List.mem_cons_self value set dir)

theorem unnamed_of_none (ran : firstOf (directory? t) environ ndkVariables = .ok none) : Unnamed t environ := by
  intro name member value set there
  have absent := directory?_none (firstOf_none ran name member value set)
  rw [there] at absent
  cases absent

theorem installed_directory (ran : installed t sdk pinned = .ok (some dir)) :
    t.isDirectory dir = .ok true ∨ Newest t pinned (sdk.child "ndk") dir := by
  rcases installed_cases ran with ⟨version, _, _, ⟨there, same⟩ | ⟨_, _, same⟩⟩ | ⟨unpinned, newest_⟩
  · cases same
    exact .inl there
  · cases same
  · obtain ⟨there, chosen⟩ := newestBelow_parts newest_
    exact .inr ⟨unpinned, there, chosen⟩

theorem search_directory (ran : search t none pinned environ = .ok (some dir)) :
    t.isDirectory dir = .ok true ∨ Stray t environ pinned dir := by
  rcases search_unconfigured ran with named | ⟨none_, below⟩
  · obtain ⟨_, _, _, value, _, _, _, asked⟩ := firstOf_found named
    obtain ⟨rfl, there⟩ := directory?_some asked
    exact .inl there
  · obtain ⟨before, name, after, root, order, silent, set, found⟩ := firstOf_found below
    rcases installed_directory found with there | newest_
    · exact .inl there
    · by_cases there : t.isDirectory dir = .ok true
      · exact .inl there
      · refine .inr ⟨unnamed_of_none none_, ⟨before, name, after, root, order, ?_, set, newest_⟩, there⟩
        exact fun earlier member value own => installed_none (silent earlier member value own)

-- Whatever source it comes from, what is found is a directory, a stray entry apart.
theorem found_is_directory (ran : find t configured pinned environ = .ok (dir, notices)) :
    t.isDirectory dir = .ok true ∨ configured = none ∧ Stray t environ pinned dir := by
  obtain ⟨searched, source, _⟩ := find_found ran
  cases configured with
  | none => exact (search_directory searched).imp_right fun stray => ⟨rfl, stray⟩
  | some chosen =>
    cases source with
    | configured there => exact .inl there

def strewnTree : FileTree := ⟨[], [
  (["sdk"], .directory), (["sdk", "ndk"], .directory),
  (["sdk", "ndk", "21.4.7075529"], .directory),
  (["sdk", "ndk", "22.1.7171670"], .directory),
  (["sdk", "ndk", "9.0"], .file [] false)]⟩

def homeEnviron : Environment := [("ANDROID_HOME", "/sdk")]

theorem newest_found_is_directory :
    find strewnTree none (some "20.0") homeEnviron = .ok (⟨.single, ["sdk", "ndk", "22.1.7171670"]⟩, []) ∧
      (strewnTree.isDirectory ⟨.single, ["sdk", "ndk", "22.1.7171670"]⟩ = .ok true ∨
        (none : Option FilePath) = none ∧
          Stray strewnTree homeEnviron (some "20.0") ⟨.single, ["sdk", "ndk", "22.1.7171670"]⟩) := by
  have found : find strewnTree none (some "20.0") homeEnviron =
      .ok (⟨.single, ["sdk", "ndk", "22.1.7171670"]⟩, []) := ok_of_toOption (by decide +kernel)
  exact ⟨found, found_is_directory found⟩

def fileTree : FileTree := ⟨[], [
  (["sdk"], .directory), (["sdk", "ndk"], .directory), (["sdk", "ndk", "22.1.7171670"], .file [] false)]⟩

theorem file_found_as_ndk :
    find fileTree none none homeEnviron = .ok (⟨.single, ["sdk", "ndk", "22.1.7171670"]⟩, []) ∧
      fileTree.isDirectory ⟨.single, ["sdk", "ndk", "22.1.7171670"]⟩ = .ok false :=
  ⟨ok_of_toOption (by decide +kernel), ok_of_toOption (by decide +kernel)⟩

theorem installed_pinned (some_ : version ≠ "")
    (there : t.isDirectory ((sdk.child "ndk").child version) = .ok true) :
    installed t sdk (some version) = .ok (some ((sdk.child "ndk").child version)) := by
  have ran : installed t sdk (some version) = installed t sdk (some version) := rfl
  rcases installed_cases ran with ⟨other, wanted, _, ⟨_, same⟩ | ⟨fault, refused, _⟩⟩ | ⟨unpinned, _⟩
  · cases wanted
    exact same
  · cases wanted
    rw [there] at refused
    cases refused
  · rw [unpinned version rfl some_] at there
    cases there

theorem search_pinned (some_ : version ≠ "") (unnamed : Unnamed t environ)
    (order : sdkVariables = before ++ name :: after) (set : setting? environ name = some value)
    (there : t.isDirectory (((FilePath.ofText value).child "ndk").child version) = .ok true)
    (earlier : ∀ other ∈ before, ∀ root, setting? environ other = some root →
      ∀ dir, ¬ Offers t (some version) ((FilePath.ofText root).child "ndk") dir)
    (ran : search t none (some version) environ = .ok (some dir)) :
    dir = ((FilePath.ofText value).child "ndk").child version := by
  rcases search_unconfigured ran with named | ⟨_, below⟩
  · obtain ⟨_, other, _, text, among, _, own, asked⟩ := firstOf_found named
    obtain ⟨_, directory⟩ := directory?_some asked
    exact absurd directory (unnamed other (by simp [among]) text own)
  · rw [order] at below
    have rest := firstOf_skips
      (fun other member root own dir found => earlier other member root own dir (installed_some found)) below
    have pinned := installed_pinned some_ there
    rcases firstOf_cons rest with ⟨silent, _⟩ | ⟨root, own, answered, _⟩
    · rw [silent value set] at pinned
      cases pinned
    · cases set.symm.trans own
      rw [pinned] at answered
      cases answered
      rfl

-- The pinned version is returned, or the search for it is broken off.
theorem pinned_version_wins (some_ : version ≠ "") (unnamed : Unnamed t environ)
    (order : sdkVariables = before ++ name :: after) (set : setting? environ name = some value)
    (there : t.isDirectory (((FilePath.ofText value).child "ndk").child version) = .ok true)
    (earlier : ∀ other ∈ before, ∀ root, setting? environ other = some root →
      ∀ dir, ¬ Offers t (some version) ((FilePath.ofText root).child "ndk") dir) :
    (∃ notices, find t none (some version) environ =
        .ok (((FilePath.ofText value).child "ndk").child version, notices)) ∨
      ∃ mishap, find t none (some version) environ = .error (.mishap mishap) ∧
        Slip t none (some version) environ mishap := by
  have source : Source t environ (some version) none (((FilePath.ofText value).child "ndk").child version) :=
    .installed (by simp [order]) set (.pinned rfl some_ there)
  cases ran : find t none (some version) environ with
  | error cause =>
    rcases find_fails t none (some version) environ cause ran with ⟨_, nowhere⟩ | ⟨mishap, rfl, slip⟩
    · exact absurd source (nowhere _)
    · exact .inr ⟨mishap, rfl, slip⟩
  | ok result =>
    obtain ⟨dir, notices⟩ := result
    obtain ⟨searched, _, _⟩ := find_found ran
    rw [search_pinned some_ unnamed order set there earlier searched]
    exact .inl ⟨notices, rfl⟩

def pairedTree : FileTree := ⟨[], [
  (["a"], .directory), (["a", "ndk"], .directory), (["a", "ndk", "README"], .file [] false),
  (["b"], .directory), (["b", "ndk"], .directory),
  (["b", "ndk", "22.1.7171670"], .directory),
  (["b", "ndk", "22.1.7171670", "source.properties"], .file (Text.encode "Pkg.Desc = Android NDK\n") false),
  (["b", "ndk", "23.0.7599858"], .directory)]⟩

def pairedEnviron : Environment :=
  [("ANDROID_NDK_HOME", "/nowhere"), ("ANDROID_SDK_ROOT", "/a"), ("ANDROID_HOME", "/b")]

theorem pinned_version_wins_below_second :
    Unnamed pairedTree pairedEnviron ∧
      pairedTree.isDirectory (((FilePath.ofText "/b").child "ndk").child "22.1.7171670") = .ok true ∧
      (∀ dir, ¬ Offers pairedTree (some "22.1.7171670") ((FilePath.ofText "/a").child "ndk") dir) ∧
      ∃ notices, find pairedTree none (some "22.1.7171670") pairedEnviron =
        .ok (((FilePath.ofText "/b").child "ndk").child "22.1.7171670", notices) := by
  have unnamed : Unnamed pairedTree pairedEnviron := by
    intro name member value set there
    have nowhere : ∀ name ∈ ndkVariables, ∀ value ∈ setting? pairedEnviron name, value = "/nowhere" := by decide
    rw [nowhere name member value set] at there
    have absent : pairedTree.isDirectory (.ofText "/nowhere") = .ok false := ok_of_toOption (by decide +kernel)
    rw [there] at absent
    cases absent
  have there : pairedTree.isDirectory (((FilePath.ofText "/b").child "ndk").child "22.1.7171670") = .ok true :=
    ok_of_toOption (by decide +kernel)
  have bare : ∀ dir, ¬ Offers pairedTree (some "22.1.7171670") ((FilePath.ofText "/a").child "ndk") dir :=
    installed_none (ok_of_toOption (by decide +kernel))
  have earlier : ∀ other ∈ ["ANDROID_SDK_ROOT"], ∀ root, setting? pairedEnviron other = some root →
      ∀ dir, ¬ Offers pairedTree (some "22.1.7171670") ((FilePath.ofText root).child "ndk") dir := by
    intro other member root own
    rw [List.mem_singleton.mp member] at own
    have first : setting? pairedEnviron "ANDROID_SDK_ROOT" = some "/a" := by decide
    cases first.symm.trans own
    exact bare
  refine ⟨unnamed, there, bare, ?_⟩
  have order : sdkVariables = ["ANDROID_SDK_ROOT"] ++ "ANDROID_HOME" :: [] := rfl
  have second : setting? pairedEnviron "ANDROID_HOME" = some "/b" := by decide
  rcases pinned_version_wins (by decide) unnamed order second there earlier with found | ⟨mishap, broken, _⟩
  · exact found
  · have answered : (find pairedTree none (some "22.1.7171670") pairedEnviron).toOption.isSome = true := by
      decide +kernel
    rw [broken] at answered
    cases answered

def partedTree : FileTree := ⟨[], [
  (["a"], .directory), (["a", "ndk"], .directory), (["a", "ndk", "23.0.7599858"], .directory),
  (["b"], .directory), (["b", "ndk"], .directory), (["b", "ndk", "22.1.7171670"], .directory)]⟩

def partedEnviron : Environment := [("ANDROID_SDK_ROOT", "/a"), ("ANDROID_HOME", "/b")]

theorem other_version_hides_pinned :
    (∀ name ∈ ndkVariables, setting? partedEnviron name = none) ∧
      partedTree.isDirectory ⟨.single, ["a", "ndk", "22.1.7171670"]⟩ = .ok false ∧
      partedTree.isDirectory ⟨.single, ["b", "ndk", "22.1.7171670"]⟩ = .ok true ∧
      find partedTree none (some "22.1.7171670") partedEnviron =
        .ok (⟨.single, ["a", "ndk", "23.0.7599858"]⟩, []) :=
  ⟨by decide, ok_of_toOption (by decide +kernel), ok_of_toOption (by decide +kernel),
    ok_of_toOption (by decide +kernel)⟩

end AbiBuild.Ndk
