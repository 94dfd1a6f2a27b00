import AbiBuild.Proofs.Files.Filling
import AbiBuild.Proofs.Files.Relisting
import AbiBuild.Proofs.Ndk.Finding
import AbiBuild.Proofs.Versions.Spelling
import Mathlib.Data.Prod.Lex
import Mathlib.Data.String.Basic

namespace AbiBuild.Ndk
open FileTree Version

variable {t u : FileTree} {pinned : Option String} {sdk all : FilePath} {names others : List String} {name : String}
  {a b best : List Nat × String} {list list' : List (List Nat × String)}

theorem newer_iff : newer a b = true ↔ toLex a < toLex b := by
  simp only [newer, Bool.or_eq_true, Bool.and_eq_true, listedBefore_iff, beq_iff_eq, decide_eq_true_eq,
    Prod.Lex.toLex_lt_toLex]

theorem newest_ranks (found : newest list = some best) (member : a ∈ list) : toLex a ≤ toLex best := by
  -- Induction on the list: the newest of the rest, or the first where it outranks that.
  induction list generalizing best with
  | nil => cases member
  | cons first rest ih =>
    unfold newest at found
    split at found
    · rename_i none_
      cases found
      rw [newest_none none_, List.mem_singleton] at member
      rw [member]
    · rename_i later answered
      cases found
      rcases List.mem_cons.mp member with rfl | inRest
      · split
        · rename_i outranked
          exact (newer_iff.mp outranked).le
        · exact le_rfl
      · split
        · exact ih answered inRest
        · rename_i outranks
          exact (ih answered inRest).trans (not_lt.mp fun less => outranks (newer_iff.mpr less))

theorem newest_congr (same : ∀ a, a ∈ list ↔ a ∈ list') : newest list = newest list' := by
  cases first : newest list with
  | none =>
    have nothing : list' = [] := by
      rw [newest_none first] at same
      exact List.eq_nil_iff_forall_not_mem.mpr fun a member => by simpa using (same a).mpr member
    rw [nothing]
    rfl
  | some best =>
    have member := newest_mem first
    cases second : newest list' with
    | none =>
      rw [newest_none second] at same
      exact absurd ((same best).mp member) List.not_mem_nil
    | some best' =>
      have above := newest_ranks second ((same best).mp member)
      have below := newest_ranks first ((same best').mpr (newest_mem second))
      exact congrArg some (toLex_inj.mp (le_antisymm above below))

theorem newestName_congr (same : ∀ name, name ∈ names ↔ name ∈ others) : newestName names = newestName others := by
  have entries : ∀ a, a ∈ names.filterMap versionOf ↔ a ∈ others.filterMap versionOf := fun a => by
    simp only [List.mem_filterMap, same]
  unfold newestName
  rw [newest_congr entries]

theorem versionOf_iff {numbered : List Nat × String} : versionOf name = some numbered ↔
    Version.parse name = .ok numbered.1 ∧ numbered.2 = name := by
  obtain ⟨version, text⟩ := numbered
  unfold versionOf
  cases Version.parse name with
  | error fault => simp
  | ok other => simp [eq_comm]

theorem newestName_none_iff : newestName names = none ↔ ∀ name ∈ names, ¬ IsVersion name := by
  constructor
  · intro none_ name member numbered
    obtain ⟨version, read⟩ := numbered
    have named : versionOf name = some (version, name) := versionOf_iff.mpr ⟨read, rfl⟩
    rw [newestName_none none_ name member] at named
    cases named
  · intro odd
    cases found : newestName names with
    | none => rfl
    | some name =>
      obtain ⟨member, numbered, named⟩ := newestName_mem found
      exact absurd ⟨_, (versionOf_iff.mp named).1⟩ (odd name member)

-- The rank is finer than the order of versions, so that nothing exceeds what ranks highest.
theorem newestName_greatest (found : newestName names = some name) {other : String} (member : other ∈ names)
    (numbered : IsVersion other) : ∃ answer, compareTexts name other = .ok answer ∧ answer.isGE := by
  obtain ⟨best, newest_, rfl⟩ := Option.map_eq_some_iff.mp found
  obtain ⟨entry, _, named⟩ := List.mem_filterMap.mp (newest_mem newest_)
  obtain ⟨read, rfl⟩ := versionOf_iff.mp named
  obtain ⟨version, read'⟩ := numbered
  have listed : (version, other) ∈ names.filterMap versionOf :=
    List.mem_filterMap.mpr ⟨other, member, versionOf_iff.mpr ⟨read', rfl⟩⟩
  have below : (order version best.1).isLE := by
    rcases Prod.Lex.toLex_le_toLex.mp (newest_ranks newest_ listed) with less | ⟨same, _⟩
    · exact order_of_lt less
    · have equal : order version best.1 = .eq := same ▸ order_self version
      rw [equal]
      rfl
  refine ⟨_, compareTexts_ok read read', ?_⟩
  rw [order_swap, Ordering.isGE_swap]
  exact below

theorem installed_relisted (same : Relisted t u) (there : t.isDirectory (sdk.child "ndk") = .ok true)
    (unpinned : ∀ version, pinned = some version → version ≠ "" →
      t.isDirectory ((sdk.child "ndk").child version) = .ok false)
    (lists : t.names (sdk.child "ndk") = .ok names) :
    installed u sdk pinned = .ok ((newestName names).map (sdk.child "ndk").child) := by
  have ran : installed u sdk pinned = installed u sdk pinned := rfl
  rcases installed_cases ran with ⟨version, wanted, some_, answered⟩ | ⟨_, newest_⟩
  · have absent := unpinned version wanted some_
    rw [← same.isDirectory] at absent
    rcases answered with ⟨found, _⟩ | ⟨fault, refused, _⟩
    · cases absent.symm.trans found
    · cases absent.symm.trans refused
  · obtain ⟨others, relisted, among⟩ := same.names lists
    rw [← newest_, newestName_congr fun name => (among name).symm]
    unfold newestBelow
    rw [same.isDirectory, there, relisted]
    rfl

theorem installed_refused {version : String} {fault : FileFault} (some_ : version ≠ "")
    (refused : t.isDirectory ((sdk.child "ndk").child version) = .error fault) :
    installed t sdk (some version) = .error fault := by
  have ran : installed t sdk (some version) = installed t sdk (some version) := rfl
  rcases installed_cases ran with ⟨other, wanted, _, ⟨there, _⟩ | ⟨cause, asked, same⟩⟩ | ⟨unpinned, _⟩
  · cases wanted
    cases there.symm.trans refused
  · cases wanted
    cases asked.symm.trans refused
    exact same
  · cases (unpinned version rfl some_).symm.trans refused

-- Below an SDK where the pinned version is not there, the greatest of the versions is found, if there is any, and it is
-- the same one in whatever order the directory is listed.
theorem newest_installation (there : t.isDirectory (sdk.child "ndk") = .ok true)
    (unpinned : ∀ version, pinned = some version → version ≠ "" →
      t.isDirectory ((sdk.child "ndk").child version) = .ok false) :
    ∃ entries, t.names (sdk.child "ndk") = .ok entries ∧
      (∀ u, Relisted t u → (installed u sdk pinned = .ok none ↔ ∀ entry ∈ entries, ¬ IsVersion entry)) ∧
      ((∃ entry ∈ entries, IsVersion entry) → ∃ entry ∈ entries, IsVersion entry ∧
        (∀ u, Relisted t u → installed u sdk pinned = .ok (some ((sdk.child "ndk").child entry))) ∧
        ∀ other ∈ entries, IsVersion other → ∃ answer, compareTexts entry other = .ok answer ∧ answer.isGE) := by
  obtain ⟨entries, lists⟩ := names_directory there
  have found : ∀ u, Relisted t u →
      installed u sdk pinned = .ok ((newestName entries).map (sdk.child "ndk").child) := fun u same =>
    installed_relisted same there unpinned lists
  refine ⟨entries, lists, fun u same => ?_, fun some_ => ?_⟩
  · rw [found u same, ← newestName_none_iff]
    simp
  · cases newest_ : newestName entries with
    | none =>
      obtain ⟨entry, member, numbered⟩ := some_
      exact absurd numbered (newestName_none_iff.mp newest_ entry member)
    | some entry =>
      obtain ⟨member, numbered, named⟩ := newestName_mem newest_
      refine ⟨entry, member, ⟨_, (versionOf_iff.mp named).1⟩, fun u same => ?_, fun _ => newestName_greatest newest_⟩
      rw [found u same, newest_]
      rfl

def sdkPath : FilePath := ⟨.single, ["sdk"]⟩

def crowdedTree : FileTree := ⟨[], [
  (["sdk"], .directory), (["sdk", "ndk"], .directory),
  (["sdk", "ndk", "22.1.0"], .directory), (["sdk", "ndk", "v22.1"], .directory),
  (["sdk", "ndk", "21.4.7075529"], .directory), (["sdk", "ndk", "22.01"], .directory),
  (["sdk", "ndk", "README"], .file [] false)]⟩

def crowdedAgain : FileTree := ⟨[], crowdedTree.entries.reverse⟩

theorem crowded_relisted : Relisted crowdedTree crowdedAgain :=
  relisted_of_perm rfl (by decide) (List.reverse_perm _)

theorem crowded_installation :
    crowdedTree.isDirectory (sdkPath.child "ndk") = .ok true ∧ Relisted crowdedTree crowdedAgain ∧ IsVersion "22.1.0" ∧
      ∃ entry, installed crowdedTree sdkPath (some "23.0") = .ok (some ((sdkPath.child "ndk").child entry)) ∧
        installed crowdedAgain sdkPath (some "23.0") = .ok (some ((sdkPath.child "ndk").child entry)) ∧
        ∃ answer, compareTexts entry "22.1.0" = .ok answer ∧ answer.isGE := by
  have there : crowdedTree.isDirectory (sdkPath.child "ndk") = .ok true := ok_of_toOption (by decide +kernel)
  have unpinned : ∀ version, some "23.0" = some version → version ≠ "" →
      crowdedTree.isDirectory ((sdkPath.child "ndk").child version) = .ok false := by
    rintro version ⟨⟩ _
    exact ok_of_toOption (by decide +kernel)
  have numbered : IsVersion "22.1.0" := ⟨[22, 1, 0], ok_of_toOption (by decide +kernel)⟩
  obtain ⟨entries, lists, _, greatest⟩ := newest_installation there unpinned
  have member : "22.1.0" ∈ entries := by
    have all : crowdedTree.names (sdkPath.child "ndk") = .ok ["22.1.0", "v22.1", "21.4.7075529", "22.01", "README"] :=
      ok_of_toOption (by decide +kernel)
    cases lists.symm.trans all
    decide
  obtain ⟨entry, _, _, found, above⟩ := greatest ⟨"22.1.0", member, numbered⟩
  have again := found _ crowded_relisted
  exact ⟨there, crowded_relisted, numbered, entry, found _ (.refl _), again, above _ member numbered⟩

def flankedTree : FileTree := ⟨[], [
  (["sdk"], .directory), (["sdk", "ndk"], .directory), (["sdk", "ndk", "22.1.7171670"], .directory),
  (["sdk", "tools"], .directory)]⟩

def longVersion : String := String.ofList (List.replicate 256 '9')

theorem longVersion_plain : Plain longVersion := FilePath.plain_replicate (by decide) (by decide)

theorem flankedTree_based : Based flankedTree ⟨.single, ["sdk", "ndk"]⟩ ["sdk", "ndk"] := by
  have walked : flankedTree.walk true maxLinks [] ["sdk", "ndk"] = .ok ["sdk", "ndk"] :=
    ok_of_toOption (by decide +kernel)
  exact ⟨.of_entries (by decide), by decide, ⟨by decide, route_of_walk walked (by decide)⟩, .of_entries (by decide)⟩

theorem longVersion_refused :
    ∃ fault, flankedTree.isDirectory ((sdkPath.child "ndk").child longVersion) = .error fault := by
  have noNul : FilePath.anyNul [longVersion] = false := FilePath.noNul_replicate (by decide) 256
  have notUp : ∀ name ∈ [] ++ [longVersion], name ≠ ".." := by simpa using longVersion_plain.2.2.1
  have dir : sdkPath.child "ndk" = ⟨.single, ["sdk", "ndk"]⟩ := by decide +kernel
  rw [FilePath.child_plain longVersion_plain, dir]
  have asked := isDirectory_long flankedTree_based notUp (by simp) noNul (by decide +kernel) (by decide)
  exact ⟨_, asked⟩

-- A pinned version is a path: it can lead to what is no entry of the directory, and cannot be asked about where it is
-- too long for a name.
theorem pinned_path_leads_elsewhere :
    flankedTree.isDirectory (sdkPath.child "ndk") = .ok true ∧
      flankedTree.names (sdkPath.child "ndk") = .ok ["22.1.7171670"] ∧ IsVersion "22.1.7171670" ∧
      installed flankedTree sdkPath (some "../tools") = .ok (some ⟨.single, ["sdk", "ndk", "..", "tools"]⟩) ∧
      ∃ fault, installed flankedTree sdkPath (some longVersion) = .error fault := by
  have numbered : IsVersion "22.1.7171670" := ⟨[22, 1, 7171670], ok_of_toOption (by decide +kernel)⟩
  obtain ⟨fault, refused⟩ := longVersion_refused
  exact ⟨ok_of_toOption (by decide +kernel), ok_of_toOption (by decide +kernel), numbered,
    ok_of_toOption (by decide +kernel), fault, installed_refused longVersion_plain.1 refused⟩

end AbiBuild.Ndk
