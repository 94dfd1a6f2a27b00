import AbiBuild.Proofs.Files.Passage
import Mathlib.Data.List.Perm.Basic

namespace AbiBuild.FileTree
open AbiBuild.Text

variable {t u : FileTree} {p : FilePath} {l m k : Location} {name : String} {names : List String}
  {links : Nat} {content : Bytes} {executable : Bool}

theorem eraseDups_nodup {α : Type} [BEq α] [LawfulBEq α] : ∀ xs : List α, xs.eraseDups.Nodup
  | [] => by simp
  | x :: xs => by
    rw [List.eraseDups_cons, List.nodup_cons]
    exact ⟨fun member => by simp at member, eraseDups_nodup _⟩
  termination_by xs => xs.length
  decreasing_by exact Nat.lt_succ_of_le (List.length_filter_le _ _)

theorem mem_linkPlaces : m ∈ ((t.entries.filter fun e => e.2.isLink && t.node? e.1 == some e.2).map Prod.fst).eraseDups ↔
    ∃ target, t.node? m = some (.link target) := by
  rw [List.mem_eraseDups]
  constructor
  · intro member
    obtain ⟨e, among, rfl⟩ := List.mem_map.mp member
    obtain ⟨isLink, there⟩ := Bool.and_eq_true_iff.mp (List.mem_filter.mp among).2
    obtain ⟨place, node⟩ := e
    cases node with
    | link target => exact ⟨target, eq_of_beq there⟩
    | directory => cases isLink
    | file => cases isLink
  · rintro ⟨target, there⟩
    have known := there
    unfold node? at known
    split at known
    · cases known
    · obtain ⟨e, found, node⟩ := Option.map_eq_some_iff.mp known
      have place : e.1 = m := by simpa using List.find?_some found
      refine List.mem_map.mpr ⟨e, List.mem_filter.mpr ⟨List.mem_of_find?_eq_some found, ?_⟩, place⟩
      simp [place, there, node, Node.isLink]

theorem linkCount_congr (same : SameLinks t u) : t.linkCount = u.linkCount := by
  refine List.Perm.length_eq ((List.perm_ext_iff_of_nodup (eraseDups_nodup _) (eraseDups_nodup _)).mpr fun m => ?_)
  rw [mem_linkPlaces, mem_linkPlaces]
  exact exists_congr fun target => same m target

theorem onward_free (free : ∀ target, t.node? (l ++ [name]) ≠ some (.link target))
    (follow : Location → String → Option Location) :
    t.onward follow l name = if name = ".." then some l.dropLast else some (l ++ [name]) := by
  unfold onward
  split
  · rfl
  · split
    · rename_i target linked
      exact absurd linked (free target)
    · rfl

theorem onward_congr (same : SameLinks t u) (follow : Location → String → Option Location) (l : Location)
    (name : String) : t.onward follow l name = u.onward follow l name := by
  by_cases linked : ∃ target, t.node? (l ++ [name]) = some (.link target)
  · obtain ⟨target, there⟩ := linked
    unfold onward
    rw [there, (same _ _).mp there]
  · have free : ∀ target, t.node? (l ++ [name]) ≠ some (.link target) := fun target there => linked ⟨target, there⟩
    rw [onward_free free, onward_free fun target there => free target ((same _ _).mpr there)]

theorem unlinked_congr (same : SameLinks t u) (depth : Nat) (l : Location) (names : List String) :
    t.unlinked depth l names = u.unlinked depth l names := by
  induction depth generalizing l names with
  | zero =>
    unfold unlinked
    rw [funext₂ (onward_congr same _)]
  | succ depth ih =>
    unfold unlinked
    rw [funext₂ (onward_congr same _)]
    simp only [ih]

theorem stepping_free (free : ∀ target, t.node? (l ++ [name]) ≠ some (.link target))
    (follow : Location → String → Location × Bool) :
    t.stepping follow l (name :: names) = t.stepping follow (beside l name) names := by
  rw [stepping, beside]
  split
  · rfl
  · split
    · rename_i target linked
      exact absurd linked (free target)
    · rfl

theorem stepping_congr (same : SameLinks t u) (follow : Location → String → Location × Bool) (l : Location)
    (names : List String) : t.stepping follow l names = u.stepping follow l names := by
  induction names generalizing l with
  | nil => rfl
  | cons name rest ih =>
    by_cases linked : ∃ target, t.node? (l ++ [name]) = some (.link target)
    · obtain ⟨target, there⟩ := linked
      simp only [stepping, there, (same _ _).mp there, ih]
    · have free : ∀ target, t.node? (l ++ [name]) ≠ some (.link target) := fun target there => linked ⟨target, there⟩
      rw [stepping_free free, stepping_free fun target there => free target ((same _ _).mpr there), ih]

theorem cutShort_congr (same : SameLinks t u) (depth : Nat) (inside : List Location) (l : Location)
    (names : List String) : t.cutShort depth inside l names = u.cutShort depth inside l names := by
  induction depth generalizing inside l names with
  | zero => rfl
  | succ depth ih =>
    unfold cutShort
    rw [stepping_congr same]
    simp only [ih]

-- Resolving looks at nothing but links.
theorem resolve_congr (here : u.here = t.here) (same : SameLinks t u) (p : FilePath) : u.resolve p = t.resolve p := by
  unfold resolve
  simp only [here, linkCount_congr same, unlinked_congr same, cutShort_congr same]

theorem Passes.congr (passes : Passes t l names m) (same : SameLinks t u) : Passes u l names m := by
  induction passes with
  | here => exact .here
  | up _ ih => exact .up ih
  | down notUp noLink _ ih => exact .down notUp (fun target there => noLink target ((same _ _).mpr there)) ih
  | link notUp there _ ih => exact .link notUp ((same _ _).mp there) ih

theorem Walked.stays (walked : Walked t true links l names m) (same : SameLinks t u)
    (there : t.node? m = some (.file content executable)) (still : u.node? m = some (.file content executable))
    (kept : ∀ k, Passes t l names k → t.node? k = some .directory → u.node? k = some .directory) :
    Walked u true links l names m := by
  induction walked with
  | nil => exact .nil
  | up here _ ih => exact .up (kept _ .here here) (ih there still fun k passes => kept k (.up passes))
  | @down _ _ _ _ names node here notUp fits below noLink rest ih =>
    have noLink' : ∀ target, t.node? _ ≠ some (.link target) := fun target linked =>
      noLink target (Option.some.inj (below.symm.trans linked))
    have onward := ih there still fun k passes => kept k (.down notUp noLink' passes)
    cases node with
    | link target => exact absurd rfl (noLink target)
    | directory =>
      exact .down (kept _ .here here) notUp fits (kept _ (.down notUp noLink' .here) below) noLink onward
    | file =>
      cases names with
      | nil =>
        cases rest
        exact .down (kept _ .here here) notUp fits still nofun .nil
      | cons next others => cases below.symm.trans rest.start
  | absent _ _ _ nothing => cases nothing.symm.trans there
  | unfollowed _ _ _ linked _ => cases linked.symm.trans there
  | link here notUp fits below followed _ ih =>
    exact .link (kept _ .here here) notUp fits ((same _ _).mp below) followed
      (ih there still fun k passes => kept k (.link notUp below passes))

theorem readText_same (before : t.locate true p = .ok m) (after : u.locate true p = .ok m)
    (still : u.node? m = t.node? m) : u.readText p = t.readText p := by
  unfold readText FileTree.read
  rw [before, after]
  simp only [bind, Except.bind, still]

theorem names_directory (there : t.isDirectory p = .ok true) : ∃ entries, t.names p = .ok entries := by
  obtain ⟨m, located, directory⟩ := isDirectory_located there
  refine ⟨t.children m, ?_⟩
  simp only [names, located, directory, bind, Except.bind]

theorem readText_refused {fault : FileFault} (there : t.isFile p = .ok true) (refused : t.readText p = .error fault) :
    ∃ cause, fault = .notText cause := by
  obtain ⟨m, content, executable, located, file⟩ := isFile_located there
  simp only [readText, FileTree.read, located, file, bind, Except.bind] at refused
  split at refused
  · cases refused
  · cases refused
    exact ⟨_, rfl⟩

theorem isFile_leads (here : u.here = t.here) (same : SameLinks t u) (asked : u.isFile p = .ok true) :
    ∃ m, LeadsTo t p m ∧ u.locate true p = .ok m ∧ ∃ content executable, u.node? m = some (.file content executable) := by
  obtain ⟨m, content, executable, found, there⟩ := isFile_located asked
  have leads : Leads u (base u.here p) p.names m := (locate_ok_iff.mp found).2.leads fun target linked => by
    rw [there] at linked
    cases linked
  rw [here] at leads
  exact ⟨m, leads.congr same.symm, found, content, executable, there⟩

theorem isFile_of_located (found : t.locate true p = .ok m) (there : t.node? m = some (.file content executable)) :
    t.isFile p = .ok true := by
  unfold isFile probe
  rw [found]
  simp only [Except.map, there]
  rfl

theorem locate_stays (here : u.here = t.here) (same : SameLinks t u) (found : t.locate true p = .ok m)
    (there : t.node? m = some (.file content executable)) (still : u.node? m = some (.file content executable))
    (kept : ∀ k, GoesOver t p k → t.node? k = some .directory → u.node? k = some .directory) :
    u.locate true p = .ok m := by
  obtain ⟨noNul, walked⟩ := locate_ok_iff.mp found
  refine locate_ok_iff.mpr ⟨noNul, ?_⟩
  rw [here]
  exact walked.stays same there still kept

end AbiBuild.FileTree
