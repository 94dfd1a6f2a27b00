import AbiBuild.Proofs.Config.Accepted
import AbiBuild.Proofs.Files.Removal
import AbiBuild.Proofs.Files.Resolving

namespace AbiBuild.FileTree

structure Relisted (t u : FileTree) : Prop where
  here : u.here = t.here
  node? : ∀ l, u.node? l = t.node? l

variable {t u : FileTree} {p : FilePath} {l : Location} {name : String} {entries : List String}

theorem Relisted.refl (t : FileTree) : Relisted t t := ⟨rfl, fun _ => rfl⟩

theorem find?_entry {entries : List (Location × Node)} (nodup : (entries.map Prod.fst).Nodup) {node : Node} :
    (entries.find? fun e => e.1 = l).map Prod.snd = some node ↔ (l, node) ∈ entries := by
  induction entries with
  | nil => simp
  | cons e rest ih =>
    rw [List.map_cons, List.nodup_cons] at nodup
    by_cases here : e.1 = l
    · have absent : (l, node) ∉ rest := fun member => nodup.1 (here ▸ List.mem_map_of_mem (f := Prod.fst) member)
      subst here
      simp only [List.find?_cons, decide_true, Option.map_some, Option.some.injEq, List.mem_cons, absent, or_false]
      exact ⟨fun same => by rw [← same], fun same => by rw [← same]⟩
    · have other : (l, node) ≠ e := fun same => here (by rw [← same])
      simp only [List.find?_cons, here, decide_false, List.mem_cons, other, false_or]
      exact ih nodup.2

theorem relisted_of_perm (here : u.here = t.here) (nodup : (t.entries.map Prod.fst).Nodup)
    (perm : u.entries.Perm t.entries) : Relisted t u := by
  refine ⟨here, fun l => ?_⟩
  have nodup' : (u.entries.map Prod.fst).Nodup := (perm.map Prod.fst).nodup_iff.mpr nodup
  unfold FileTree.node?
  split
  · rfl
  · refine Option.ext fun node => ?_
    rw [find?_entry nodup, find?_entry nodup']
    exact perm.mem_iff

theorem Relisted.advance (same : Relisted t u) (followLast : Bool) (l : Location) (names : List String) :
    u.advance followLast l names = t.advance followLast l names := by
  induction names generalizing l with
  | nil => rfl
  | cons name rest ih => simp only [FileTree.advance, same.node?, ih]

theorem Relisted.walk (same : Relisted t u) (followLast : Bool) (links : Nat) (l : Location) (names : List String) :
    u.walk followLast links l names = t.walk followLast links l names := by
  induction links generalizing l names with
  | zero => unfold FileTree.walk; rw [same.advance]
  | succ links ih =>
    unfold FileTree.walk
    rw [same.advance]
    split
    · rfl
    · rfl
    · exact ih _ _

theorem Relisted.locate (same : Relisted t u) (followLast : Bool) (p : FilePath) :
    u.locate followLast p = t.locate followLast p := by
  unfold FileTree.locate
  rw [same.here, same.walk]

theorem Relisted.isDirectory (same : Relisted t u) (p : FilePath) : u.isDirectory p = t.isDirectory p := by
  unfold FileTree.isDirectory FileTree.probe
  rw [same.locate]
  simp only [same.node?]

theorem Relisted.mem_children (same : Relisted t u) : name ∈ u.children l ↔ name ∈ t.children l := by
  rw [FileTree.mem_children, FileTree.mem_children, same.node?]

-- The names of a directory stay the same, in whatever order they come.
theorem Relisted.names (same : Relisted t u) (lists : t.names p = .ok entries) :
    ∃ others, u.names p = .ok others ∧ ∀ name, name ∈ others ↔ name ∈ entries := by
  unfold FileTree.names at lists ⊢
  rw [same.locate]
  obtain ⟨m, located, lists⟩ := bind_ok lists
  rw [located]
  simp only [bind, Except.bind, same.node?]
  cases node : t.node? m with
  | none =>
    rw [node] at lists
    cases lists
  | some node' =>
    rw [node] at lists
    cases node' with
    | directory =>
      cases lists
      exact ⟨_, rfl, fun name => same.mem_children⟩
    | file content executable => cases lists
    | link target => cases lists

end AbiBuild.FileTree
