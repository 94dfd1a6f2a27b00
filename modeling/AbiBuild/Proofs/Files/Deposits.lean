import AbiBuild.Proofs.Files.Single
import AbiBuild.FileTree.Deposit

namespace AbiBuild.FileTree
open AbiBuild.Text

def Below (p : FilePath) (item : FilePath × Node) : Prop :=
  ∃ names content executable, item = (p.under names, .file content executable) ∧ names ≠ [] ∧
    ∀ name ∈ names, Plain name

def lastWrite (items : List (FilePath × Node)) (p : FilePath) : Option Node :=
  ((items.filter fun item => item.1 = p).getLast?).map Prod.snd

def everywhere : Location → Prop := fun _ => True

variable {t u : FileTree} {l m : Location} {made : Location → Prop} {p q : FilePath} {node : Node}
  {names region : List String} {content : Bytes} {executable : Bool}
  {items : List (FilePath × Node)} {item : FilePath × Node}

theorem notUp_of_plain (plain : ∀ name ∈ names, Plain name) : ∀ name ∈ names, name ≠ ".." :=
  fun name member => (plain name member).2.2.1

theorem Below.above (below : Below (p.under region) item) (plain : ∀ name ∈ region, Plain name) :
    Below p item := by
  obtain ⟨names, content, executable, rfl, nonempty, own⟩ := below
  refine ⟨region ++ names, content, executable, by rw [FilePath.under_under], by simp [nonempty], ?_⟩
  intro name member
  rcases List.mem_append.mp member with inRegion | inNames
  · exact plain name inRegion
  · exact own name inNames

theorem lastWrite_snoc : lastWrite (items ++ [item]) p =
    if item.1 = p then some item.2 else lastWrite items p := by
  unfold lastWrite
  rw [List.filter_append]
  split
  · rename_i same
    simp [same]
  · rename_i other
    simp [other]

theorem ensureDirectory_file (wellFormed : t.WellFormed) (absolute : p.root ≠ .relative) :
    (t.ensureDirectory p).tree.node? m = some (.file content executable) ↔
      t.node? m = some (.file content executable) := by
  have changes := ensureDirectory_changes wellFormed absolute (m ++ [""])
  refine changes.file fun prefix_ => ?_
  have longer := prefix_.length_le
  simp only [List.length_append, List.length_singleton] at longer
  omega

theorem settle_parts (hosts : Hosts t p l) (plain : ∀ name ∈ names, name ≠ "..") (nonempty : names ≠ [])
    (content : Bytes) (executable : Bool) :
    t.settle (p.under names) (.file content executable) = t ∨
      Located t p l names ∧ Nameable names ∧ t.node? (l ++ names) ≠ some .directory ∧
        t.settle (p.under names) (.file content executable) =
          t.put (l ++ names) (.file content executable) := by
  unfold settle
  cases found : t.locate true (p.under names) with
  | error fault => exact .inl rfl
  | ok m =>
    obtain ⟨rfl, place⟩ := located hosts plain nonempty found
    have nameable := locate_nameable place.stands place.clear plain nonempty found
    simp only
    split
    · exact .inl rfl
    · rename_i notDirectory
      refine .inr ⟨place, nameable, ?_, rfl⟩
      intro directory
      simp [directory, Node.isDirectory] at notDirectory

theorem settle_changes (hosts : Hosts t p l) (plain : ∀ name ∈ names, name ≠ "..") (nonempty : names ≠ [])
    (inside : region <+: names) (content : Bytes) (executable : Bool) :
    Changes (l ++ region) made t (t.settle (p.under names) (.file content executable)) := by
  rcases settle_parts hosts plain nonempty content executable with same | ⟨place, _, notDirectory, same⟩
  · rw [same]
    exact .refl _ _ _
  · rw [same]
    have below : l ++ region <+: l ++ names := (List.prefix_append_right_inj l).mpr inside
    exact changes_put below place.nonempty place.parent notDirectory (place.noLink nonempty) (by simp)

theorem deposit_eq (nonempty : names ≠ []) :
    t.deposit (p.under names, node) =
      (t.ensureDirectory (p.under names.dropLast)).tree.settle (p.under names) node := by
  obtain ⟨front, last, rfl⟩ : ∃ front last, names = front ++ [last] :=
    ⟨_, _, (List.dropLast_concat_getLast nonempty).symm⟩
  unfold deposit
  rw [FilePath.parent_under, List.dropLast_concat]

theorem ensured_changes (wellFormed : t.WellFormed) (absolute : p.root ≠ .relative)
    (names : List String) (l : Location) :
    Changes l everywhere t (t.ensureDirectory (p.under names)).tree := by
  have absolute' : (p.under names).root ≠ .relative := absolute
  exact (ensureDirectory_changes wellFormed absolute' l).mono fun _ _ => trivial

theorem deposit_changes (wellFormed : t.WellFormed) (absolute : p.root ≠ .relative)
    (hosts : Hosts t p l) (upward : ∀ name ∈ region, name ≠ "..") (below : Below (p.under region) item) :
    Changes (l ++ region) everywhere t (t.deposit item) := by
  obtain ⟨names, content, executable, rfl, nonempty, plain⟩ := below
  have whole : region ++ names ≠ [] := by simp [nonempty]
  have notUp : ∀ name ∈ region ++ names, name ≠ ".." := by
    intro name member
    rcases List.mem_append.mp member with inRegion | inNames
    · exact upward name inRegion
    · exact notUp_of_plain plain name inNames
  rw [FilePath.under_under, deposit_eq whole]
  have made := ensured_changes wellFormed absolute (region ++ names).dropLast (l ++ region)
  exact made.trans (settle_changes (made.hosts hosts) notUp whole (List.prefix_append _ _) _ _)

theorem depositAll_changes (wellFormed : t.WellFormed) (absolute : p.root ≠ .relative)
    (hosts : Hosts t p l) (upward : ∀ name ∈ region, name ≠ "..")
    (below : ∀ item ∈ items, Below (p.under region) item) :
    Changes (l ++ region) everywhere t (t.depositAll items) := by
  induction items generalizing t with
  | nil => exact .refl _ _ _
  | cons item rest ih =>
    have first := deposit_changes wellFormed absolute hosts upward (below item (by simp))
    exact first.trans (ih (first.wellFormed wellFormed) (first.hosts hosts)
      fun other member => below other (List.mem_cons_of_mem _ member))

theorem depositAll_snoc : t.depositAll (items ++ [item]) = (t.depositAll items).deposit item := by
  simp [depositAll]

theorem notUp_append {more : List String} (first : ∀ name ∈ names, name ≠ "..")
    (second : ∀ name ∈ more, name ≠ "..") : ∀ name ∈ names ++ more, name ≠ ".." := by
  intro name member
  rcases List.mem_append.mp member with inNames | inMore
  · exact first name inNames
  · exact second name inMore

theorem settle_there (stands : Stands t p l) (clear : Clear t l) (wellFormed : t.WellFormed)
    (plain : ∀ name ∈ names, name ≠ "..") (nonempty : names ≠ []) (nameable : Nameable names)
    {old : Bytes} {oldExecutable : Bool}
    (there : t.node? (l ++ names) = some (.file old oldExecutable)) (content : Bytes)
    (executable : Bool) : (t.settle (p.under names) (.file content executable)).node? (l ++ names) =
      some (.file content executable) := by
  unfold settle
  rw [locate_there stands clear wellFormed plain nonempty nameable there]
  simp only [there, Option.any, Node.isDirectory, if_false, Bool.false_eq_true]
  exact node?_put_self t (by simp [nonempty]) _

theorem depositAll_last (wellFormed : t.WellFormed) (absolute : p.root ≠ .relative)
    (hosts : Hosts t p l) (plain : ∀ name ∈ names, name ≠ "..") (nonempty : names ≠ [])
    (below : ∀ item ∈ items, Below p item)
    (fresh : ∀ content executable, t.node? (l ++ names) ≠ some (.file content executable)) :
    ∀ content executable,
      (t.depositAll items).node? (l ++ names) = some (.file content executable) →
      lastWrite items (p.under names) = some (.file content executable) ∧ Nameable names ∧
        Stands (t.depositAll items) p l := by
  -- Induction on the items from the last one on. Besides the content, the induction carries that the place
  -- can be found from its first file on, so that no later item with its path is left out.
  induction items using List.reverseRecOn with
  | nil => exact fun content executable there => absurd there (fresh content executable)
  | append_singleton items item ih =>
    intro content executable there
    have earlier : ∀ item ∈ items, Below p item := fun other member =>
      below other (List.mem_append_left _ member)
    obtain ⟨own, newContent, newExecutable, rfl, ownNonempty, ownPlain⟩ := below item (by simp)
    have ownUp := notUp_of_plain ownPlain
    have before : Changes (l ++ []) everywhere t (t.depositAll items) :=
      depositAll_changes wellFormed absolute hosts (by simp) (by simpa [FilePath.under_nil] using earlier)
    have prior := ih earlier
    rw [depositAll_snoc, deposit_eq ownNonempty] at there
    rw [depositAll_snoc, deposit_eq ownNonempty, lastWrite_snoc]
    clear ih
    generalize t.depositAll items = s at prior before there ⊢
    have sound := before.wellFormed wellFormed
    have made := ensured_changes sound absolute own.dropLast (l ++ [])
    have file : ∀ content executable,
        (s.ensureDirectory (p.under own.dropLast)).tree.node? (l ++ names) =
          some (.file content executable) → s.node? (l ++ names) = some (.file content executable) :=
      fun content executable =>
        (ensureDirectory_file sound (show (p.under own.dropLast).root ≠ .relative from absolute)).mp
    have hosts' := made.hosts (before.hosts hosts)
    have sound' := made.wellFormed sound
    have settled : Changes (l ++ []) nowhere (s.ensureDirectory (p.under own.dropLast)).tree _ :=
      settle_changes hosts' ownUp ownNonempty List.nil_prefix newContent newExecutable
    generalize (s.ensureDirectory (p.under own.dropLast)).tree = s' at *
    by_cases same : own = names
    · subst same
      rw [if_pos rfl]
      rcases settle_parts hosts' ownUp ownNonempty newContent newExecutable with out | ⟨place, nameable, _, put⟩
      · -- Left out although a file of an earlier item is there: that cannot be.
        rw [out] at there
        obtain ⟨_, nameable, stands⟩ := prior _ _ (file _ _ there)
        obtain ⟨stands', clear⟩ := hosts'.stands (made.stands stands)
        have written := settle_there stands' clear sound' ownUp ownNonempty nameable there
          newContent newExecutable
        rw [out, there] at written
        exact ⟨written.symm, nameable, settled.stands stands'⟩
      · rw [put, node?_put_self _ place.nonempty] at there
        exact ⟨there, nameable, settled.stands place.stands⟩
    · rw [if_neg fun equal => same (FilePath.under_inj equal)]
      have there' : s'.node? (l ++ names) = some (.file content executable) := by
        rcases settle_parts hosts' ownUp ownNonempty newContent newExecutable with out | ⟨place, _, _, put⟩
        · rwa [out] at there
        · rw [put, node?_put_of_ne] at there
          · exact there
          · exact fun equal => same (List.append_cancel_left equal).symm
      obtain ⟨last, nameable, stands⟩ := prior _ _ (file _ _ there')
      exact ⟨last, nameable, settled.stands (made.stands stands)⟩

end AbiBuild.FileTree
