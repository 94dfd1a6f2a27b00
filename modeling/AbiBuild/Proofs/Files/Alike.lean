import AbiBuild.Proofs.Files.Deposits

namespace AbiBuild.FileTree
open AbiBuild.Text

-- A path leads to the same directory in both trees, and below one name there they are the same.
structure Alike (p : FilePath) (l : Location) (a : String) (t u : FileTree) : Prop where
  left : Stands t p l
  leftClear : Clear t l
  right : Stands u p l
  rightClear : Clear u l
  same : SameAt (l ++ [a]) t u

-- Two trees that come of two alike ones.
structure Parallel (p : FilePath) (l : Location) (a : String) (t t' u' : FileTree) : Prop where
  alike : Alike p l a t' u'
  changes : Changes (l ++ [a]) nowhere t t'

inductive Together (p : FilePath) (l : Location) (a : String) (t : FileTree) :
    Except FileFault FileTree → Except FileFault FileTree → Prop
  | refused (fault : FileFault) : Together p l a t (.error fault) (.error fault)
  | done (parallel : Parallel p l a t t' u') : Together p l a t (.ok t') (.ok u')

structure Abreast (p : FilePath) (l : Location) (a : String) (t : FileTree) (r s : Trail) : Prop where
  fault : r.fault = s.fault
  parallel : Parallel p l a t r.tree s.tree

-- A file or a directory, at a path of plain names that goes on from one name.
def Inside (p : FilePath) (a : String) (item : FilePath × Node) : Prop :=
  ∃ names node, item = (p.under (a :: names), node) ∧ names ≠ [] ∧ (∀ name ∈ names, Plain name) ∧
    ∀ target, node ≠ .link target

variable {t u t' u' : FileTree} {p : FilePath} {l : Location} {a : String} {names rest : List String}
  {rule : Rule} {followLast allowThere : Bool} {r s : Trail} {content : Bytes} {executable : Bool}
  {operation : FileTree → Except FileFault FileTree} {item : FilePath × Node}

theorem Alike.refl (stands : Stands t p l) (clear : Clear t l) : Alike p l a t t :=
  ⟨stands, clear, stands, clear, fun _ => rfl⟩

theorem Alike.parallel (alike : Alike p l a t u) : Parallel p l a t t u := ⟨alike, .refl _ _ _⟩

theorem Parallel.trans {t'' u'' : FileTree} (first : Parallel p l a t t' u')
    (second : Parallel p l a t' t'' u'') : Parallel p l a t t'' u'' :=
  ⟨second.alike, first.changes.trans second.changes⟩

theorem hosts_of_stands (stands : Stands t p l) (clear : Clear t l) : Hosts t p l :=
  fun _ leads => ⟨Leads.deterministic leads stands.leadsTo, clear⟩

theorem Alike.moved {b : String} (alike : Alike p l a t u) (changes : Changes (l ++ [b]) nowhere t t')
    (apart : b ≠ a) : Alike p l a t' u := by
  refine ⟨changes.stands alike.left, alike.leftClear.congr changes.links, alike.right, alike.rightClear,
    fun names => ?_⟩
  have outside : ¬ l ++ [b] <+: l ++ [a] ++ names := by
    rw [List.append_assoc, List.prefix_append_right_inj]
    simpa using apart
  rcases changes.elsewhere _ outside with same | ⟨impossible, _⟩
  · rw [same]
    exact alike.same names
  · exact impossible.elim

theorem Alike.leftHosts (alike : Alike p l a t u) : Hosts t p l := hosts_of_stands alike.left alike.leftClear

theorem Alike.rightHosts (alike : Alike p l a t u) : Hosts u p l :=
  hosts_of_stands alike.right alike.rightClear

theorem Alike.locate (alike : Alike p l a t u) (plain : ∀ name ∈ a :: names, name ≠ "..") :
    t.locate followLast (p.under (a :: names)) = u.locate followLast (p.under (a :: names)) := by
  rw [locate_under alike.left alike.leftClear plain (by simp),
    locate_under alike.right alike.rightClear plain (by simp)]
  unfold reach
  have here : t.node? l = u.node? l := alike.left.directory.trans alike.right.directory.symm
  rw [descend_congr_below here alike.same]

theorem Alike.node? (alike : Alike p l a t u) (names : List String) :
    t.node? (l ++ a :: names) = u.node? (l ++ a :: names) := by
  have inside := alike.same names
  rwa [List.append_assoc] at inside

theorem Alike.probe (alike : Alike p l a t u) (plain : ∀ name ∈ a :: names, name ≠ "..") :
    t.probe (p.under (a :: names)) = u.probe (p.under (a :: names)) := by
  unfold FileTree.probe
  rw [← alike.locate plain]
  cases found : t.locate true (p.under (a :: names)) with
  | error fault =>
    cases fault with
    | system refusal shown => cases refusal <;> rfl
    | _ => rfl
  | ok m =>
    obtain ⟨rfl, _⟩ := located alike.leftHosts plain (by simp) found
    simp only [alike.node?]

theorem Alike.isFile (alike : Alike p l a t u) (plain : ∀ name ∈ a :: names, name ≠ "..") :
    t.isFile (p.under (a :: names)) = u.isFile (p.under (a :: names)) := by
  unfold FileTree.isFile
  rw [alike.probe plain]

theorem Alike.isDirectory (alike : Alike p l a t u) (plain : ∀ name ∈ a :: names, name ≠ "..") :
    t.isDirectory (p.under (a :: names)) = u.isDirectory (p.under (a :: names)) := by
  unfold FileTree.isDirectory
  rw [alike.probe plain]

theorem Alike.readText (alike : Alike p l a t u) (plain : ∀ name ∈ a :: names, name ≠ "..") :
    t.readText (p.under (a :: names)) = u.readText (p.under (a :: names)) := by
  have bytes : t.read (p.under (a :: names)) = u.read (p.under (a :: names)) := by
    unfold read
    rw [← alike.locate plain]
    cases found : t.locate true (p.under (a :: names)) with
    | error fault => rfl
    | ok m =>
      obtain ⟨rfl, _⟩ := located alike.leftHosts plain (by simp) found
      simp only [bind, Except.bind, alike.node?]
  unfold FileTree.readText
  rw [bytes]

theorem amend_together (mild : rule.Mild) (alike : Alike p l a t u)
    (plain : ∀ name ∈ a :: names, name ≠ "..") :
    Together p l a t (t.amend followLast (p.under (a :: names)) rule)
      (u.amend followLast (p.under (a :: names)) rule) := by
  have inside : [a] <+: a :: names := List.prefix_append [a] names
  cases found : t.locate followLast (p.under (a :: names)) with
  | error fault =>
    have other := (alike.locate plain).symm.trans found
    unfold amend
    rw [found, other]
    exact .refused fault
  | ok m =>
    obtain ⟨rfl, place⟩ := located alike.leftHosts plain (by simp) found
    have other := (alike.locate plain).symm.trans found
    cases decided : rule (t.node? (l ++ a :: names)) with
    | error refusal =>
      unfold amend
      simp only [found, other, bind, Except.bind, ← alike.node?, decided]
      exact .refused _
    | ok new =>
      have left : t.amend followLast (p.under (a :: names)) rule =
          .ok (t.replace (l ++ a :: names) new) := by
        simp only [amend, found, bind, Except.bind, decided]
      have right : u.amend followLast (p.under (a :: names)) rule =
          .ok (u.replace (l ++ a :: names) new) := by
        simp only [amend, other, bind, Except.bind, ← alike.node?, decided]
      have changes : Changes (l ++ [a]) nowhere t (t.replace (l ++ a :: names) new) :=
        amend_changes mild alike.leftHosts plain (by simp) inside left
      have changes' : Changes (l ++ [a]) nowhere u (u.replace (l ++ a :: names) new) :=
        amend_changes mild alike.rightHosts plain (by simp) inside right
      rw [left, right]
      refine .done ⟨⟨changes.stands alike.left, alike.leftClear.congr changes.links,
        changes'.stands alike.right, alike.rightClear.congr changes'.links, fun more => ?_⟩, changes⟩
      rw [node?_replace place.nonempty, node?_replace place.nonempty, alike.same more]

theorem unlinkIfThere_together (alike : Alike p l a t u) (plain : ∀ name ∈ a :: names, name ≠ "..") :
    Together p l a t (t.unlinkIfThere (p.under (a :: names)))
      (u.unlinkIfThere (p.under (a :: names))) := by
  have own : Together p l a t (t.unlink (p.under (a :: names))) (u.unlink (p.under (a :: names))) := by
    rw [unlink_eq, unlink_eq]
    exact amend_together unlinkRule_mild alike plain
  unfold unlinkIfThere
  generalize t.unlink (p.under (a :: names)) = x at own ⊢
  generalize u.unlink (p.under (a :: names)) = y at own ⊢
  cases own with
  | done parallel => exact .done parallel
  | refused fault =>
    cases fault with
    | system refusal shown =>
      cases refusal with
      | noEntry => exact .done alike.parallel
      | _ => exact .refused _
    | _ => exact .refused _

theorem write_together (alike : Alike p l a t u) (plain : ∀ name ∈ a :: names, name ≠ "..")
    (content : Bytes) : Together p l a t (t.write (p.under (a :: names)) content)
      (u.write (p.under (a :: names)) content) := by
  rw [write_eq, write_eq]
  exact amend_together (writeRule_mild content) alike plain

theorem makeDirectoryOr_together (alike : Alike p l a t u) (plain : ∀ name ∈ a :: names, name ≠ "..") :
    Together p l a t (makeDirectoryOr allowThere t (p.under (a :: names)))
      (makeDirectoryOr allowThere u (p.under (a :: names))) := by
  have own : Together p l a t (t.makeDirectory (p.under (a :: names)))
      (u.makeDirectory (p.under (a :: names))) := by
    rw [makeDirectory_eq, makeDirectory_eq]
    exact amend_together makeRule_mild alike plain
  unfold makeDirectoryOr
  rw [← alike.isDirectory plain]
  generalize t.makeDirectory (p.under (a :: names)) = x at own ⊢
  generalize u.makeDirectory (p.under (a :: names)) = y at own ⊢
  cases own with
  | done parallel => exact .done parallel
  | refused fault =>
    cases fault with
    | system refusal shown =>
      cases there : t.isDirectory (p.under (a :: names)) with
      | error fault =>
        cases refusal with
        | noEntry => exact .refused _
        | _ => exact .refused _
      | ok answer =>
        cases refusal with
        | noEntry => exact .refused _
        | _ =>
          simp only [bind, Except.bind]
          cases allowThere && answer with
          | true => exact .done alike.parallel
          | false => exact .refused _
    | _ => exact .refused _

theorem Abreast.start (alike : Alike p l a t u) : Abreast p l a t (.start t) (.start u) :=
  ⟨rfl, alike.parallel⟩

theorem Abreast.next (abreast : Abreast p l a t r s)
    (together : ∀ {t' u'}, Alike p l a t' u' → Together p l a t' (operation t') (operation u')) :
    Abreast p l a t (r.next operation) (s.next operation) := by
  obtain ⟨fault, parallel⟩ := abreast
  cases failed : r.fault with
  | some cause =>
    rw [Trail.next_fault failed, Trail.next_fault (fault.symm.trans failed)]
    exact ⟨fault, parallel⟩
  | none =>
    have own := together parallel.alike
    cases left : operation r.tree with
    | error cause =>
      rw [left] at own
      cases right : operation s.tree with
      | ok u' =>
        rw [right] at own
        cases own
      | error cause' =>
        rw [right] at own
        cases own
        rw [Trail.next_error failed left, Trail.next_error (fault.symm.trans failed) right]
        exact ⟨rfl, parallel⟩
    | ok t' =>
      rw [left] at own
      cases right : operation s.tree with
      | error cause =>
        rw [right] at own
        cases own
      | ok u' =>
        rw [right] at own
        cases own with
        | done further =>
          rw [Trail.next_ok failed left, Trail.next_ok (fault.symm.trans failed) right]
          exact ⟨rfl, parallel.trans further⟩

theorem Abreast.series {operations : List (FileTree → Except FileFault FileTree)}
    (together : ∀ operation ∈ operations, ∀ {t' u'}, Alike p l a t' u' →
      Together p l a t' (operation t') (operation u'))
    (abreast : Abreast p l a t r s) :
    Abreast p l a t (operations.foldl Trail.next r) (operations.foldl Trail.next s) := by
  induction operations generalizing r s with
  | nil => exact abreast
  | cons first rest ih =>
    have onward := abreast.next fun alike => together first (by simp) alike
    exact ih (fun operation member => together operation (List.mem_cons_of_mem _ member)) onward

theorem makeDirectoryOr_top {shown : String} (stands : Stands t p l) (clear : Clear t l)
    (notUp : a ≠ "..") : makeDirectoryOr allowThere t (p.under [a]) ≠ .error (.system .noEntry shown) := by
  intro ran
  have refused := makeDirectoryOr_noEntry ran
  have plain : ∀ name ∈ [a], name ≠ ".." := by simpa using notUp
  unfold makeDirectory at refused
  rw [locate_under stands clear plain (by simp)] at refused
  unfold reach descend at refused
  rw [stands.directory] at refused
  split at refused
  · cases refused
  · by_cases long : maxNameSize < a.utf8ByteSize
    · simp only [long, if_true] at refused
      cases refused
    · simp only [long, if_false] at refused
      cases there : t.node? (l ++ [a]) with
      | none =>
        simp only [there, List.isEmpty_nil, if_true, bind, Except.bind] at refused
        cases refused
      | some node =>
        simp only [there, descend, bind, Except.bind] at refused
        cases refused

theorem under_take (p : FilePath) (a : String) (names : List String) (count : Nat) :
    (⟨p.root, (p.under (a :: names)).names.take (p.names.length + 1 + count)⟩ : FilePath) =
      p.under (a :: names.take count) := by
  have cut : (p.names ++ a :: names).take (p.names.length + 1 + count) =
      p.names ++ a :: names.take count := by
    rw [List.take_append, List.take_of_length_le (by omega),
      show p.names.length + 1 + count - p.names.length = count + 1 by omega, List.take_succ_cons]
  unfold FilePath.under
  rw [cut]

theorem Together.makeDirectories {root : Root} {count : Nat} (alike : Alike p l a t u)
    (own : Together p l a t (makeDirectoryOr allowThere t ⟨root, names.take count⟩)
      (makeDirectoryOr allowThere u ⟨root, names.take count⟩))
    (above : ∀ shown, makeDirectoryOr allowThere t ⟨root, names.take count⟩ = .error (.system .noEntry shown) →
      makeDirectoryOr allowThere u ⟨root, names.take count⟩ = .error (.system .noEntry shown) →
      Abreast p l a t (makeDirectories t root names allowThere count) (makeDirectories u root names allowThere count)) :
    Abreast p l a t (makeDirectories t root names allowThere count)
      (makeDirectories u root names allowThere count) := by
  generalize left : makeDirectoryOr allowThere t ⟨root, names.take count⟩ = x at own above
  generalize right : makeDirectoryOr allowThere u ⟨root, names.take count⟩ = y at own above
  cases own with
  | done parallel =>
    rw [makeDirectories_made left, makeDirectories_made right]
    exact ⟨rfl, parallel⟩
  | refused fault =>
    by_cases missing : ∃ shown, fault = .system .noEntry shown
    · obtain ⟨shown, rfl⟩ := missing
      exact above shown rfl rfl
    · have other : ∀ shown, fault ≠ .system .noEntry shown := fun shown same => missing ⟨shown, same⟩
      rw [makeDirectories_failed left other, makeDirectories_failed right other]
      exact ⟨rfl, alike.parallel⟩

theorem makeDirectories_abreast (alike : Alike p l a t u) (plain : ∀ name ∈ a :: names, name ≠ "..")
    (count : Nat) : Abreast p l a t
      (makeDirectories t p.root (p.under (a :: names)).names allowThere (p.names.length + 1 + count))
      (makeDirectories u p.root (p.under (a :: names)).names allowThere (p.names.length + 1 + count)) := by
  have upward : ∀ count, ∀ name ∈ a :: names.take count, name ≠ ".." := by
    intro count name member
    rcases List.mem_cons.mp member with rfl | inRest
    · exact plain _ (by simp)
    · exact plain name (List.mem_cons_of_mem _ (List.mem_of_mem_take inRest))
  have own : ∀ count allowThere {t u}, Alike p l a t u → Together p l a t
      (makeDirectoryOr allowThere t
        ⟨p.root, (p.under (a :: names)).names.take (p.names.length + 1 + count)⟩)
      (makeDirectoryOr allowThere u
        ⟨p.root, (p.under (a :: names)).names.take (p.names.length + 1 + count)⟩) := by
    intro count allowThere t u alike
    rw [under_take]
    exact makeDirectoryOr_together alike (upward count)
  -- Induction on the names below the one that is shared. Nothing above is ever made, for it stands.
  induction count generalizing allowThere with
  | zero =>
    refine (own 0 allowThere alike).makeDirectories alike fun shown missing _ => ?_
    rw [under_take, List.take_zero] at missing
    exact absurd missing (makeDirectoryOr_top alike.left alike.leftClear (plain a (by simp)))
  | succ count ih =>
    refine (own (count + 1) allowThere alike).makeDirectories alike fun shown left right => ?_
    rw [makeDirectories_again (Nat.add_assoc _ count 1).symm left,
      makeDirectories_again (Nat.add_assoc _ count 1).symm right]
    exact ih.next fun alike => own (count + 1) allowThere alike

theorem ensureDirectory_abreast (alike : Alike p l a t u) (plain : ∀ name ∈ a :: names, name ≠ "..") :
    Abreast p l a t (t.ensureDirectory (p.under (a :: names))) (u.ensureDirectory (p.under (a :: names))) := by
  have length : (p.under (a :: names)).names.length = p.names.length + 1 + names.length := by
    simp only [FilePath.under, List.length_append, List.length_cons]
    omega
  unfold ensureDirectory
  rw [length]
  exact makeDirectories_abreast alike plain names.length

def settleRule (content : Bytes) (executable : Bool) : Rule
  | some .directory => .error .isDirectory
  | _ => .ok (some (.file content executable))

theorem settleRule_mild (content : Bytes) (executable : Bool) : (settleRule content executable).Mild := by
  intro old new ran
  unfold settleRule at ran
  split at ran
  · cases ran
  · rename_i notDirectory
    cases ran
    exact ⟨notDirectory, by simp⟩

theorem settle_eq (q : FilePath) : t.settle q (.file content executable) =
    match t.amend true q (settleRule content executable) with
    | .ok after => after
    | .error _ => t := by
  unfold settle amend
  cases t.locate true q with
  | error fault => rfl
  | ok m =>
    simp only [bind, Except.bind]
    cases t.node? m with
    | none => rfl
    | some node => cases node <;> rfl

theorem settle_parallel (alike : Alike p l a t u) (plain : ∀ name ∈ a :: names, name ≠ "..") {node : Node}
    (noLink : ∀ target, node ≠ .link target) :
    Parallel p l a t (t.settle (p.under (a :: names)) node) (u.settle (p.under (a :: names)) node) := by
  cases node with
  | directory => exact (ensureDirectory_abreast alike plain).parallel
  | link target => exact absurd rfl (noLink target)
  | file content executable =>
    have own : Together p l a t
        (t.amend true (p.under (a :: names)) (settleRule content executable))
        (u.amend true (p.under (a :: names)) (settleRule content executable)) :=
      amend_together (settleRule_mild content executable) alike plain
    rw [settle_eq, settle_eq]
    generalize t.amend true (p.under (a :: names)) (settleRule content executable) = x at own ⊢
    generalize u.amend true (p.under (a :: names)) (settleRule content executable) = y at own ⊢
    cases own with
    | done parallel => exact parallel
    | refused fault => exact alike.parallel

theorem deposit_parallel (alike : Alike p l a t u) (notUp : a ≠ "..") (inside : Inside p a item) :
    Parallel p l a t (t.deposit item) (u.deposit item) := by
  obtain ⟨names, node, rfl, nonempty, plain, noLink⟩ := inside
  have upward : ∀ name ∈ a :: names, name ≠ ".." := by
    intro name member
    rcases List.mem_cons.mp member with rfl | inRest
    · exact notUp
    · exact (plain name inRest).2.2.1
  have above : ∀ name ∈ a :: names.dropLast, name ≠ ".." := by
    intro name member
    rcases List.mem_cons.mp member with rfl | inRest
    · exact notUp
    · exact (plain name (List.dropLast_subset _ inRest)).2.2.1
  rw [deposit_eq (by simp), deposit_eq (by simp), List.dropLast_cons_of_ne_nil nonempty]
  have made := (ensureDirectory_abreast alike above).parallel
  exact made.trans (settle_parallel made.alike upward noLink)

theorem depositAll_parallel {items : List (FilePath × Node)} (alike : Alike p l a t u) (notUp : a ≠ "..")
    (inside : ∀ item ∈ items, Inside p a item) :
    Parallel p l a t (t.depositAll items) (u.depositAll items) := by
  induction items generalizing t u with
  | nil => exact alike.parallel
  | cons item rest ih =>
    have first := deposit_parallel alike notUp (inside item (by simp))
    exact first.trans (ih first.alike fun other member => inside other (List.mem_cons_of_mem _ member))

end AbiBuild.FileTree
