import AbiBuild.Proofs.Files.Single

namespace AbiBuild.FileTree
open AbiBuild.Text

variable {t u : FileTree} {l : Location} {p : FilePath} {names : List String} {followLast allowThere : Bool}
  {fault : FileFault} {content : Bytes} {executable : Bool} {r : Trail} {refusal : Refusal} {α : Type}

theorem refuse_system (refused : (refuse refusal p : Except FileFault α) = .error fault) :
    fault.isSystem = true := by
  cases refused
  rfl

theorem locate_system (noNul : p.hasNul = false) (refused : t.locate followLast p = .error fault) :
    fault.isSystem = true := by
  unfold locate at refused
  rw [noNul] at refused
  simp only [Bool.false_eq_true, if_false] at refused
  split at refused
  · cases refused
  · cases refused
    rfl

theorem probe_tooLong (refused : t.probe p = .error fault) : ∃ shown, fault = .system .nameTooLong shown := by
  unfold probe at refused
  split at refused
  · cases refused
  · cases refused
    exact ⟨_, rfl⟩
  · cases refused

theorem map_error {ε β : Type} {x : Except ε α} {f : α → β} {cause : ε} (refused : x.map f = .error cause) :
    x = .error cause := by
  cases x with
  | error other =>
    cases refused
    rfl
  | ok found => cases refused

theorem isFile_tooLong (refused : t.isFile p = .error fault) : ∃ shown, fault = .system .nameTooLong shown :=
  probe_tooLong (map_error refused)

theorem isDirectory_tooLong (refused : t.isDirectory p = .error fault) : ∃ shown, fault = .system .nameTooLong shown :=
  probe_tooLong (map_error refused)

theorem isFile_system (refused : t.isFile p = .error fault) : fault.isSystem = true := by
  obtain ⟨_, rfl⟩ := isFile_tooLong refused
  rfl

theorem isDirectory_system (refused : t.isDirectory p = .error fault) : fault.isSystem = true := by
  obtain ⟨_, rfl⟩ := isDirectory_tooLong refused
  rfl

theorem amend_system {rule : Rule} (noNul : p.hasNul = false)
    (refused : t.amend followLast p rule = .error fault) : fault.isSystem = true := by
  unfold amend at refused
  cases found : t.locate followLast p with
  | error cause =>
    simp only [found, bind, Except.bind] at refused
    cases refused
    exact locate_system noNul found
  | ok m =>
    simp only [found, bind, Except.bind] at refused
    split at refused
    · cases refused
    · exact refuse_system refused

theorem unlinkIfThere_system (noNul : p.hasNul = false) (refused : t.unlinkIfThere p = .error fault) :
    fault.isSystem = true := by
  unfold unlinkIfThere at refused
  split at refused
  · cases refused
  · rw [unlink_eq] at refused
    exact amend_system noNul refused

theorem write_system (noNul : p.hasNul = false) (refused : t.write p content = .error fault) :
    fault.isSystem = true := by
  rw [write_eq] at refused
  exact amend_system noNul refused

theorem makeDirectoryOr_system (noNul : p.hasNul = false)
    (refused : makeDirectoryOr allowThere t p = .error fault) : fault.isSystem = true := by
  unfold makeDirectoryOr at refused
  split at refused
  · cases refused
    rfl
  · cases asked : t.isDirectory p with
    | error cause =>
      simp only [asked, bind, Except.bind] at refused
      cases refused
      exact isDirectory_system asked
    | ok answer =>
      simp only [asked, bind, Except.bind] at refused
      split at refused
      · cases refused
      · cases refused
        rfl
  · rw [makeDirectory_eq] at refused
    exact amend_system noNul refused

theorem Trail.next_system {operation : FileTree → Except FileFault FileTree}
    (before : ∀ fault, r.fault = some fault → fault.isSystem = true)
    (own : ∀ t fault, operation t = .error fault → fault.isSystem = true)
    (failed : (r.next operation).fault = some fault) : fault.isSystem = true := by
  cases earlier : r.fault with
  | some cause =>
    rw [Trail.next_fault earlier] at failed
    exact before fault failed
  | none =>
    cases ran : operation r.tree with
    | ok u =>
      rw [Trail.next_ok earlier ran] at failed
      cases failed
    | error cause =>
      rw [Trail.next_error earlier ran] at failed
      cases failed
      exact own _ _ ran

theorem series_system {operations : List (FileTree → Except FileFault FileTree)}
    (own : ∀ operation ∈ operations, ∀ t fault, operation t = .error fault → fault.isSystem = true)
    (failed : (t.series operations).fault = some fault) : fault.isSystem = true := by
  unfold series at failed
  generalize start : Trail.start t = r at failed
  have before : ∀ fault, r.fault = some fault → fault.isSystem = true := by
    subst start
    intro fault impossible
    cases impossible
  clear start
  induction operations generalizing r with
  | nil => exact before fault failed
  | cons first rest ih =>
    refine ih (fun operation member => own operation (List.mem_cons_of_mem _ member)) _ failed ?_
    exact fun fault failed => Trail.next_system before (own first (by simp)) failed

theorem makeDirectories_system {root : Root} {count : Nat} (noNul : FilePath.anyNul names = false)
    (failed : (makeDirectories t root names allowThere count).fault = some fault) :
    fault.isSystem = true := by
  have short : ∀ count, FilePath.hasNul ⟨root, names.take count⟩ = false := by
    intro count
    unfold FilePath.hasNul
    rw [List.any_eq_false]
    exact fun name member => List.any_eq_false.mp noNul name (List.mem_of_mem_take member)
  induction count generalizing allowThere fault with
  | zero =>
    unfold makeDirectories at failed
    refine Trail.next_system (by simp [Trail.start]) (fun t fault refused => ?_) failed
    exact makeDirectoryOr_system (short 0) refused
  | succ count ih =>
    unfold makeDirectories at failed
    split at failed
    · cases failed
    · refine Trail.next_system (fun fault failed => ih failed) (fun t fault refused => ?_) failed
      exact makeDirectoryOr_system (short (count + 1)) refused
    · rename_i refused
      cases failed
      exact makeDirectoryOr_system (short (count + 1)) refused

theorem ensureDirectory_system (noNul : p.hasNul = false)
    (failed : (t.ensureDirectory p).fault = some fault) : fault.isSystem = true :=
  makeDirectories_system noNul failed

theorem isFile_nameable (stands : Stands t p l) (clear : Clear t l) (plain : ∀ name ∈ names, name ≠ "..")
    (nonempty : names ≠ []) (nameable : Nameable names) : ∃ answer, t.isFile (p.under names) = .ok answer := by
  have asked : ∃ found, t.probe (p.under names) = .ok found := by
    unfold probe
    rw [locate_under stands clear plain nonempty, reach, nameable.noNul]
    simp only [Bool.false_eq_true, if_false]
    cases down : t.descend l names with
    | ok m => exact ⟨_, rfl⟩
    | error refusal =>
      have short := descend_not_long nameable.fits down
      cases refusal <;> first | exact ⟨_, rfl⟩ | exact absurd rfl short
  obtain ⟨found, probed⟩ := asked
  unfold isFile
  rw [probed]
  exact ⟨_, rfl⟩

theorem unlinkIfThere_there (stands : Stands t p l) (clear : Clear t l) (wellFormed : t.WellFormed)
    (plain : ∀ name ∈ names, name ≠ "..") (nonempty : names ≠ []) (nameable : Nameable names)
    (there : t.node? (l ++ names) = some (.file content executable)) :
    t.unlinkIfThere (p.under names) = .ok (t.erase (l ++ names)) := by
  have removed : t.unlink (p.under names) = .ok (t.erase (l ++ names)) := by
    unfold unlink
    rw [locate_there stands clear wellFormed plain nonempty nameable there]
    simp only [bind, Except.bind, there]
  unfold unlinkIfThere
  rw [removed]

end AbiBuild.FileTree
