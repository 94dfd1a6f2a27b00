import AbiBuild.Proofs.Files.Making

namespace AbiBuild.FileTree
open AbiBuild.Text

structure Nameable (names : List String) : Prop where
  noNul : FilePath.anyNul names = false
  fits : ∀ name ∈ names, ¬ maxNameSize < name.utf8ByteSize

variable {t u : FileTree} {l m : Location} {made : Location → Prop} {p : FilePath} {node : Node}
  {names region : List String} {followLast : Bool} {content : Bytes} {executable : Bool}

theorem nameable_append {more : List String} (first : Nameable names) (second : Nameable more) :
    Nameable (names ++ more) := by
  refine ⟨?_, fun name member => ?_⟩
  · have one := first.noNul
    have two := second.noNul
    unfold FilePath.anyNul at one two ⊢
    rw [List.any_append, one, two]
    rfl
  · rcases List.mem_append.mp member with inFirst | inSecond
    · exact first.fits name inFirst
    · exact second.fits name inSecond

theorem descend_nameable (found : t.descend l names = .ok m) :
    ∀ name ∈ names, ¬ maxNameSize < name.utf8ByteSize := by
  induction names generalizing l with
  | nil => simp
  | cons name rest ih =>
    unfold descend at found
    split at found
    · split at found
      · cases found
      · rename_i fits
        split at found
        · intro other member
          rcases List.mem_cons.mp member with rfl | later
          · exact fits
          · exact ih found other later
        · split at found
          · rename_i last
            rw [List.isEmpty_iff.mp last]
            simpa using fits
          · cases found
    · cases found
    · cases found

theorem descend_not_long {refusal : Refusal}
    (fits : ∀ name ∈ names, ¬ maxNameSize < name.utf8ByteSize)
    (refused : t.descend l names = .error refusal) : refusal ≠ .nameTooLong := by
  induction names generalizing l with
  | nil => cases refused
  | cons name rest ih =>
    unfold descend at refused
    split at refused
    · rw [if_neg (fits name (by simp))] at refused
      split at refused
      · exact ih (fun other member => fits other (List.mem_cons_of_mem _ member)) refused
      · split at refused
        · cases refused
        · cases refused
          simp
    · cases refused
      simp
    · cases refused
      simp

theorem locate_nameable (stands : Stands t p l) (clear : Clear t l)
    (plain : ∀ name ∈ names, name ≠ "..") (nonempty : names ≠ [])
    (found : t.locate followLast (p.under names) = .ok m) : Nameable names := by
  rw [locate_under stands clear plain nonempty, reach] at found
  split at found
  · cases found
  · rename_i noNul
    split at found
    · rename_i down
      exact ⟨by simpa using noNul, descend_nameable down⟩
    · cases found

theorem locate_there (stands : Stands t p l) (clear : Clear t l) (wellFormed : t.WellFormed)
    (plain : ∀ name ∈ names, name ≠ "..") (nonempty : names ≠ []) (nameable : Nameable names)
    (there : t.node? (l ++ names) = some node) :
    t.locate followLast (p.under names) = .ok (l ++ names) := by
  rw [locate_under stands clear plain nonempty, reach, nameable.noNul]
  cases down : t.descend l names with
  | ok m => simp [descend_eq down]
  | error refusal =>
    have absent := descend_absent wellFormed down (descend_not_long nameable.fits down)
    rw [absent] at there
    cases there

-- Where nothing is found although the path stands, there is nothing, unless a name does not fit.
theorem absent_of_refused {refusal : Refusal} {shown : String} (stands : Stands t p l)
    (clear : Clear t l) (wellFormed : t.WellFormed) (plain : ∀ name ∈ names, name ≠ "..")
    (nonempty : names ≠ [])
    (refused : t.locate followLast (p.under names) = .error (.system refusal shown))
    (short : refusal ≠ .nameTooLong) : t.node? (l ++ names) = none := by
  rw [locate_under stands clear plain nonempty, reach] at refused
  split at refused
  · cases refused
  · split at refused
    · cases refused
    · rename_i down
      cases refused
      exact descend_absent wellFormed down short

theorem unlink_parts (hosts : Hosts t p l) (plain : ∀ name ∈ names, name ≠ "..") (nonempty : names ≠ [])
    (ran : t.unlink (p.under names) = .ok u) : Located t p l names ∧ u = t.erase (l ++ names) := by
  rw [unlink_eq] at ran
  obtain ⟨place, new, decided, rfl⟩ := amend_parts hosts plain nonempty ran
  unfold unlinkRule at decided
  split at decided
  · cases decided
  · cases decided
    exact ⟨place, rfl⟩
  · cases decided

theorem unlinkIfThere_parts (ran : t.unlinkIfThere p = .ok u) :
    t.unlink p = .ok u ∨ u = t ∧ ∃ shown, t.unlink p = .error (.system .noEntry shown) := by
  unfold unlinkIfThere at ran
  split at ran
  · rename_i shown refused
    cases ran
    exact .inr ⟨rfl, shown, refused⟩
  · exact .inl ran

theorem unlinkIfThere_changes (hosts : Hosts t p l) (plain : ∀ name ∈ names, name ≠ "..")
    (nonempty : names ≠ []) (inside : region <+: names)
    (ran : t.unlinkIfThere (p.under names) = .ok u) : Changes (l ++ region) made t u := by
  rcases unlinkIfThere_parts ran with removed | ⟨rfl, _⟩
  · rw [unlink_eq] at removed
    exact amend_changes unlinkRule_mild hosts plain nonempty inside removed
  · exact .refl _ _ _

theorem unlinkIfThere_absent (stands : Stands t p l) (clear : Clear t l) (wellFormed : t.WellFormed)
    (plain : ∀ name ∈ names, name ≠ "..") (nonempty : names ≠ [])
    (ran : t.unlinkIfThere (p.under names) = .ok u) : u.node? (l ++ names) = none := by
  have hosts : Hosts t p l := fun m leads => ⟨Leads.deterministic leads stands.leadsTo, clear⟩
  rcases unlinkIfThere_parts ran with removed | ⟨rfl, shown, refused⟩
  · obtain ⟨place, rfl⟩ := unlink_parts hosts plain nonempty removed
    exact node?_erase_self t place.nonempty
  · cases found : u.locate false (p.under names) with
    | error fault =>
      unfold unlink at refused
      rw [found] at refused
      cases refused
      exact absent_of_refused stands clear wellFormed plain nonempty found (by simp)
    | ok m =>
      obtain ⟨rfl, _⟩ := located hosts plain nonempty found
      unfold unlink at refused
      simp only [found, bind, Except.bind] at refused
      split at refused
      · cases refused
      · cases refused
      · rename_i absent
        exact absent

theorem unlinkIfThere_only (hosts : Hosts t p l) (plain : ∀ name ∈ names, name ≠ "..")
    (nonempty : names ≠ []) (ran : t.unlinkIfThere (p.under names) = .ok u) (m : Location) :
    u.node? m = t.node? m ∨ u.node? m = none ∧ m = l ++ names := by
  rcases unlinkIfThere_parts ran with removed | ⟨rfl, _⟩
  · obtain ⟨place, rfl⟩ := unlink_parts hosts plain nonempty removed
    rw [node?_erase place.nonempty]
    by_cases here : m = l ++ names
    · exact .inr ⟨if_pos here, here⟩
    · exact .inl (if_neg here)
  · exact .inl rfl

theorem write_parts (hosts : Hosts t p l) (plain : ∀ name ∈ names, name ≠ "..") (nonempty : names ≠ [])
    (ran : t.write (p.under names) content = .ok u) : Located t p l names ∧
      ∃ executable, u = t.put (l ++ names) (.file content executable) := by
  rw [write_eq] at ran
  obtain ⟨place, new, decided, rfl⟩ := amend_parts hosts plain nonempty ran
  unfold writeRule at decided
  split at decided
  · cases decided
  · cases decided
    exact ⟨place, _, rfl⟩
  · cases decided
    exact ⟨place, _, rfl⟩

theorem write_changes (hosts : Hosts t p l) (plain : ∀ name ∈ names, name ≠ "..") (nonempty : names ≠ [])
    (inside : region <+: names) (ran : t.write (p.under names) content = .ok u) :
    Changes (l ++ region) made t u := by
  rw [write_eq] at ran
  exact amend_changes (writeRule_mild content) hosts plain nonempty inside ran

theorem probe_some (found : t.probe p = .ok (some node)) :
    ∃ m, t.locate true p = .ok m ∧ t.node? m = some node := by
  unfold probe at found
  split at found
  · rename_i m located
    exact ⟨m, located, by simpa using found⟩
  · cases found
  · cases found

theorem isDirectory_located (asked : t.isDirectory p = .ok true) :
    ∃ m, t.locate true p = .ok m ∧ t.node? m = some .directory := by
  unfold isDirectory at asked
  cases probed : t.probe p with
  | error fault => simp [probed, Except.map] at asked
  | ok found =>
    simp only [probed, Except.map] at asked
    cases found with
    | none => cases asked
    | some node =>
      obtain ⟨m, located, there⟩ := probe_some probed
      cases node with
      | directory => exact ⟨m, located, there⟩
      | file content executable => cases asked
      | link target => cases asked

theorem probe_under_some (hosts : Hosts t p l) (plain : ∀ name ∈ names, name ≠ "..")
    (nonempty : names ≠ []) (found : t.probe (p.under names) = .ok (some node)) :
    Stands t p l ∧ t.node? (l ++ names) = some node := by
  obtain ⟨m, place, there⟩ := probe_some found
  obtain ⟨rfl, located⟩ := located hosts plain nonempty place
  exact ⟨located.stands, there⟩

theorem isFile_parts {answer : Bool} (asked : t.isFile p = .ok answer) :
    ∃ found, t.probe p = .ok found ∧ answer = found.any Node.isFile := by
  unfold isFile at asked
  cases probed : t.probe p with
  | error fault => simp [probed, Except.map] at asked
  | ok found =>
    simp only [probed, Except.map] at asked
    cases asked
    exact ⟨found, rfl, rfl⟩

theorem isFile_true (hosts : Hosts t p l) (plain : ∀ name ∈ names, name ≠ "..") (nonempty : names ≠ [])
    (asked : t.isFile (p.under names) = .ok true) : Stands t p l ∧
      ∃ content executable, t.node? (l ++ names) = some (.file content executable) := by
  obtain ⟨found, probed, answer⟩ := isFile_parts asked
  cases found with
  | none => cases answer
  | some node =>
    obtain ⟨stands, there⟩ := probe_under_some hosts plain nonempty probed
    cases node with
    | file content executable => exact ⟨stands, content, executable, there⟩
    | directory => cases answer
    | link target => cases answer

theorem isFile_seen (hosts : Hosts t p l) (plain : ∀ name ∈ names, name ≠ "..") (nonempty : names ≠ [])
    (asked : t.isFile (p.under names) = .ok true) : ∃ content executable,
      t.probe (p.under names) = .ok (some (.file content executable)) ∧
        t.node? (l ++ names) = some (.file content executable) := by
  obtain ⟨found, probed, answer⟩ := isFile_parts asked
  obtain ⟨_, content, executable, there⟩ := isFile_true hosts plain nonempty asked
  cases found with
  | none => cases answer
  | some node =>
    have same := (probe_under_some hosts plain nonempty probed).2
    rw [there] at same
    cases same
    exact ⟨content, executable, probed, there⟩

theorem isFile_false (stands : Stands t p l) (clear : Clear t l) (wellFormed : t.WellFormed)
    (plain : ∀ name ∈ names, name ≠ "..") (nonempty : names ≠ []) (nameable : Nameable names)
    (asked : t.isFile (p.under names) = .ok false) :
    t.node? (l ++ names) ≠ some (.file content executable) := by
  intro there
  obtain ⟨found, probed, answer⟩ := isFile_parts asked
  unfold probe at probed
  rw [locate_there stands clear wellFormed plain nonempty nameable there] at probed
  simp only [there] at probed
  cases probed
  cases answer

theorem isFile_there (stands : Stands t p l) (clear : Clear t l) (wellFormed : t.WellFormed)
    (plain : ∀ name ∈ names, name ≠ "..") (nonempty : names ≠ []) (nameable : Nameable names)
    (there : t.node? (l ++ names) = some (.file content executable)) :
    t.isFile (p.under names) = .ok true := by
  unfold isFile probe
  rw [locate_there stands clear wellFormed plain nonempty nameable there]
  simp only [there]
  rfl

theorem read_there (stands : Stands t p l) (clear : Clear t l) (wellFormed : t.WellFormed)
    (plain : ∀ name ∈ names, name ≠ "..") (nonempty : names ≠ []) (nameable : Nameable names)
    (there : t.node? (l ++ names) = some (.file content executable)) :
    t.read (p.under names) = .ok content := by
  unfold read
  rw [locate_there stands clear wellFormed plain nonempty nameable there]
  simp only [bind, Except.bind, there]

theorem readText_under (stands : Stands t p l) (clear : Clear t l) (wellFormed : t.WellFormed)
    (plain : ∀ name ∈ names, name ≠ "..") (nonempty : names ≠ []) (nameable : Nameable names)
    (there : t.node? (l ++ names) = some (.file content executable)) :
    t.readText (p.under names) =
      match Text.readText content with
      | .ok s => .ok s
      | .error cause => .error (.notText cause) := by
  unfold readText
  rw [read_there stands clear wellFormed plain nonempty nameable there]
  cases decoded : Text.readText content <;> simp [bind, Except.bind, decoded]

theorem read_under (hosts : Hosts t p l) (plain : ∀ name ∈ names, name ≠ "..") (nonempty : names ≠ [])
    (ran : t.read (p.under names) = .ok content) : Stands t p l ∧
      ∃ executable, t.node? (l ++ names) = some (.file content executable) := by
  unfold read at ran
  cases found : t.locate true (p.under names) with
  | error fault => simp [found, bind, Except.bind] at ran
  | ok m =>
    obtain ⟨rfl, place⟩ := located hosts plain nonempty found
    simp only [found, bind, Except.bind] at ran
    split at ran
    · rename_i there
      cases ran
      exact ⟨place.stands, _, there⟩
    · cases ran
    · cases ran

def Contains (t : FileTree) (p : FilePath) (content : Bytes) : Prop :=
  ∃ m executable, t.locate true p = .ok m ∧ t.node? m = some (.file content executable)

def target? (t : FileTree) (p : FilePath) : Option Node :=
  match t.probe p with
  | .ok found => found
  | .error _ => none

theorem contains_target : t.Contains p content ↔ ∃ executable, t.target? p = some (.file content executable) := by
  constructor
  · rintro ⟨m, executable, located, there⟩
    refine ⟨executable, ?_⟩
    unfold target? probe
    rw [located]
    exact there
  · rintro ⟨executable, seen⟩
    unfold target? at seen
    split at seen
    · rename_i found probed
      rw [seen] at probed
      obtain ⟨m, located, there⟩ := probe_some probed
      exact ⟨m, executable, located, there⟩
    · cases seen

theorem target_isFile : (t.target? p).any Node.isFile = true ↔ ∃ content, t.Contains p content := by
  simp only [contains_target]
  cases t.target? p with
  | none => simp
  | some node => cases node <;> simp [Node.isFile]

theorem isFile_target {answer : Bool} (asked : t.isFile p = .ok answer) : answer = (t.target? p).any Node.isFile := by
  obtain ⟨found, probed, rfl⟩ := isFile_parts asked
  unfold target?
  rw [probed]

theorem Contains.read (contains : t.Contains p content) : t.read p = .ok content := by
  obtain ⟨m, executable, located, there⟩ := contains
  unfold FileTree.read
  rw [located]
  simp only [bind, Except.bind, there]

end AbiBuild.FileTree
