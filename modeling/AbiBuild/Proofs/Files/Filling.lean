import AbiBuild.Proofs.Files.Growth
import AbiBuild.Proofs.Files.Refusals

namespace AbiBuild.FileTree
open AbiBuild.Text

-- A directory that a path leads to and that no link lies below, in a tree that holds together.
structure Based (t : FileTree) (p : FilePath) (l : Location) : Prop where
  wellFormed : t.WellFormed
  absolute : p.root ≠ .relative
  stands : Stands t p l
  clear : Clear t l

-- Whatever there is on the way down from a location is a directory.
def Open (t : FileTree) (l : Location) (names : List String) : Prop :=
  ∀ front, front <+: names → t.node? (l ++ front) = none ∨ t.node? (l ++ front) = some .directory

-- Files that can all be there together: their names fit, and none lies below another.
structure Coexist (items : List (FilePath × Node)) : Prop where
  nameable : ∀ item ∈ items, Nameable item.1.names
  apart : ∀ item ∈ items, ∀ other ∈ items, item.1.names <+: other.1.names → item.1.names = other.1.names

-- A file can come to be in a place: nothing is there, and nothing but directories is in the way. Where its name
-- is too long, that is found out only once there is a directory to look it up in.
structure Awaits (t : FileTree) (l : Location) (front : List String) (name : String) : Prop where
  way : Open t l front
  absent : t.node? (l ++ (front ++ [name])) = none
  noNul : FilePath.anyNul [name] = false
  long : maxNameSize < name.utf8ByteSize → t.node? (l ++ front) ≠ some .directory

variable {t u : FileTree} {l m : Location} {p : FilePath} {names front rest other : List String} {name : String}
  {content : Bytes} {executable : Bool} {items : List (FilePath × Node)} {item : FilePath × Node} {a : String}
  {made : Location → Prop}

theorem Based.hosts (based : Based t p l) : Hosts t p l :=
  fun _ leads => ⟨Leads.deterministic leads based.stands.leadsTo, based.clear⟩

theorem Hosts.based (hosts : Hosts t p l) (wellFormed : t.WellFormed) (absolute : p.root ≠ .relative)
    (stands : Stands t p m) : Based t p l :=
  ⟨wellFormed, absolute, (hosts.stands stands).1, (hosts.stands stands).2⟩

theorem Based.changes (based : Based t p l) (changes : Changes m made t u) : Based u p l :=
  ⟨changes.wellFormed based.wellFormed, based.absolute, changes.stands based.stands,
    based.clear.congr changes.links⟩

theorem Nameable.among (nameable : Nameable names) (fewer : ∀ n ∈ rest, n ∈ names) : Nameable rest := by
  refine ⟨?_, fun n member => nameable.fits n (fewer n member)⟩
  have whole := nameable.noNul
  simp only [FilePath.anyNul, List.any_eq_false] at whole ⊢
  exact fun n member => whole n (fewer n member)

theorem open_of_directory (wellFormed : t.WellFormed) (there : t.node? (l ++ names) = some .directory) :
    Open t l names := by
  rintro front ⟨rest, rfl⟩
  by_cases last : rest = []
  · subst last
    rw [List.append_nil] at there
    exact .inr there
  · rw [← List.append_assoc] at there
    exact .inr (wellFormed.above there last)

theorem descend_down (wellFormed : t.WellFormed) (there : t.node? (l ++ names) = some .directory)
    (fits : ∀ n ∈ names, ¬ maxNameSize < n.utf8ByteSize) :
    t.descend l (names ++ rest) = t.descend (l ++ names) rest := by
  induction names generalizing l with
  | nil => simp
  | cons first others ih =>
    have here : t.node? l = some .directory := wellFormed.above there (by simp)
    have below : t.node? ((l ++ [first]) ++ others) = some .directory := by simpa using there
    obtain ⟨node, present⟩ : ∃ node, t.node? (l ++ [first]) = some node := by
      by_cases last : others = []
      · subst last
        exact ⟨_, by simpa using below⟩
      · exact ⟨_, wellFormed.above below last⟩
    rw [List.cons_append, descend, here]
    simp only [if_neg (fits first (by simp)), present]
    rw [ih below fun n member => fits n (List.mem_cons_of_mem _ member), List.append_assoc, List.singleton_append]

theorem descend_last (wellFormed : t.WellFormed) (there : t.node? (l ++ names) = some .directory)
    (fits : ∀ n ∈ names ++ [name], ¬ maxNameSize < n.utf8ByteSize) :
    t.descend l (names ++ [name]) = .ok (l ++ (names ++ [name])) := by
  rw [descend_down wellFormed there fun n member => fits n (List.mem_append_left _ member), descend, there]
  simp only [if_neg (fits name (by simp)), ← List.append_assoc]
  cases t.node? (l ++ names ++ [name]) <;> rfl

theorem descend_long (wellFormed : t.WellFormed) (there : t.node? (l ++ names) = some .directory)
    (fits : ∀ n ∈ names, ¬ maxNameSize < n.utf8ByteSize) (long : maxNameSize < name.utf8ByteSize) :
    t.descend l (names ++ [name]) = .error .nameTooLong := by
  rw [descend_down wellFormed there fits, descend, there]
  simp only [if_pos long]

theorem directory_of_long (fits : ∀ n ∈ names, ¬ maxNameSize < n.utf8ByteSize)
    (refused : t.descend l (names ++ [name]) = .error .nameTooLong) :
    t.node? (l ++ names) = some .directory := by
  induction names generalizing l with
  | nil =>
    rw [List.nil_append, descend] at refused
    split at refused
    · simpa
    · cases refused
    · cases refused
  | cons first rest ih =>
    rw [List.cons_append, descend] at refused
    split at refused
    · rw [if_neg (fits first (by simp))] at refused
      split at refused
      · have below := ih (fun n member => fits n (List.mem_cons_of_mem _ member)) refused
        simpa using below
      · split at refused <;> cases refused
    · cases refused
    · cases refused

theorem descend_missing (wellFormed : t.WellFormed) (clear : Clear t l) (here : t.node? l = some .directory)
    (refused : t.descend l (names ++ [name]) = .error .noEntry) :
    Open t l names ∧ t.node? (l ++ names) ≠ some .directory := by
  induction names generalizing l with
  | nil =>
    rw [List.nil_append, descend, here] at refused
    simp only at refused
    split at refused
    · cases refused
    · cases present : t.node? (l ++ [name]) with
      | none => simp [present] at refused
      | some node => simp [present, descend] at refused
  | cons first rest ih =>
    rw [List.cons_append, descend, here] at refused
    simp only at refused
    split at refused
    · cases refused
    · cases present : t.node? (l ++ [first]) with
      | some node =>
        simp only [present] at refused
        have next : t.node? (l ++ [first]) = some .directory := by
          cases node with
          | directory => exact present
          | link target => exact (clear [first] (by simp) target present).elim
          | file content executable =>
            cases rest with
            | nil => simp [descend, present] at refused
            | cons second more => simp [descend, present] at refused
        obtain ⟨below, missing⟩ := ih (clear.under [first]) next refused
        refine ⟨fun front inside => ?_, by simpa using missing⟩
        cases front with
        | nil => exact .inr (by simpa using here)
        | cons name more =>
          obtain ⟨same, deeper⟩ := List.cons_prefix_cons.mp inside
          subst same
          simpa using below more deeper
      | none =>
        have nothing : ∀ more, t.node? (l ++ first :: more) = none := by
          intro more
          by_cases last : more = []
          · subst last
            exact present
          · have none_ := wellFormed.missing (l := l ++ [first]) (by simp [present]) last
            simpa using none_
        refine ⟨fun front inside => ?_, by simp [nothing rest]⟩
        cases front with
        | nil => exact .inr (by simpa using here)
        | cons name more =>
          obtain ⟨same, _⟩ := List.cons_prefix_cons.mp inside
          subst same
          exact .inl (nothing more)

theorem Open.shorter (way : Open t l names) (inside : front <+: names) : Open t l front :=
  fun first before => way first (before.trans inside)

theorem Open.beyond (way : Open t l names) (wellFormed : t.WellFormed) (absent : t.node? (l ++ names) ≠ some .directory)
    (longer : names <+: other) : Open t l other := by
  intro front inside
  rcases List.prefix_or_prefix_of_prefix inside longer with short | ⟨rest, rfl⟩
  · exact way front short
  · by_cases last : rest = []
    · subst last
      rw [List.append_nil]
      exact way names (List.prefix_refl _)
    · rw [← List.append_assoc]
      exact .inl (wellFormed.missing absent last)

theorem Stands.way (stands : Stands t p l) (along : Along t p.root p.names m) : t.node? m = some .directory := by
  obtain ⟨count, leads⟩ := along
  obtain ⟨left, route⟩ := stands.route
  obtain ⟨_, k, begun⟩ := route.beginning (List.take_prefix count _)
  have same : k = m := Leads.deterministic begun.leads leads
  rw [← same]
  exact begun.end

-- Without links a route stays as long as there are directories wherever its beginnings lead to.
theorem Route.kept {links left : Nat} (route : Route t links l names left m) (clear : Clear t [])
    (kept : ∀ count k, Leads t l (names.take count) k → u.node? k = some .directory) :
    Route u links l names left m := by
  induction route with
  | nil => exact .nil (kept 0 _ .nil)
  | up _ _ ih => exact .up (kept 0 _ .nil) (ih fun count k leads => kept (count + 1) k (.up leads))
  | down _ notUp fits _ ih =>
    refine .down (kept 0 _ .nil) notUp fits (ih fun count k leads => kept (count + 1) k (.down notUp ?_ leads))
    exact clear _ (by simp)
  | link _ _ _ there => exact absurd there (clear _ (by simp) _)

theorem Stands.kept (stands : Stands t p l) (clear : Clear t []) (here : u.here = t.here)
    (kept : ∀ k, Along t p.root p.names k → u.node? k = some .directory) : Stands u p l := by
  obtain ⟨left, route⟩ := stands.route
  refine ⟨stands.noNul, left, ?_⟩
  rw [here]
  exact route.kept clear fun count k leads => kept k ⟨count, leads⟩

theorem Based.way_under (based : Based t p l) (plain : ∀ name ∈ names, name ≠ "..")
    (along : Along t p.root (p.under names).names m) :
    t.node? m = some .directory ∨ ∃ front, front <+: names ∧ m = l ++ front := by
  obtain ⟨count, leads⟩ := along
  by_cases short : count ≤ p.names.length
  · have cut : (p.under names).names.take count = p.names.take count := List.take_append_of_le_length short
    rw [cut] at leads
    exact .inl (based.stands.way ⟨count, leads⟩)
  · have cut : (p.under names).names.take count = p.names ++ names.take (count - p.names.length) := by
      show (p.names ++ names).take count = _
      rw [List.take_append, List.take_of_length_le (by omega)]
    rw [cut] at leads
    exact .inr ⟨_, List.take_prefix _ _,
      leadsTo_under based.hosts (fun name member => plain name (List.mem_of_mem_take member)) leads⟩

theorem Changes.standing (changes : Changes (l ++ [a]) (Along t p.root (p.under [a]).names) t u)
    (based : Based t p l) (notUp : a ≠ "..") : Changes (l ++ [a]) nowhere t u := by
  refine ⟨changes.here, changes.links, changes.directories, fun m outside => ?_, changes.wellFormed⟩
  rcases changes.elsewhere m outside with same | ⟨along, absent, _⟩
  · exact .inl same
  · rcases based.way_under (by simpa using notUp) along with there | ⟨front, inside, rfl⟩
    · rw [absent] at there
      cases there
    · rcases List.prefix_cons_iff.mp inside with rfl | ⟨rest, rfl, nothing⟩
      · rw [List.append_nil, based.stands.directory] at absent
        cases absent
      · rw [List.prefix_nil.mp nothing] at outside
        exact absurd (List.prefix_refl _) outside

theorem ensureDirectory_there (based : Based t p l) (plain : ∀ name ∈ names, name ≠ "..") (nonempty : names ≠ [])
    (nameable : Nameable names) (there : t.node? (l ++ names) = some .directory) :
    t.ensureDirectory (p.under names) = ⟨t, none⟩ := by
  have found : ∀ followLast, t.locate followLast (p.under names) = .ok (l ++ names) := fun followLast =>
    locate_there based.stands based.clear based.wellFormed plain nonempty nameable there
  have directory : t.isDirectory (p.under names) = .ok true := by
    unfold isDirectory probe
    rw [found]
    simp [there, Except.map, Node.isDirectory]
  have made : makeDirectoryOr true t (p.under names) = .ok t := by
    unfold makeDirectoryOr makeDirectory
    rw [found]
    simp [bind, Except.bind, there, refuse, directory]
  have length : (p.under names).names.length = (p.under names).names.length - 1 + 1 := by
    have some_ : 0 < names.length := List.length_pos_iff.mpr nonempty
    simp only [FilePath.under, List.length_append]
    omega
  unfold ensureDirectory
  rw [length, makeDirectories, ← length, List.take_length]
  rw [show (⟨(p.under names).root, (p.under names).names⟩ : FilePath) = p.under names from rfl, made]

theorem ensureDirectory_open (based : Based t p l) (plain : ∀ name ∈ names, name ≠ "..") (nonempty : names ≠ [])
    (nameable : Nameable names) (way : Open t l names) :
    (t.ensureDirectory (p.under names)).fault = none ∧
      (t.ensureDirectory (p.under names)).tree.node? (l ++ names) = some .directory := by
  by_cases there : t.node? (l ++ names) = some .directory
  · rw [ensureDirectory_there based plain nonempty nameable there]
    exact ⟨rfl, there⟩
  · have start : t.node? (l ++ []) = some .directory := by simpa using based.stands.directory
    obtain ⟨front, first, rest, rfl, here, stuck⟩ :=
      exists_front (P := fun names => t.node? (l ++ names) = some .directory) start there
    have absent : t.node? (l ++ front ++ [first]) = none := by
      rw [List.append_assoc]
      exact (way (front ++ [first]) ⟨rest, by simp⟩).resolve_right stuck
    have inFront : ∀ name ∈ front, name ∈ front ++ first :: rest := fun name member => by simp [member]
    have inRest : ∀ name ∈ first :: rest, name ∈ front ++ first :: rest := fun name member =>
      List.mem_append_right _ member
    obtain ⟨left, route⟩ := based.stands.route
    have further : Route t left l front left (l ++ front) := route_down based.wellFormed here
      (fun name member => nameable.fits name (inFront name member)) fun name member => plain name (inFront name member)
    have down := route.append further
    have noNul : (p.under (front ++ first :: rest)).hasNul = false := by
      rw [FilePath.hasNul_under, based.stands.noNul, nameable.noNul]
      rfl
    have whole : (p.under (front ++ first :: rest)).names = (p.names ++ front) ++ first :: rest := by
      simp [FilePath.under]
    rw [ensureDirectory_fresh based.wellFormed noNul whole down absent
      (fun name member => nameable.fits name (inRest name member)) fun name member =>
        plain name (inRest name member)]
    have next : ∀ name more, first :: rest = name :: more → t.node? (l ++ front ++ [name]) = none := by
      rintro name more same
      cases same
      exact absent
    obtain ⟨_, made, _⟩ := layDown_parts based.wellFormed here next
    exact ⟨rfl, by simpa using made⟩

theorem ensureDirectory_nodes (based : Based t p l) (plain : ∀ name ∈ names, name ≠ "..") (m : Location) :
    (t.ensureDirectory (p.under names)).tree.node? m = t.node? m ∨ (∃ front, front <+: names ∧ m = l ++ front) ∧
      t.node? m = none ∧ (t.ensureDirectory (p.under names)).tree.node? m = some .directory := by
  have absolute : (p.under names).root ≠ .relative := based.absolute
  have outside : ¬ m ++ [""] <+: m := fun inside => by
    have longer := inside.length_le
    simp only [List.length_append, List.length_singleton] at longer
    omega
  rcases (ensureDirectory_changes based.wellFormed absolute (m ++ [""])).elsewhere m outside with
    same | ⟨along, absent, made⟩
  · exact .inl same
  · rcases based.way_under plain along with there | below
    · rw [absent] at there
      cases there
    · exact .inr ⟨below, absent, made⟩

theorem below_names (below : Below (p.under [a]) item) (notUp : a ≠ "..") : ∃ names content executable,
    item = (p.under names, .file content executable) ∧ names.dropLast ≠ [] ∧ ∀ name ∈ names, name ≠ ".." := by
  obtain ⟨rest, content, executable, rfl, nonempty, plain⟩ := below
  refine ⟨a :: rest, content, executable, by rw [FilePath.under_under]; rfl, ?_, ?_⟩
  · cases rest with
    | nil => exact absurd rfl nonempty
    | cons => simp
  · intro name member
    rcases List.mem_cons.mp member with rfl | inside
    · exact notUp
    · exact notUp_of_plain plain name inside

theorem ne_nil_of_dropLast (nonempty : names.dropLast ≠ []) : names ≠ [] := by
  rintro rfl
  exact nonempty rfl

theorem deposit_based (based : Based t p l) (plain : ∀ name ∈ names, name ≠ "..") (nonempty : names ≠ []) :
    Based (t.deposit (p.under names, .file content executable)) p l := by
  rw [deposit_eq nonempty]
  have made := based.changes (ensured_changes based.wellFormed based.absolute names.dropLast l)
  have put : Changes (l ++ []) nowhere _ _ :=
    settle_changes made.hosts plain nonempty List.nil_prefix content executable
  exact made.changes put

theorem deposit_nodes (based : Based t p l) (plain : ∀ name ∈ names, name ≠ "..") (nonempty : names ≠ [])
    (m : Location) :
    (t.deposit (p.under names, .file content executable)).node? m = t.node? m ∨
      (∃ front, front <+: names.dropLast ∧ m = l ++ front) ∧ t.node? m = none ∧
        (t.deposit (p.under names, .file content executable)).node? m = some .directory ∨
      m = l ++ names ∧
        (t.deposit (p.under names, .file content executable)).node? m = some (.file content executable) := by
  rw [deposit_eq nonempty]
  have made := based.changes (ensured_changes based.wellFormed based.absolute names.dropLast l)
  have first := ensureDirectory_nodes based (fun name member => plain name (List.dropLast_subset _ member)) m
  rcases settle_parts made.hosts plain nonempty content executable with same | ⟨place, _, _, same⟩
  · rw [same]
    rcases first with same | above
    · exact .inl same
    · exact .inr (.inl above)
  · rw [same, node?_put place.nonempty]
    split
    · rename_i here
      exact .inr (.inr ⟨here, rfl⟩)
    · rcases first with same | above
      · exact .inl same
      · exact .inr (.inl above)

theorem deposit_arrives (based : Based t p l) (plain : ∀ n ∈ front ++ [name], n ≠ "..") (nonempty : front ≠ [])
    (nameable : Nameable (front ++ [name])) (way : Open t l front)
    (free : t.node? (l ++ (front ++ [name])) ≠ some .directory) :
    (t.deposit (p.under (front ++ [name]), .file content executable)).node? (l ++ (front ++ [name])) =
      some (.file content executable) := by
  have inFront : ∀ n ∈ front, n ∈ front ++ [name] := fun n member => List.mem_append_left _ member
  have fits : Nameable front := nameable.among inFront
  have upward : ∀ n ∈ front, n ≠ ".." := fun n member => plain n (inFront n member)
  obtain ⟨_, there⟩ := ensureDirectory_open based upward nonempty fits way
  have nodes := ensureDirectory_nodes based upward (l ++ (front ++ [name]))
  have made := based.changes (ensured_changes based.wellFormed based.absolute front l)
  rw [deposit_eq (by simp), List.dropLast_concat]
  generalize (t.ensureDirectory (p.under front)).tree = u at there made nodes ⊢
  have free : u.node? (l ++ (front ++ [name])) ≠ some .directory := by
    rcases nodes with same | ⟨⟨short, inside, same⟩, _, _⟩
    · rwa [same]
    · have longer := inside.length_le
      rw [← List.append_cancel_left same] at longer
      simp only [List.length_append, List.length_singleton] at longer
      omega
  have found : u.locate true (p.under (front ++ [name])) = .ok (l ++ (front ++ [name])) := by
    rw [locate_under made.stands made.clear plain (by simp)]
    unfold reach
    rw [nameable.noNul, descend_last made.wellFormed there nameable.fits]
    rfl
  have notDirectory : (u.node? (l ++ (front ++ [name]))).any Node.isDirectory = false := by
    cases here : u.node? (l ++ (front ++ [name])) with
    | none => rfl
    | some node =>
      cases node with
      | directory => exact absurd here free
      | file => rfl
      | link => rfl
  unfold settle
  rw [found]
  simp [notDirectory, node?_put_self]

theorem Open.nodes (way : Open t l other) (kept : ∀ front, front <+: other →
    u.node? (l ++ front) = t.node? (l ++ front) ∨ u.node? (l ++ front) = none ∨
      u.node? (l ++ front) = some .directory) : Open u l other := by
  intro front inside
  rcases kept front inside with same | gone | made
  · rw [same]
    exact way front inside
  · exact .inl gone
  · exact .inr made

theorem Open.deposit (way : Open t l other) (based : Based t p l) (plain : ∀ n ∈ names, n ≠ "..")
    (nonempty : names ≠ []) (aside : ¬ names <+: other) :
    Open (t.deposit (p.under names, .file content executable)) l other := by
  refine way.nodes fun front inside => ?_
  rcases deposit_nodes based plain nonempty (l ++ front) with same | ⟨_, _, made⟩ | ⟨same, _⟩
  · exact .inl same
  · exact .inr (.inr made)
  · rw [List.append_cancel_left same] at inside
    exact absurd inside aside

theorem deposit_fills (based : Based t p l) (plain : ∀ n ∈ names, n ≠ "..") (nonempty : names.dropLast ≠ [])
    (nameable : Nameable names) (inside : other <+: names.dropLast) (way : Open t l other) :
    (t.deposit (p.under names, .file content executable)).node? (l ++ other) = some .directory := by
  have some_ : names ≠ [] := ne_nil_of_dropLast nonempty
  have upward : ∀ n ∈ names.dropLast, n ≠ ".." := fun n member => plain n (List.dropLast_subset _ member)
  have put : ∀ v : FileTree, Based v p l → v.node? (l ++ other) = some .directory →
      (v.settle (p.under names) (.file content executable)).node? (l ++ other) = some .directory := by
    intro v made there
    have changes : Changes (l ++ []) nowhere _ _ :=
      settle_changes made.hosts plain some_ List.nil_prefix content executable
    exact changes.directories _ there
  rw [deposit_eq some_]
  have made := based.changes (ensured_changes based.wellFormed based.absolute names.dropLast l)
  refine put _ made ?_
  by_cases there : t.node? (l ++ other) = some .directory
  · exact (ensured_changes based.wellFormed based.absolute names.dropLast l).directories _ there
  · have fits : Nameable names.dropLast := nameable.among fun n member => List.dropLast_subset _ member
    have further := way.beyond based.wellFormed there inside
    obtain ⟨_, down⟩ := ensureDirectory_open based upward nonempty fits further
    obtain ⟨rest, whole⟩ := inside
    rw [← whole, ← List.append_assoc] at down
    by_cases last : rest = []
    · subst last
      simpa [whole] using down
    · rw [whole] at down
      exact made.wellFormed.above down last

theorem Coexist.fewer {fewer : List (FilePath × Node)} (coexist : Coexist items)
    (among : ∀ item ∈ fewer, item ∈ items) : Coexist fewer :=
  ⟨fun item member => coexist.nameable item (among item member),
    fun item member other inside => coexist.apart item (among item member) other (among other inside)⟩

theorem depositAll_based (based : Based t p l) (notUp : a ≠ "..") (below : ∀ item ∈ items, Below (p.under [a]) item) :
    Based (t.depositAll items) p l :=
  based.changes (depositAll_changes based.wellFormed based.absolute based.hosts (by simpa using notUp) below)

theorem Open.depositAll (way : Open t l other) (based : Based t p l) (notUp : a ≠ "..")
    (below : ∀ item ∈ items, Below (p.under [a]) item)
    (aside : ∀ item ∈ items, ¬ item.1.names <+: p.names ++ other) : Open (t.depositAll items) l other := by
  induction items generalizing t with
  | nil => exact way
  | cons item rest ih =>
    obtain ⟨names, content, executable, rfl, nonempty, plain⟩ := below_names (below item (by simp)) notUp
    have some_ := ne_nil_of_dropLast nonempty
    refine ih (way.deposit based plain some_ ?_) (deposit_based based plain some_)
      (fun item member => below item (List.mem_cons_of_mem _ member)) fun item member =>
        aside item (List.mem_cons_of_mem _ member)
    have first := aside _ List.mem_cons_self
    rwa [FilePath.under, List.prefix_append_right_inj] at first

theorem depositAll_unfilled (based : Based t p l) (notUp : a ≠ "..")
    (below : ∀ item ∈ items, Below (p.under [a]) item)
    (unfilled : ∀ item ∈ items, p.names ++ other <+: item.1.names → item.1.names = p.names ++ other)
    (there : (t.depositAll items).node? (l ++ other) = some .directory) :
    t.node? (l ++ other) = some .directory := by
  induction items generalizing t with
  | nil => exact there
  | cons item rest ih =>
    obtain ⟨names, content, executable, rfl, nonempty, plain⟩ := below_names (below item (by simp)) notUp
    have some_ := ne_nil_of_dropLast nonempty
    have after := ih (deposit_based based plain some_) (fun item member => below item (List.mem_cons_of_mem _ member))
      (fun item member => unfilled item (List.mem_cons_of_mem _ member)) there
    rcases deposit_nodes based plain some_ (l ++ other) with same | ⟨⟨front, inside, same⟩, _, _⟩ | ⟨_, put⟩
    · rwa [same] at after
    · rw [← List.append_cancel_left same] at inside
      have longer : p.names ++ other <+: p.names ++ names :=
        (List.prefix_append_right_inj _).mpr (inside.trans (List.dropLast_prefix _))
      have whole : names = other := List.append_cancel_left (unfilled _ List.mem_cons_self longer)
      have length := inside.length_le
      rw [← whole, List.length_dropLast] at length
      have positive := List.length_pos_iff.mpr some_
      omega
    · rw [put] at after
      cases after

theorem depositAll_append {more : List (FilePath × Node)} :
    t.depositAll (items ++ more) = (t.depositAll items).depositAll more := by
  simp [depositAll]

-- Where the way is open, a place that a file is put below becomes a directory.
theorem depositAll_fills (based : Based t p l) (notUp : a ≠ "..")
    (below : ∀ item ∈ items, Below (p.under [a]) item) (coexist : Coexist items) (way : Open t l other)
    (member : item ∈ items) (inside : p.names ++ other <+: item.1.names) (longer : item.1.names ≠ p.names ++ other) :
    (t.depositAll items).node? (l ++ other) = some .directory := by
  obtain ⟨before, after, rfl⟩ := List.append_of_mem member
  have earlier : ∀ x ∈ before, x ∈ before ++ item :: after := fun x member => List.mem_append_left _ member
  have aside : ∀ x ∈ before, ¬ x.1.names <+: p.names ++ other := by
    intro x among above
    have same := coexist.apart x (earlier x among) item member (above.trans inside)
    exact longer ((same ▸ above).eq_of_length_le (inside.length_le))
  have belowBefore : ∀ x ∈ before, Below (p.under [a]) x := fun x among => below x (earlier x among)
  have middle := depositAll_based based notUp belowBefore
  have way := way.depositAll based notUp belowBefore aside
  obtain ⟨names, content, executable, rfl, nonempty, plain⟩ := below_names (below item member) notUp
  have some_ := ne_nil_of_dropLast nonempty
  have within_ : other <+: names := (List.prefix_append_right_inj _).mp inside
  have short : other <+: names.dropLast := by
    obtain ⟨rest, rfl⟩ := within_
    have more : rest ≠ [] := by
      rintro rfl
      exact longer (by simp [FilePath.under])
    rw [List.dropLast_append_of_ne_nil more]
    exact List.prefix_append _ _
  have nameable : Nameable names := (coexist.nameable _ member).among fun n among => List.mem_append_right _ among
  have there : ((t.depositAll before).deposit (p.under names, .file content executable)).node? (l ++ other) =
      some .directory := deposit_fills middle plain nonempty nameable short way
  have last : Based ((t.depositAll before).deposit (p.under names, .file content executable)) p l :=
    deposit_based middle plain some_
  have stays := depositAll_changes last.wellFormed based.absolute last.hosts (by simpa using notUp) fun x among =>
    below x (List.mem_append_right _ (List.mem_cons_of_mem _ among))
  rw [depositAll_append]
  exact stays.directories _ there

theorem depositAll_arrives (based : Based t p l) (notUp : a ≠ "..")
    (below : ∀ item ∈ items, Below (p.under [a]) item) (coexist : Coexist items) (way : Open t l front)
    (free : t.node? (l ++ (front ++ [name])) ≠ some .directory) (nonempty : front ≠ [])
    (member : item ∈ items) (here : item.1 = p.under (front ++ [name])) :
    ∃ content executable,
      (t.depositAll items).node? (l ++ (front ++ [name])) = some (.file content executable) := by
  obtain ⟨before, after, rfl⟩ := List.append_of_mem member
  have earlier : ∀ x ∈ before, x ∈ before ++ item :: after := fun x member => List.mem_append_left _ member
  have place : item.1.names = p.names ++ (front ++ [name]) := by rw [here]; rfl
  have aside : ∀ x ∈ before, ¬ x.1.names <+: p.names ++ front := by
    intro x among above
    have longer : p.names ++ front <+: item.1.names := by
      rw [place, ← List.append_assoc]
      exact List.prefix_append _ _
    have same := coexist.apart x (earlier x among) item member (above.trans longer)
    have length := above.length_le
    rw [same, place] at length
    simp only [List.length_append, List.length_singleton] at length
    omega
  have unfilled : ∀ x ∈ before, p.names ++ (front ++ [name]) <+: x.1.names →
      x.1.names = p.names ++ (front ++ [name]) := by
    intro x among beyond
    rw [← place] at beyond ⊢
    exact (coexist.apart item member x (earlier x among) beyond).symm
  have belowBefore : ∀ x ∈ before, Below (p.under [a]) x := fun x among => below x (earlier x among)
  have middle := depositAll_based based notUp belowBefore
  have way := way.depositAll based notUp belowBefore aside
  have free : (t.depositAll before).node? (l ++ (front ++ [name])) ≠ some .directory := fun there =>
    free (depositAll_unfilled based notUp belowBefore unfilled there)
  obtain ⟨names, content, executable, rfl, some_, plain⟩ := below_names (below item member) notUp
  obtain rfl : names = front ++ [name] := FilePath.under_inj here
  have nameable : Nameable (front ++ [name]) :=
    (coexist.nameable _ member).among fun n among => List.mem_append_right _ among
  have there : ((t.depositAll before).deposit (p.under (front ++ [name]), .file content executable)).node?
      (l ++ (front ++ [name])) = some (.file content executable) :=
    deposit_arrives middle plain nonempty nameable way free
  have last : Based ((t.depositAll before).deposit (p.under (front ++ [name]), .file content executable)) p l :=
    deposit_based middle plain (by simp)
  have solid : ∀ x ∈ after, Solid x := by
    intro x among
    obtain ⟨names, content, executable, rfl, _, _⟩ :=
      below x (List.mem_append_right _ (List.mem_cons_of_mem _ among))
    exact ⟨based.absolute, by simp⟩
  rw [depositAll_append]
  exact (depositAll_strews last.wellFormed solid).stays _ _ _ there

theorem Awaits.nodes (awaits : Awaits t l front name) (kept : ∀ names, names <+: front ++ [name] →
    u.node? (l ++ names) = t.node? (l ++ names) ∨ u.node? (l ++ names) = none) : Awaits u l front name := by
  refine ⟨awaits.way.nodes fun names inside => ?_, ?_, awaits.noNul, fun long there => ?_⟩
  · rcases kept names (inside.trans (List.prefix_append _ _)) with same | gone
    · exact .inl same
    · exact .inr (.inl gone)
  · rcases kept _ (List.prefix_refl _) with same | gone
    · rw [same]
      exact awaits.absent
    · exact gone
  · rcases kept front (List.prefix_append _ _) with same | gone
    · rw [same] at there
      exact awaits.long long there
    · rw [gone] at there
      cases there

theorem unlinkIfThere_awaits (based : Based t p l) (plain : ∀ n ∈ front ++ [name], n ≠ "..")
    (ran : t.unlinkIfThere (p.under (front ++ [name])) = .ok u) : Awaits u l front name := by
  have nonempty : front ++ [name] ≠ [] := by simp
  have absent := unlinkIfThere_absent based.stands based.clear based.wellFormed plain nonempty ran
  have changes : Changes (l ++ []) nowhere t u :=
    unlinkIfThere_changes based.hosts plain nonempty List.nil_prefix ran
  have goes : t.locate false (p.under (front ++ [name])) = t.reach p l (front ++ [name]) :=
    locate_under based.stands based.clear plain nonempty
  -- The parent is a directory where the path leads somewhere.
  have found : ∀ k, t.locate false (p.under (front ++ [name])) = .ok k → Awaits u l front name := by
    intro k found
    have nameable := locate_nameable based.stands based.clear plain nonempty found
    have parent : t.node? (l ++ front) = some .directory := by
      rw [goes] at found
      unfold reach at found
      rw [nameable.noNul] at found
      cases down : t.descend l (front ++ [name]) with
      | ok m => exact descend_parent down
      | error refusal => simp [down] at found
    exact ⟨open_of_directory (changes.wellFormed based.wellFormed) (changes.directories _ parent), absent,
      (nameable.among (by simp)).noNul, fun long => absurd long (nameable.fits name (by simp))⟩
  rcases unlinkIfThere_parts ran with done | ⟨rfl, shown, refused⟩
  · unfold unlink at done
    cases located : t.locate false (p.under (front ++ [name])) with
    | ok k => exact found k located
    | error fault => simp [located, bind, Except.bind] at done
  · unfold unlink at refused
    cases located : u.locate false (p.under (front ++ [name])) with
    | ok k => exact found k located
    | error fault =>
      rw [located] at refused
      cases refused
      rw [goes] at located
      unfold reach at located
      split at located
      · cases located
      · rename_i noNul
        cases down : u.descend l (front ++ [name]) with
        | ok m => simp [down] at located
        | error refusal =>
          obtain rfl : refusal = .noEntry := by
            simp only [down] at located
            cases located
            rfl
          obtain ⟨way, missing⟩ := descend_missing based.wellFormed based.clear based.stands.directory down
          have whole : FilePath.anyNul (front ++ [name]) = false := by simpa using noNul
          simp only [FilePath.anyNul, List.any_append, Bool.or_eq_false_iff] at whole
          exact ⟨way, absent, whole.2, fun _ => missing⟩

theorem isFile_node (based : Based t p l) (plain : ∀ n ∈ names, n ≠ "..") (nonempty : names ≠ [])
    (nameable : Nameable names) : t.isFile (p.under names) = .ok ((t.node? (l ++ names)).any Node.isFile) := by
  obtain ⟨answer, asked⟩ := isFile_nameable based.stands based.clear plain nonempty nameable
  cases answer with
  | true =>
    obtain ⟨_, content, executable, there⟩ := isFile_true based.hosts plain nonempty asked
    rw [asked, there]
    rfl
  | false =>
    rw [asked]
    cases there : t.node? (l ++ names) with
    | none => rfl
    | some node =>
      cases node with
      | file content executable =>
        exact absurd there (isFile_false based.stands based.clear based.wellFormed plain nonempty nameable asked)
      | directory => rfl
      | link => rfl

-- A name too long to look up is refused in a directory, and elsewhere is not found.
section Long
variable (based : Based t p l) (plain : ∀ n ∈ front ++ [name], n ≠ "..")
  (fits : ∀ n ∈ front, ¬ maxNameSize < n.utf8ByteSize) (noNul : FilePath.anyNul (front ++ [name]) = false)
  (long : maxNameSize < name.utf8ByteSize)
include based plain fits noNul long

theorem probe_long : t.probe (p.under (front ++ [name])) =
    if t.node? (l ++ front) = some .directory then refuse .nameTooLong (p.under (front ++ [name])) else .ok none := by
  unfold probe
  rw [locate_under based.stands based.clear plain (by simp)]
  unfold reach
  rw [noNul]
  by_cases there : t.node? (l ++ front) = some .directory
  · rw [descend_long based.wellFormed there fits long, if_pos there]
    rfl
  · rw [if_neg there]
    cases down : t.descend l (front ++ [name]) with
    | ok m => exact absurd long (descend_nameable down name (by simp))
    | error refusal =>
      have short : refusal ≠ .nameTooLong := by
        rintro rfl
        exact there (directory_of_long fits down)
      cases refusal <;> first | rfl | exact absurd rfl short

theorem isFile_long : t.isFile (p.under (front ++ [name])) =
    if t.node? (l ++ front) = some .directory then refuse .nameTooLong (p.under (front ++ [name]))
    else .ok false := by
  unfold isFile
  rw [probe_long based plain fits noNul long]
  split <;> rfl

theorem isDirectory_long (there : t.node? (l ++ front) = some .directory) :
    t.isDirectory (p.under (front ++ [name])) = refuse .nameTooLong (p.under (front ++ [name])) := by
  unfold isDirectory
  rw [probe_long based plain fits noNul long, if_pos there]
  rfl

end Long

end AbiBuild.FileTree
