import AbiBuild.Proofs.Files.Deposits
import AbiBuild.Proofs.Files.Removal

namespace AbiBuild.FileTree

def layDown (t : FileTree) (l : Location) : List String → FileTree
  | [] => t
  | name :: rest => layDown (t.put (l ++ [name]) .directory) (l ++ [name]) rest

-- A path of which only the front stands; of the rest nothing is there.
structure Fresh (t : FileTree) (p : FilePath) (front : List String) (first : String)
    (rest : List String) (l : Location) : Prop where
  noNul : p.hasNul = false
  names : p.names = front ++ first :: rest
  route : ∃ left, Route t maxLinks (base t.here p) front left l
  absent : t.node? (l ++ [first]) = none
  fits : ∀ name ∈ first :: rest, ¬ maxNameSize < name.utf8ByteSize
  notUp : ∀ name ∈ first :: rest, name ≠ ".."

-- Behind the first directory of the path that is missing, every name can be made.
def Sturdy (t : FileTree) (p : FilePath) : Prop :=
  ∀ front first rest left l, p.names = front ++ first :: rest →
    Route t maxLinks (base t.here p) front left l → first ≠ ".." →
    ¬ maxNameSize < first.utf8ByteSize → t.node? (l ++ [first]) = none →
    ∀ name ∈ rest, ¬ maxNameSize < name.utf8ByteSize ∧ name ≠ ".."

variable {t u : FileTree} {p : FilePath} {l m k : Location} {links left : Nat} {root : Root}
  {names more front rest : List String} {first name : String} {followLast allowThere : Bool}

theorem Route.append {right : Nat} (first : Route t links l names left m)
    (second : Route t left m more right k) : Route t links l (names ++ more) right k := by
  induction first with
  | nil => exact second
  | up here _ ih => exact .up here (ih second)
  | down here notUp fits _ ih => exact .down here notUp fits (ih second)
  | link here notUp fits there _ ih =>
    have onward := ih second
    rw [List.append_assoc] at onward
    exact .link here notUp fits there onward

theorem route_down (wellFormed : t.WellFormed) (there : t.node? (l ++ names) = some .directory)
    (fits : ∀ name ∈ names, ¬ maxNameSize < name.utf8ByteSize) (notUp : ∀ name ∈ names, name ≠ "..") :
    Route t links l names links (l ++ names) := by
  induction names generalizing l with
  | nil =>
    rw [List.append_nil] at there ⊢
    exact .nil there
  | cons name rest ih =>
    have regroup : l ++ name :: rest = (l ++ [name]) ++ rest := by simp
    have here := wellFormed.above there (by simp)
    rw [regroup] at there ⊢
    exact .down here (notUp name (by simp)) (fits name (by simp))
      (ih there (fun other member => fits other (List.mem_cons_of_mem _ member))
        fun other member => notUp other (List.mem_cons_of_mem _ member))

theorem Walked.route (walked : Walked t true links l names m) (there : t.node? m = some .directory) :
    ∃ left, Route t links l names left m := by
  induction walked with
  | nil => exact ⟨_, .nil there⟩
  | up here _ ih =>
    obtain ⟨left, route⟩ := ih there
    exact ⟨left, .up here route⟩
  | down here notUp fits _ _ _ ih =>
    obtain ⟨left, route⟩ := ih there
    exact ⟨left, .down here notUp fits route⟩
  | absent _ _ _ nothing => cases nothing.symm.trans there
  | unfollowed _ _ _ _ stays => cases stays
  | link here notUp fits linked _ _ ih =>
    obtain ⟨left, route⟩ := ih there
    exact ⟨left, .link here notUp fits linked route⟩

theorem route_of_walk (found : t.walk true links l names = .ok m) (there : t.node? m = some .directory) :
    ∃ left, Route t links l names left m := (walk_ok_iff.mp found).route there

theorem layDown_append : t.layDown l (names ++ more) = (t.layDown l names).layDown (l ++ names) more := by
  induction names generalizing t l with
  | nil => simp [layDown]
  | cons name rest ih => simp [layDown, ih]

theorem layDown_parts (wellFormed : t.WellFormed) (here : t.node? l = some .directory)
    (absent : ∀ name rest, names = name :: rest → t.node? (l ++ [name]) = none) :
    (∀ k, Changes k everywhere t (t.layDown l names)) ∧
    (t.layDown l names).node? (l ++ names) = some .directory ∧
    (names ≠ [] → ∀ more, more ≠ [] → (t.layDown l names).node? (l ++ names ++ more) = none) := by
  -- Induction on the names. What is below the first stays empty until it is made.
  induction names generalizing t l with
  | nil => exact ⟨fun _ => .refl _ _ _, by simpa [layDown] using here, by simp⟩
  | cons name rest ih =>
    have missing := absent name rest rfl
    have parent : t.node? (l ++ [name]).dropLast = some .directory := by rwa [List.dropLast_concat]
    have made : ∀ k, Changes k everywhere t (t.put (l ++ [name]) .directory) :=
      fun k => changes_made missing parent trivial
    have at_ := node?_put (t := t) (ne_nil_of_absent missing) .directory
    have empty : ∀ more, more ≠ [] → (t.put (l ++ [name]) .directory).node? (l ++ [name] ++ more) = none := by
      intro more some_
      have apart : l ++ [name] ++ more ≠ l ++ [name] := by simpa using some_
      rw [at_, if_neg apart]
      exact wellFormed.missing (by simp [missing]) some_
    obtain ⟨changes, there, nothing⟩ := ih ((made []).wellFormed wellFormed) (by rw [at_, if_pos rfl])
      fun other _ _ => empty [other] (by simp)
    have regroup : l ++ name :: rest = (l ++ [name]) ++ rest := by simp
    rw [regroup]
    refine ⟨fun k => (made k).trans (changes k), there, fun _ more some_ => ?_⟩
    by_cases last : rest = []
    · subst last
      simpa [layDown] using empty more some_
    · exact nothing last more some_

theorem WellFormed.parent (wellFormed : t.WellFormed) (there : t.node? l = some .directory) :
    t.node? l.dropLast = some .directory := by
  rcases List.eq_nil_or_concat l with rfl | ⟨up, name, rfl⟩
  · exact there
  · rw [List.concat_eq_append] at there ⊢
    rw [List.dropLast_concat]
    exact wellFormed up name _ there

namespace Fresh

theorem here (fresh : Fresh t p front first rest l) : t.node? l = some .directory := by
  obtain ⟨left, route⟩ := fresh.route
  exact route.end

theorem laid (fresh : Fresh t p front first rest l) (wellFormed : t.WellFormed) :
    (∀ k, Changes k everywhere t (t.layDown l (first :: rest))) ∧
    (t.layDown l (first :: rest)).node? (l ++ first :: rest) = some .directory ∧
    ∀ more, more ≠ [] → (t.layDown l (first :: rest)).node? (l ++ first :: rest ++ more) = none := by
  have absent : ∀ name others, first :: rest = name :: others → t.node? (l ++ [name]) = none := by
    intro name others same
    cases same
    exact fresh.absent
  obtain ⟨changes, there, nothing⟩ := layDown_parts wellFormed fresh.here absent
  exact ⟨changes, there, nothing (by simp)⟩

theorem walk (fresh : Fresh t p front first rest l) (more : names ≠ []) :
    t.walk followLast maxLinks (base t.here p) (p.names ++ names) = .error .noEntry := by
  obtain ⟨left, route⟩ := fresh.route
  have onward : (rest ++ names).isEmpty = false := by simp [more]
  rw [fresh.names, List.append_assoc, walk_route route (by simp), List.cons_append, walk_cons, fresh.here]
  simp only [fresh.notUp first (by simp), fresh.fits first (by simp), fresh.absent, onward, if_false,
    Bool.false_eq_true]

theorem astray (fresh : Fresh t p front first rest l) (k : Location) : ¬ Stands t p k := by
  intro stands
  obtain ⟨left, route⟩ := stands.route
  have refused : t.walk true maxLinks (base t.here p) (p.names ++ [".."]) = .error .noEntry :=
    fresh.walk (by simp)
  rw [walk_route route (by simp), walk_cons, route.end] at refused
  simp only [if_true, walk_nil] at refused
  cases refused

theorem isFile (fresh : Fresh t p front first rest l) (more : names ≠ []) :
    t.isFile (p.under names) = .ok false := by
  have nothing : t.probe (p.under names) = .ok none := by
    have walked : t.walk true maxLinks (base t.here (p.under names)) (p.under names).names =
        .error .noEntry := fresh.walk more
    unfold probe locate
    cases nul : (p.under names).hasNul with
    | true => rfl
    | false => simp only [walked, Bool.false_eq_true, if_false]
  unfold FileTree.isFile
  rw [nothing]
  rfl

theorem stands (fresh : Fresh t p front first rest l) (wellFormed : t.WellFormed) :
    Stands (t.layDown l (first :: rest)) p (l ++ first :: rest) := by
  obtain ⟨changes, there, _⟩ := fresh.laid wellFormed
  obtain ⟨left, route⟩ := fresh.route
  refine ⟨fresh.noNul, left, ?_⟩
  rw [fresh.names, (changes []).here]
  have upper := route.congr (fun m target => ((changes []).links m target).mp) (changes []).directories
  exact upper.append (route_down ((changes []).wellFormed wellFormed) there fresh.fits fresh.notUp)

theorem clear (fresh : Fresh t p front first rest l) (wellFormed : t.WellFormed) :
    Clear (t.layDown l (first :: rest)) (l ++ first :: rest) := by
  intro more some_ target there
  rw [(fresh.laid wellFormed).2.2 more some_] at there
  cases there

end Fresh

theorem makeDirectory_last {q : FilePath} (noNul : q.hasNul = false) (names_ : q.names = front ++ [name])
    (route : Route t maxLinks (base t.here q) front left l) (notUp : name ≠ "..")
    (fits : ¬ maxNameSize < name.utf8ByteSize) :
    t.makeDirectory q = match t.node? (l ++ [name]) with
      | some _ => refuse .alreadyThere q
      | none => .ok (t.put (l ++ [name]) .directory) := by
  have found : t.locate false q = .ok (l ++ [name]) := by
    refine locate_ok_iff.mpr ⟨noNul, walk_ok_iff.mp ?_⟩
    rw [names_, walk_route route (by simp), walk_cons, route.end]
    simp only [notUp, fits, if_false]
    cases there : t.node? (l ++ [name]) with
    | none => rfl
    | some node =>
      cases node with
      | link target => rfl
      | directory => simp only [walk_nil]
      | file content executable => simp only [walk_nil]
  unfold makeDirectory
  rw [found]
  rfl

theorem makeDirectory_long {q : FilePath} (noNul : q.hasNul = false) (names_ : q.names = front ++ [name])
    (route : Route t maxLinks (base t.here q) front left l) (notUp : name ≠ "..")
    (long : maxNameSize < name.utf8ByteSize) : t.makeDirectory q = refuse .nameTooLong q := by
  have found : t.locate false q = refuse .nameTooLong q := by
    unfold locate
    rw [noNul, names_, walk_route route (by simp), walk_cons, route.end]
    simp only [notUp, long, if_true, if_false, Bool.false_eq_true]
    rfl
  unfold makeDirectory
  rw [found]
  rfl

theorem makeDirectory_far {q : FilePath} (noNul : q.hasNul = false) (names_ : q.names = front ++ first :: rest)
    (route : Route t maxLinks (base t.here q) front left l) (absent : t.node? (l ++ [first]) = none)
    (notUp : first ≠ "..") (fits : ¬ maxNameSize < first.utf8ByteSize) (more : rest ≠ []) :
    t.makeDirectory q = refuse .noEntry q := by
  have found : t.locate false q = refuse .noEntry q := by
    unfold locate
    rw [noNul, names_, walk_route route (by simp), walk_cons, route.end]
    have notLast : rest.isEmpty = false := by simp [more]
    simp only [notUp, fits, absent, notLast, if_false, Bool.false_eq_true]
    rfl
  unfold makeDirectory
  rw [found]
  rfl

theorem makeDirectories_fresh (wellFormed : t.WellFormed)
    (noNul : FilePath.anyNul (front ++ first :: rest ++ more) = false)
    (route : Route t maxLinks (base t.here ⟨root, front⟩) front left l)
    (absent : t.node? (l ++ [first]) = none)
    (fits : ∀ name ∈ first :: rest, ¬ maxNameSize < name.utf8ByteSize)
    (notUp : ∀ name ∈ first :: rest, name ≠ "..") :
    makeDirectories t root (front ++ first :: rest ++ more) allowThere (front ++ first :: rest).length =
      ⟨t.layDown l (first :: rest), none⟩ := by
  -- Induction on the missing names from the last one back. A name with others missing before it is refused at
  -- first and made once they are there.
  induction rest using List.reverseRecOn generalizing more allowThere with
  | nil =>
    have short : FilePath.hasNul ⟨root, front ++ [first]⟩ = false := by
      simp only [FilePath.anyNul, List.any_append, Bool.or_eq_false_iff] at noNul
      simpa [FilePath.hasNul] using noNul.1
    have made : makeDirectoryOr allowThere t ⟨root, front ++ [first]⟩ =
        .ok (t.put (l ++ [first]) .directory) := by
      unfold makeDirectoryOr
      rw [makeDirectory_last short rfl route (notUp first (by simp)) (fits first (by simp)), absent]
    exact makeDirectories_made (by rwa [List.take_left])
  | append_singleton before last ih =>
    have regroup : front ++ first :: (before ++ [last]) = front ++ first :: before ++ [last] := by simp
    have split : front ++ first :: (before ++ [last]) ++ more = front ++ first :: before ++ last :: more := by
      simp
    have short : FilePath.hasNul ⟨root, front ++ first :: (before ++ [last])⟩ = false := by
      simp only [FilePath.anyNul, List.any_append, Bool.or_eq_false_iff] at noNul
      simpa [FilePath.hasNul] using noNul.1
    have inner : ∀ name ∈ first :: before, name ∈ first :: (before ++ [last]) := by
      intro name member
      rw [← List.cons_append]
      exact List.mem_append_left _ member
    rw [split] at noNul
    have above := @ih (last :: more) true noNul (fun name member => fits name (inner name member))
      fun name member => notUp name (inner name member)
    have missing : ∀ name others, first :: before = name :: others → t.node? (l ++ [name]) = none := by
      intro name others same
      cases same
      exact absent
    obtain ⟨changes, there, nothing⟩ := layDown_parts wellFormed route.end missing
    have refused : makeDirectoryOr allowThere t ⟨root, front ++ first :: (before ++ [last])⟩ =
        refuse .noEntry ⟨root, front ++ first :: (before ++ [last])⟩ := by
      unfold makeDirectoryOr
      rw [makeDirectory_far short rfl route absent (notUp first (by simp)) (fits first (by simp)) (by simp)]
      rfl
    have laid : Route (t.layDown l (first :: before)) maxLinks
        (base (t.layDown l (first :: before)).here ⟨root, front ++ first :: (before ++ [last])⟩)
        (front ++ first :: before) left (l ++ first :: before) := by
      rw [(changes []).here]
      exact (route.congr (fun m target => ((changes []).links m target).mp) (changes []).directories).append
        (route_down ((changes []).wellFormed wellFormed) there
          (fun name member => fits name (inner name member)) fun name member => notUp name (inner name member))
    have made : makeDirectoryOr allowThere (t.layDown l (first :: before))
        ⟨root, front ++ first :: (before ++ [last])⟩ = .ok (t.layDown l (first :: (before ++ [last]))) := by
      unfold makeDirectoryOr
      rw [makeDirectory_last short regroup laid (notUp last (by simp)) (fits last (by simp)),
        nothing (by simp) [last] (by simp), ← List.cons_append, layDown_append]
      rfl
    have next : (front ++ first :: (before ++ [last])).length = (front ++ first :: before).length + 1 := by
      simp
      omega
    rw [makeDirectories_again next (by rwa [List.take_left]), List.take_left, split, above, Trail.next_ok rfl made]

theorem ensureDirectory_fresh {q : FilePath} (wellFormed : t.WellFormed) (noNul : q.hasNul = false)
    (names_ : q.names = front ++ first :: rest)
    (route : Route t maxLinks (base t.here q) front left l)
    (absent : t.node? (l ++ [first]) = none)
    (fits : ∀ name ∈ first :: rest, ¬ maxNameSize < name.utf8ByteSize)
    (notUp : ∀ name ∈ first :: rest, name ≠ "..") :
    t.ensureDirectory q = ⟨t.layDown l (first :: rest), none⟩ := by
  obtain ⟨root, names⟩ := q
  simp only at names_
  subst names_
  have whole : FilePath.anyNul (front ++ first :: rest ++ []) = false := by
    rw [List.append_nil]
    exact noNul
  have all : makeDirectories t root (front ++ first :: rest ++ []) true (front ++ first :: rest).length =
      ⟨t.layDown l (first :: rest), none⟩ := makeDirectories_fresh wellFormed whole route absent fits notUp
  rw [List.append_nil] at all
  exact all

theorem Fresh.ensureDirectory (fresh : Fresh t p front first rest l) (wellFormed : t.WellFormed)
    (nameable : Nameable [name]) (notUp : name ≠ "..") :
    (t.ensureDirectory (p.under [name])).fault = none ∧
      t.ensureDirectory (p.under [name]) =
        (t.layDown l (first :: rest)).ensureDirectory (p.under [name]) := by
  obtain ⟨_, there, nothing⟩ := fresh.laid wellFormed
  obtain ⟨left, route⟩ := fresh.route
  obtain ⟨_, onward⟩ := (fresh.stands wellFormed).route
  have fits : ¬ maxNameSize < name.utf8ByteSize := nameable.fits name (by simp)
  have noNul : (p.under [name]).hasNul = false := by
    rw [FilePath.hasNul_under, fresh.noNul, nameable.noNul]
    rfl
  have names_ : (p.under [name]).names = front ++ first :: (rest ++ [name]) := by
    simp [FilePath.under, fresh.names]
  have all : t.ensureDirectory (p.under [name]) = ⟨t.layDown l (first :: (rest ++ [name])), none⟩ := by
    refine ensureDirectory_fresh wellFormed noNul names_ route fresh.absent ?_ ?_
    · intro other member
      rw [← List.cons_append] at member
      rcases List.mem_append.mp member with inner | last
      · exact fresh.fits other inner
      · rw [List.mem_singleton.mp last]
        exact fits
    · intro other member
      rw [← List.cons_append] at member
      rcases List.mem_append.mp member with inner | last
      · exact fresh.notUp other inner
      · rw [List.mem_singleton.mp last]
        exact notUp
  have one : (t.layDown l (first :: rest)).ensureDirectory (p.under [name]) =
      ⟨(t.layDown l (first :: rest)).layDown (l ++ first :: rest) [name], none⟩ :=
    ensureDirectory_fresh ((fresh.laid wellFormed).1 [] |>.wellFormed wellFormed) noNul rfl onward
      (nothing [name] (by simp)) (by simpa using fits) (by simpa using notUp)
  rw [all, one, ← layDown_append]
  exact ⟨rfl, rfl⟩

theorem probe_absent (stands : Stands t p l) (clear : Clear t l)
    (plain : ∀ name ∈ names, name ≠ "..") (nonempty : names ≠ []) (nameable : Nameable names)
    (absent : t.node? (l ++ names) = none) : t.probe (p.under names) = .ok none := by
  unfold probe
  rw [locate_under stands clear plain nonempty, reach, nameable.noNul]
  cases down : t.descend l names with
  | ok m => simp [descend_eq down, absent]
  | error refusal =>
    have short := descend_not_long nameable.fits down
    cases refusal <;> first | rfl | exact absurd rfl short

theorem isFile_absent (stands : Stands t p l) (clear : Clear t l)
    (plain : ∀ name ∈ names, name ≠ "..") (nonempty : names ≠ []) (nameable : Nameable names)
    (absent : t.node? (l ++ names) = none) : t.isFile (p.under names) = .ok false := by
  unfold isFile
  rw [probe_absent stands clear plain nonempty nameable absent]
  rfl

theorem isDirectory_route {q : FilePath} (asked : t.isDirectory q = .ok true) :
    ∃ left m, Route t maxLinks (base t.here q) q.names left m := by
  obtain ⟨m, located, there⟩ := isDirectory_located asked
  obtain ⟨left, route⟩ := (locate_ok_iff.mp located).2.route there
  exact ⟨left, m, route⟩

theorem makeDirectoryOr_refused {q : FilePath} (unmade : ∀ u, t.makeDirectory q ≠ .ok u)
    (astray : ¬ ∃ left m, Route t maxLinks (base t.here q) q.names left m) :
    ∃ fault, makeDirectoryOr allowThere t q = .error fault := by
  cases ran : makeDirectoryOr allowThere t q with
  | error fault => exact ⟨fault, rfl⟩
  | ok u =>
    rcases makeDirectoryOr_parts ran with made | ⟨_, _, there⟩
    · exact absurd made (unmade u)
    · exact absurd (isDirectory_route there) astray

-- A directory that is refused for another reason than a missing one above it: nothing above is made either.
theorem makeDirectories_blocked {refusal : Refusal}
    (noNul : FilePath.anyNul (front ++ first :: rest) = false)
    (denied : t.makeDirectory ⟨root, front ++ [first]⟩ = refuse refusal ⟨root, front ++ [first]⟩)
    (other : refusal ≠ .noEntry)
    (astray : ¬ ∃ left m, Route t maxLinks (base t.here ⟨root, front⟩) (front ++ [first]) left m)
    (count : Nat) : ∃ fault,
      makeDirectories t root (front ++ first :: rest) allowThere (front.length + 1 + count) =
        ⟨t, some fault⟩ := by
  have further : ∀ more, ¬ ∃ left m,
      Route t maxLinks (base t.here ⟨root, front ++ first :: more⟩) (front ++ first :: more) left m := by
    rintro more ⟨left, m, long⟩
    exact astray (long.beginning (by simp))
  have cut : ∀ count, (front ++ first :: rest).take (front.length + 1 + count) =
      front ++ first :: rest.take count := by
    intro count
    rw [List.take_append, List.take_of_length_le (by omega),
      show front.length + 1 + count - front.length = count + 1 by omega, List.take_succ_cons]
  have short : ∀ more, more <+: rest → FilePath.hasNul ⟨root, front ++ first :: more⟩ = false := by
    rintro more ⟨others, rfl⟩
    rw [← List.cons_append, ← List.append_assoc] at noNul
    simp only [FilePath.anyNul, List.any_append, Bool.or_eq_false_iff] at noNul
    simpa [FilePath.hasNul] using noNul.1
  obtain ⟨behind, stuck⟩ := (route_or_refused t maxLinks (base t.here ⟨root, front⟩)
    (front ++ [first])).resolve_left astray
  have unmade : ∀ more, more <+: rest → ∀ u, t.makeDirectory ⟨root, front ++ first :: more⟩ ≠ .ok u := by
    intro more inside u made
    cases more with
    | nil =>
      rw [denied] at made
      cases made
    | cons next others =>
      have walked : t.walk false maxLinks (base t.here ⟨root, front ++ first :: next :: others⟩)
          (front ++ first :: next :: others) = .error behind := by
        have refused := stuck false (next :: others) (by simp)
        rwa [List.append_assoc] at refused
      unfold makeDirectory locate at made
      simp only [short _ inside, walked, Bool.false_eq_true, if_false] at made
      cases made
  have refused : ∀ count allowThere, ∃ fault, makeDirectoryOr allowThere t
      ⟨root, (front ++ first :: rest).take (front.length + 1 + count)⟩ = .error fault := by
    intro count allowThere
    rw [cut]
    exact makeDirectoryOr_refused (unmade _ (List.take_prefix _ _)) (further _)
  induction count generalizing allowThere with
  | zero =>
    obtain ⟨fault, failed⟩ := refused 0 allowThere
    refine ⟨fault, makeDirectories_failed failed fun shown missing => ?_⟩
    subst missing
    rw [cut, List.take_zero] at failed
    rw [makeDirectoryOr_noEntry failed] at denied
    cases denied
    exact other rfl
  | succ count ih =>
    obtain ⟨fault, failed⟩ := refused (count + 1) allowThere
    by_cases missing : ∃ shown, fault = .system .noEntry shown
    · obtain ⟨shown, rfl⟩ := missing
      obtain ⟨earlier, above⟩ := @ih true
      exact ⟨earlier, by
        rw [makeDirectories_again (Nat.add_assoc _ count 1).symm failed, above, Trail.next_fault rfl]⟩
    · exact ⟨fault, makeDirectories_failed failed fun shown same => missing ⟨shown, same⟩⟩

theorem exists_front {P : List String → Prop} (start : P []) (missed : ¬ P names) :
    ∃ front name rest, names = front ++ name :: rest ∧ P front ∧ ¬ P (front ++ [name]) := by
  induction names using List.reverseRecOn with
  | nil => exact absurd start missed
  | append_singleton before last ih =>
    by_cases reached : P before
    · exact ⟨before, last, [], rfl, reached, missed⟩
    · obtain ⟨front, name, rest, rfl, here, stuck⟩ := ih reached
      exact ⟨front, name, rest ++ [last], by simp, here, stuck⟩

theorem ensureDirectory_nul {q : FilePath} (nul : q.hasNul = true) :
    ∃ fault, t.ensureDirectory q = ⟨t, some fault⟩ := by
  obtain ⟨root, names⟩ := q
  have refused : ∀ allowThere, makeDirectoryOr allowThere t ⟨root, names⟩ = .error .nulInPath := by
    intro allowThere
    unfold makeDirectoryOr makeDirectory locate
    rw [nul]
    rfl
  unfold ensureDirectory
  exact ⟨_, makeDirectories_failed (by rw [List.take_length, refused]) (by simp)⟩

theorem sturdy_of_names
    (names_ : ∀ name ∈ p.names, ¬ maxNameSize < name.utf8ByteSize ∧ name ≠ "..") : Sturdy t p := by
  intro front first rest left l split_ _ _ _ _ name later
  exact names_ name (split_ ▸ List.mem_append_right _ (List.mem_cons_of_mem _ later))

-- Where a path does not stand, directories of it are missing that can be made, or nothing can be made below it.
theorem fresh_or_blocked (wellFormed : t.WellFormed) (absolute : p.root ≠ .relative)
    (sturdy : Sturdy t p) (astray : ∀ l, ¬ Stands t p l) : (∃ front first rest l, Fresh t p front first rest l) ∨
      ∀ name, Nameable [name] → ∃ fault, t.ensureDirectory (p.under [name]) = ⟨t, some fault⟩ := by
  cases noNul : p.hasNul with
  | true =>
    refine .inr fun name _ => ensureDirectory_nul ?_
    rw [FilePath.hasNul_under, noNul, Bool.true_or]
  | false =>
    have stuck : ¬ ∃ left l, Route t maxLinks (base t.here p) p.names left l := by
      rintro ⟨left, l, route⟩
      exact astray l ⟨noNul, left, route⟩
    have start : ∃ left l, Route t maxLinks (base t.here p) [] left l := by
      rw [show base t.here p = [] from base_absolute absolute t.here]
      exact ⟨_, _, .nil (node?_top t)⟩
    obtain ⟨front, name, rest, names_, ⟨left, l, route⟩, short⟩ := exists_front
      (P := fun names => ∃ left l, Route t maxLinks (base t.here p) names left l) start stuck
    have notUp : name ≠ ".." := by
      rintro rfl
      exact short ⟨left, _, route.append (.up route.end (.nil (wellFormed.parent route.end)))⟩
    -- Nothing can be made behind a name that cannot be made itself.
    have blocked : ∀ refusal, refusal ≠ .noEntry →
        (FilePath.hasNul ⟨p.root, front ++ [name]⟩ = false →
          t.makeDirectory ⟨p.root, front ++ [name]⟩ = refuse refusal ⟨p.root, front ++ [name]⟩) →
        ∀ last, Nameable [last] → ∃ fault, t.ensureDirectory (p.under [last]) = ⟨t, some fault⟩ := by
      intro refusal other denied last nameable
      have whole : (p.under [last]).names = front ++ name :: (rest ++ [last]) := by
        simp [FilePath.under, names_]
      have noNul_ : FilePath.anyNul (front ++ name :: (rest ++ [last])) = false := by
        rw [← whole]
        have under_ : (p.under [last]).hasNul = (p.hasNul || FilePath.anyNul [last]) := FilePath.hasNul_under
        rw [noNul, nameable.noNul] at under_
        exact under_
      have length : (front ++ name :: (rest ++ [last])).length = front.length + 1 + (rest ++ [last]).length := by
        simp only [List.length_append, List.length_cons]
        omega
      have clean : FilePath.hasNul ⟨p.root, front ++ [name]⟩ = false := by
        rw [show front ++ name :: (rest ++ [last]) = (front ++ [name]) ++ (rest ++ [last]) by simp] at noNul_
        simp only [FilePath.anyNul, List.any_append, Bool.or_eq_false_iff] at noNul_
        simpa [FilePath.hasNul] using noNul_.1
      unfold FileTree.ensureDirectory
      rw [whole, length]
      exact makeDirectories_blocked noNul_ (denied clean) other short _
    by_cases long : maxNameSize < name.utf8ByteSize
    · exact .inr (blocked .nameTooLong (by simp) fun clean => makeDirectory_long clean rfl route notUp long)
    · cases there : t.node? (l ++ [name]) with
      | none =>
        have further := sturdy front name rest left l names_ route notUp long there
        refine .inl ⟨front, name, rest, l, noNul, names_, ⟨left, route⟩, there, ?_, ?_⟩
        · exact List.forall_mem_cons.mpr ⟨long, fun other member => (further other member).1⟩
        · exact List.forall_mem_cons.mpr ⟨notUp, fun other member => (further other member).2⟩
      | some node =>
        refine .inr (blocked .alreadyThere (by simp) fun clean => ?_)
        rw [makeDirectory_last clean rfl route notUp long, there]

end AbiBuild.FileTree
