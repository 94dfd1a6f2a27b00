import AbiBuild.FileTree.Walk

namespace AbiBuild.FileTree

-- A way down directories and links, from a number of links that may be followed to the number left.
inductive Route (t : FileTree) : Nat → Location → List String → Nat → Location → Prop
  | nil {links : Nat} {l : Location} (here : t.node? l = some .directory) : Route t links l [] links l
  | up {links left : Nat} {l m : Location} {names : List String} (here : t.node? l = some .directory)
      (rest : Route t links l.dropLast names left m) : Route t links l (".." :: names) left m
  | down {links left : Nat} {l m : Location} {name : String} {names : List String}
      (here : t.node? l = some .directory) (notUp : name ≠ "..")
      (fits : ¬ maxNameSize < name.utf8ByteSize) (rest : Route t links (l ++ [name]) names left m) :
      Route t links l (name :: names) left m
  | link {links left : Nat} {l m : Location} {name target : String} {names : List String}
      (here : t.node? l = some .directory) (notUp : name ≠ "..")
      (fits : ¬ maxNameSize < name.utf8ByteSize) (there : t.node? (l ++ [name]) = some (.link target))
      (rest : Route t links (base l (.ofText target)) ((FilePath.ofText target).names ++ names) left m) :
      Route t (links + 1) l (name :: names) left m

-- Where a path leads, whether or not there is anything on the way.
inductive Leads (t : FileTree) : Location → List String → Location → Prop
  | nil {l : Location} : Leads t l [] l
  | up {l m : Location} {names : List String} (rest : Leads t l.dropLast names m) : Leads t l (".." :: names) m
  | down {l m : Location} {name : String} {names : List String} (notUp : name ≠ "..")
      (noLink : ∀ target, t.node? (l ++ [name]) ≠ some (.link target))
      (rest : Leads t (l ++ [name]) names m) : Leads t l (name :: names) m
  | link {l m : Location} {name target : String} {names : List String} (notUp : name ≠ "..")
      (there : t.node? (l ++ [name]) = some (.link target))
      (rest : Leads t (base l (.ofText target)) ((FilePath.ofText target).names ++ names) m) :
      Leads t l (name :: names) m

-- A walk that comes to a place. Only the last name may be that of nothing, or of a link that is not followed.
inductive Walked (t : FileTree) (followLast : Bool) : Nat → Location → List String → Location → Prop
  | nil {links : Nat} {l : Location} : Walked t followLast links l [] l
  | up {links : Nat} {l m : Location} {names : List String} (here : t.node? l = some .directory)
      (rest : Walked t followLast links l.dropLast names m) : Walked t followLast links l (".." :: names) m
  | down {links : Nat} {l m : Location} {name : String} {names : List String} {node : Node}
      (here : t.node? l = some .directory) (notUp : name ≠ "..") (fits : ¬ maxNameSize < name.utf8ByteSize)
      (there : t.node? (l ++ [name]) = some node) (noLink : ∀ target, node ≠ .link target)
      (rest : Walked t followLast links (l ++ [name]) names m) : Walked t followLast links l (name :: names) m
  | absent {links : Nat} {l : Location} {name : String} (here : t.node? l = some .directory)
      (notUp : name ≠ "..") (fits : ¬ maxNameSize < name.utf8ByteSize)
      (nothing : t.node? (l ++ [name]) = none) : Walked t followLast links l [name] (l ++ [name])
  | unfollowed {links : Nat} {l : Location} {name target : String} (here : t.node? l = some .directory)
      (notUp : name ≠ "..") (fits : ¬ maxNameSize < name.utf8ByteSize)
      (there : t.node? (l ++ [name]) = some (.link target)) (stays : followLast = false) :
      Walked t followLast links l [name] (l ++ [name])
  | link {links : Nat} {l m : Location} {name target : String} {names : List String}
      (here : t.node? l = some .directory) (notUp : name ≠ "..")
      (fits : ¬ maxNameSize < name.utf8ByteSize) (there : t.node? (l ++ [name]) = some (.link target))
      (followed : names = [] → followLast = true)
      (rest : Walked t followLast links (base l (.ofText target)) ((FilePath.ofText target).names ++ names) m) :
      Walked t followLast (links + 1) l (name :: names) m

def SameLinks (t u : FileTree) : Prop :=
  ∀ m target, t.node? m = some (.link target) ↔ u.node? m = some (.link target)

variable {t u : FileTree} {links left : Nat} {l m k : Location} {name target : String}
  {names rest : List String} {followLast : Bool}

theorem walk_nil : t.walk followLast links l [] = .ok l := by
  cases links <;> rfl

theorem walk_eq : t.walk followLast links l names =
    match t.advance followLast l names with
    | .found place => .ok place
    | .refused refusal => .error refusal
    | .follow from_ target rest =>
      match links with
      | 0 => .error .tooManyLinks
      | links + 1 =>
        t.walk followLast links (base from_ (.ofText target)) ((FilePath.ofText target).names ++ rest) :=
  walk.eq_def ..

theorem walk_cons : t.walk followLast links l (name :: rest) =
    match t.node? l with
    | some .directory =>
      if name = ".." then t.walk followLast links l.dropLast rest
      else if maxNameSize < name.utf8ByteSize then .error .nameTooLong
      else
        match t.node? (l ++ [name]) with
        | some (.link target) =>
          if rest.isEmpty && !followLast then .ok (l ++ [name])
          else
            match links with
            | 0 => .error .tooManyLinks
            | links + 1 =>
              t.walk followLast links (base l (.ofText target)) ((FilePath.ofText target).names ++ rest)
        | some _ => t.walk followLast links (l ++ [name]) rest
        | none => if rest.isEmpty then .ok (l ++ [name]) else .error .noEntry
    | some (.file ..) => .error .notDirectory
    | _ => .error .noEntry := by
  rw [walk_eq, advance]
  cases here : t.node? l with
  | none => rfl
  | some node =>
    cases node with
    | file content executable => rfl
    | link target => rfl
    | directory =>
      by_cases up : name = ".."
      · simp only [up, if_true]
        exact walk_eq.symm
      · by_cases long : maxNameSize < name.utf8ByteSize
        · simp only [up, long, if_true, if_false]
        · simp only [up, long, if_false]
          cases below : t.node? (l ++ [name]) with
          | none => cases rest <;> rfl
          | some node =>
            cases node with
            | link target =>
              by_cases last : (rest.isEmpty && !followLast) = true
              · simp only [last, if_true]
              · simp only [last, if_false, Bool.false_eq_true]
            | file content executable => exact walk_eq.symm
            | directory => exact walk_eq.symm

theorem walked_of_walk (found : t.walk followLast links l names = .ok m) : Walked t followLast links l names m := by
  -- Induction on the links that may still be followed, then on the names.
  induction links using Nat.strongRecOn generalizing l names with
  | ind links fewer =>
    induction names generalizing l with
    | nil =>
      rw [walk_nil] at found
      cases found
      exact .nil
    | cons name names ih =>
      rw [walk_cons] at found
      split at found
      · rename_i here
        split at found
        · rename_i up
          subst up
          exact .up here (ih found)
        · rename_i notUp
          split at found
          · cases found
          · rename_i fits
            split at found
            · rename_i target there
              split at found
              · rename_i last
                simp only [Bool.and_eq_true, List.isEmpty_iff, Bool.not_eq_true'] at last
                obtain ⟨rfl, stays⟩ := last
                cases found
                exact .unfollowed here notUp fits there stays
              · rename_i further
                cases links with
                | zero => cases found
                | succ links =>
                  refine .link here notUp fits there (fun last => ?_) (fewer links (Nat.lt_succ_self _) found)
                  simpa [last] using further
            · rename_i node noLink there
              exact .down here notUp fits there noLink (ih found)
            · rename_i nothing
              split at found
              · rename_i last
                rw [List.isEmpty_iff] at last
                subst last
                cases found
                exact .absent here notUp fits nothing
              · cases found
      · cases found
      · cases found

theorem Walked.walk (walked : Walked t followLast links l names m) : t.walk followLast links l names = .ok m := by
  induction walked with
  | nil => exact walk_nil
  | up here _ ih => simpa only [walk_cons, here, if_true] using ih
  | @down _ _ _ name names node here notUp fits there noLink _ ih =>
    rw [walk_cons, here]
    simp only [notUp, fits, there, if_false]
    cases node with
    | link target => exact absurd rfl (noLink target)
    | file => exact ih
    | directory => exact ih
  | absent here notUp fits nothing =>
    rw [walk_cons, here]
    simp [notUp, fits, nothing]
  | unfollowed here notUp fits there stays =>
    rw [walk_cons, here]
    simp [notUp, fits, there, stays]
  | @link _ _ _ _ _ names here notUp fits there followed _ ih =>
    have further : (names.isEmpty && !followLast) = false := by
      cases names with
      | nil => simp [followed rfl]
      | cons => rfl
    rw [walk_cons, here]
    simpa only [notUp, fits, there, further, if_false, Bool.false_eq_true] using ih

theorem walk_ok_iff : t.walk followLast links l names = .ok m ↔ Walked t followLast links l names m :=
  ⟨walked_of_walk, Walked.walk⟩

theorem Walked.start (walked : Walked t followLast links l (name :: names) m) : t.node? l = some .directory := by
  cases walked <;> assumption

theorem Route.start (route : Route t links l names left m) : t.node? l = some .directory := by
  cases route <;> assumption

theorem Route.end (route : Route t links l names left m) : t.node? m = some .directory := by
  induction route with
  | nil here => exact here
  | up _ _ ih => exact ih
  | down _ _ _ _ ih => exact ih
  | link _ _ _ _ _ ih => exact ih

theorem walk_route (route : Route t links l names left m) (more : rest ≠ []) :
    t.walk followLast links l (names ++ rest) = t.walk followLast left m rest := by
  induction route with
  | nil _ => rfl
  | up here _ ih =>
    rw [List.cons_append, walk_cons, here]
    simpa using ih
  | down here notUp fits route ih =>
    rw [List.cons_append, walk_cons, here]
    simpa [notUp, fits, route.start] using ih
  | @link links left l m name target names here notUp fits there _ ih =>
    have notLast : (names ++ rest).isEmpty = false := by simp [more]
    rw [List.cons_append, walk_cons, here]
    simp only [notUp, fits, there, notLast, if_false, Bool.false_and, Bool.false_eq_true]
    rw [← List.append_assoc]
    exact ih

theorem walk_stuck (here : t.node? l ≠ some .directory) (links : Nat) :
    ∃ refusal, ∀ followLast rest, rest ≠ [] → t.walk followLast links l rest = .error refusal := by
  cases node : t.node? l with
  | none =>
    refine ⟨.noEntry, fun followLast rest more => ?_⟩
    obtain ⟨name, others, rfl⟩ := List.exists_cons_of_ne_nil more
    rw [walk_cons, node]
  | some found =>
    cases found with
    | directory => exact absurd node here
    | file content executable =>
      refine ⟨.notDirectory, fun followLast rest more => ?_⟩
      obtain ⟨name, others, rfl⟩ := List.exists_cons_of_ne_nil more
      rw [walk_cons, node]
    | link target =>
      refine ⟨.noEntry, fun followLast rest more => ?_⟩
      obtain ⟨name, others, rfl⟩ := List.exists_cons_of_ne_nil more
      rw [walk_cons, node]

theorem route_or_refused (t : FileTree) (links : Nat) (l : Location) (names : List String) :
    (∃ left m, Route t links l names left m) ∨
      ∃ refusal, ∀ followLast rest, rest ≠ [] →
        t.walk followLast links l (names ++ rest) = .error refusal := by
  induction links using Nat.strongRecOn generalizing l names with
  | ind links fewer =>
    induction names generalizing l with
    | nil =>
      by_cases here : t.node? l = some .directory
      · exact .inl ⟨links, l, .nil here⟩
      · exact .inr (walk_stuck here links)
    | cons name names ih =>
      by_cases here : t.node? l = some .directory
      · by_cases up : name = ".."
        · subst up
          rcases ih l.dropLast with ⟨left, m, route⟩ | ⟨refusal, refused⟩
          · exact .inl ⟨left, m, .up here route⟩
          · refine .inr ⟨refusal, fun followLast rest more => ?_⟩
            rw [List.cons_append, walk_cons, here]
            simpa using refused followLast rest more
        · by_cases long : maxNameSize < name.utf8ByteSize
          · refine .inr ⟨.nameTooLong, fun followLast rest more => ?_⟩
            rw [List.cons_append, walk_cons, here]
            simp [up, long]
          · cases below : t.node? (l ++ [name]) with
            | none =>
              refine .inr ⟨.noEntry, fun followLast rest more => ?_⟩
              rw [List.cons_append, walk_cons, here]
              simp [up, long, below, more]
            | some node =>
              cases node with
              | link target =>
                cases links with
                | zero =>
                  refine .inr ⟨.tooManyLinks, fun followLast rest more => ?_⟩
                  rw [List.cons_append, walk_cons, here]
                  simp [up, long, below, more]
                | succ links =>
                  rcases fewer links (Nat.lt_succ_self _) (base l (.ofText target))
                    ((FilePath.ofText target).names ++ names) with
                    ⟨left, m, route⟩ | ⟨refusal, refused⟩
                  · exact .inl ⟨left, m, .link here up long below route⟩
                  · refine .inr ⟨refusal, fun followLast rest more => ?_⟩
                    rw [List.cons_append, walk_cons, here]
                    have onward := refused followLast rest more
                    rw [List.append_assoc] at onward
                    simpa [up, long, below, more] using onward
              | directory =>
                rcases ih (l ++ [name]) with ⟨left, m, route⟩ | ⟨refusal, refused⟩
                · exact .inl ⟨left, m, .down here up long route⟩
                · refine .inr ⟨refusal, fun followLast rest more => ?_⟩
                  rw [List.cons_append, walk_cons, here]
                  simpa [up, long, below] using refused followLast rest more
              | file content executable =>
                -- A file is no place to go on from.
                have stuck : t.node? (l ++ [name]) ≠ some .directory := by simp [below]
                obtain ⟨refusal, refused⟩ := walk_stuck stuck links
                refine .inr ⟨refusal, fun followLast rest more => ?_⟩
                rw [List.cons_append, walk_cons, here]
                simpa [up, long, below] using refused followLast (names ++ rest) (by simp [more])
      · obtain ⟨refusal, refused⟩ := walk_stuck here links
        exact .inr ⟨refusal, fun followLast rest more => refused followLast _ (by simp)⟩

theorem Leads.deterministic (first : Leads t l names m) (second : Leads t l names k) : m = k := by
  induction first with
  | nil => cases second; rfl
  | up _ ih =>
    cases second with
    | up rest => exact ih rest
    | down notUp => exact absurd rfl notUp
    | link notUp => exact absurd rfl notUp
  | down notUp noLink _ ih =>
    cases second with
    | up => exact absurd rfl notUp
    | down _ _ rest => exact ih rest
    | link _ there => exact absurd there (noLink _)
  | link notUp there _ ih =>
    cases second with
    | up => exact absurd rfl notUp
    | down _ noLink => exact absurd there (noLink _)
    | link _ other rest =>
      have same := Option.some.inj (there.symm.trans other)
      cases same
      exact ih rest

theorem Leads.append (first : Leads t l names m) (second : Leads t m rest k) :
    Leads t l (names ++ rest) k := by
  induction first with
  | nil => exact second
  | up _ ih => exact .up (ih second)
  | down notUp noLink _ ih => exact .down notUp noLink (ih second)
  | link notUp there _ ih =>
    have onward := ih second
    rw [List.append_assoc] at onward
    exact .link notUp there onward

theorem Leads.split (leads : Leads t l (names ++ rest) k) :
    ∃ m, Leads t l names m ∧ Leads t m rest k := by
  generalize whole : names ++ rest = all at leads
  induction leads generalizing names with
  | nil =>
    obtain ⟨rfl, rfl⟩ := List.append_eq_nil_iff.mp whole
    exact ⟨_, .nil, .nil⟩
  | up further ih =>
    cases names with
    | nil =>
      rw [List.nil_append] at whole
      subst whole
      exact ⟨_, .nil, .up further⟩
    | cons name names =>
      obtain ⟨rfl, rfl⟩ := List.cons.inj whole
      obtain ⟨m, first, second⟩ := ih rfl
      exact ⟨m, .up first, second⟩
  | down notUp noLink further ih =>
    cases names with
    | nil =>
      rw [List.nil_append] at whole
      subst whole
      exact ⟨_, .nil, .down notUp noLink further⟩
    | cons name names =>
      obtain ⟨rfl, rfl⟩ := List.cons.inj whole
      obtain ⟨m, first, second⟩ := ih rfl
      exact ⟨m, .down notUp noLink first, second⟩
  | link notUp there further ih =>
    cases names with
    | nil =>
      rw [List.nil_append] at whole
      subst whole
      exact ⟨_, .nil, .link notUp there further⟩
    | cons name names =>
      obtain ⟨rfl, rfl⟩ := List.cons.inj whole
      obtain ⟨m, first, second⟩ := ih (List.append_assoc _ _ _)
      exact ⟨m, .link notUp there first, second⟩

theorem Route.leads (route : Route t links l names left m) : Leads t l names m := by
  induction route with
  | nil _ => exact .nil
  | up _ _ ih => exact .up ih
  | down _ notUp _ route ih =>
    refine .down notUp (fun target there => ?_) ih
    rw [route.start] at there
    cases there
  | link _ notUp _ there _ ih => exact .link notUp there ih

-- A walk ends where the path leads, unless it stops at a last link.
theorem Walked.leads (walked : Walked t followLast links l names m)
    (noLink : ∀ target, t.node? m ≠ some (.link target)) : Leads t l names m := by
  induction walked with
  | nil => exact .nil
  | up _ _ ih => exact .up (ih noLink)
  | down _ notUp _ there plain _ ih =>
    exact .down notUp (fun target linked => plain target (Option.some.inj (there.symm.trans linked))) (ih noLink)
  | absent _ notUp _ _ => exact .down notUp noLink .nil
  | unfollowed _ _ _ there _ => exact absurd there (noLink _)
  | link _ notUp _ there _ _ ih => exact .link notUp there (ih noLink)

theorem SameLinks.refl (t : FileTree) : SameLinks t t := fun _ _ => .rfl

theorem SameLinks.symm (same : SameLinks t u) : SameLinks u t := fun m target => (same m target).symm

theorem SameLinks.trans {v : FileTree} (first : SameLinks t u) (second : SameLinks u v) :
    SameLinks t v := fun m target => (first m target).trans (second m target)

theorem Leads.congr (leads : Leads t l names m) (same : SameLinks t u) : Leads u l names m := by
  induction leads with
  | nil => exact .nil
  | up _ ih => exact .up ih
  | down notUp noLink _ ih =>
    exact .down notUp (fun target there => noLink target ((same _ _).mpr there)) ih
  | link notUp there _ ih => exact .link notUp ((same _ _).mp there) ih

theorem Route.congr (route : Route t links l names left m)
    (links_ : ∀ m target, t.node? m = some (.link target) → u.node? m = some (.link target))
    (directories : ∀ m, t.node? m = some .directory → u.node? m = some .directory) :
    Route u links l names left m := by
  induction route with
  | nil here => exact .nil (directories _ here)
  | up here _ ih => exact .up (directories _ here) ih
  | down here notUp fits _ ih => exact .down (directories _ here) notUp fits ih
  | link here notUp fits there _ ih => exact .link (directories _ here) notUp fits (links_ _ _ there) ih

end AbiBuild.FileTree
