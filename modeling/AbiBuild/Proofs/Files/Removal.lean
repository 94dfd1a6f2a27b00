import AbiBuild.Proofs.Files.Single

namespace AbiBuild.FileTree
open AbiBuild.Text

-- As `Changes`, but at the location and below it directories may go, too.
structure Alters (l : Location) (made : Location → Prop) (t u : FileTree) : Prop where
  here : u.here = t.here
  links : SameLinks t u
  elsewhere : ∀ m, ¬ l <+: m →
    u.node? m = t.node? m ∨ (made m ∧ t.node? m = none ∧ u.node? m = some .directory)
  wellFormed : t.WellFormed → u.WellFormed

variable {t u v : FileTree} {l m k : Location} {made more : Location → Prop} {p q : FilePath}
  {names front other : List String} {last name : String} {content : Bytes} {executable : Bool}
  {links left : Nat}

theorem Changes.alters (changes : Changes l made t u) : Alters l made t u :=
  ⟨changes.here, changes.links, changes.elsewhere, changes.wellFormed⟩

theorem Alters.trans (first : Alters l made t u) (second : Alters l made u v) : Alters l made t v where
  here := second.here.trans first.here
  links := first.links.trans second.links
  elsewhere m outside := elsewhere_trans (first.elsewhere m outside) (second.elsewhere m outside)
  wellFormed wellFormed := second.wellFormed (first.wellFormed wellFormed)

theorem Alters.hosts (alters : Alters l made t u) (hosts : Hosts t p k) : Hosts u p k :=
  hosts.congr alters.here alters.links

theorem Alters.steady (alters : Alters l made t u) (wellFormed : t.WellFormed) : Steady t u :=
  ⟨alters.wellFormed wellFormed, alters.here, alters.links⟩

theorem Alters.fewer (alters : Alters l made t u) (outside : ¬ l <+: m) : Fewer m t u := by
  intro content executable there
  rcases alters.elsewhere m outside with same | ⟨_, _, present⟩
  · rwa [same] at there
  · rw [present] at there
    cases there

theorem node?_eraseBelow (l m : Location) :
    (t.eraseBelow l).node? m = if l <+: m ∧ m ≠ l then none else t.node? m := by
  by_cases top : m = []
  · subst top
    rw [node?_top, node?_top, if_neg fun below => below.2 (List.prefix_nil.mp below.1).symm]
  · unfold node? eraseBelow
    simp only [top, if_false, List.find?_filter]
    have goes : ∀ e : Location × Node, (l.isPrefixOf e.1 && e.1 ≠ l) = true ↔ l <+: e.1 ∧ e.1 ≠ l := by
      intro e
      rw [Bool.and_eq_true, List.isPrefixOf_iff_prefix, decide_eq_true_eq]
    by_cases below : l <+: m ∧ m ≠ l
    · rw [if_pos below, Option.map_eq_none_iff, List.find?_eq_none]
      intro e _ both
      obtain ⟨stays, same⟩ := of_decide_eq_true both
      obtain rfl := of_decide_eq_true same
      rw [(goes e).mpr below] at stays
      cases stays
    · rw [if_neg below]
      congr 2
      funext e
      by_cases same : e.1 = m
      · subst same
        rw [Bool.eq_false_iff.mpr (fun gone => below ((goes e).mp gone))]
        simp
      · simp [same]

theorem node?_eraseAll (nonempty : l ≠ []) (m : Location) :
    (t.eraseAll l).node? m = if l <+: m then none else t.node? m := by
  unfold eraseAll
  by_cases same : m = l
  · rw [same, node?_erase_self _ nonempty, if_pos (List.prefix_refl _)]
  · rw [node?_erase_of_ne _ same, node?_eraseBelow]
    simp only [same, ne_eq, not_false_eq_true, and_true]

theorem gone_wellFormed {gone : Location → Prop} [DecidablePred gone]
    (at_ : ∀ m, u.node? m = if gone m then none else t.node? m)
    (closed : ∀ m name, gone m → gone (m ++ [name])) (wellFormed : t.WellFormed) : u.WellFormed := by
  intro m name node there
  rw [at_] at there ⊢
  split at there
  · cases there
  · rename_i outside
    rw [if_neg fun above => outside (closed m name above)]
    exact wellFormed m name node there

theorem gone_alters {gone : Location → Prop} [DecidablePred gone] (found : Located t p l names)
    (nonempty : names ≠ []) (here : u.here = t.here)
    (at_ : ∀ m, u.node? m = if gone m then none else t.node? m) (inside : ∀ m, gone m → l ++ names <+: m)
    (closed : ∀ m name, gone m → gone (m ++ [name])) : Alters (l ++ names) made t u := by
  refine ⟨here, ?_, ?_, gone_wellFormed at_ closed⟩
  · intro m target
    rw [at_]
    split
    · rename_i below
      obtain ⟨rest, rfl⟩ := inside m below
      have noLink : t.node? (l ++ names ++ rest) ≠ some (.link target) := by
        rw [List.append_assoc]
        exact found.clear (names ++ rest) (by simp [nonempty]) target
      exact ⟨fun there => absurd there noLink, fun there => by cases there⟩
    · rfl
  · intro m outside
    rw [at_, if_neg fun below => outside (inside m below)]
    exact .inl rfl

theorem eraseAll_wellFormed (nonempty : l ≠ []) (wellFormed : t.WellFormed) : (t.eraseAll l).WellFormed :=
  gone_wellFormed (node?_eraseAll nonempty) (fun _ _ below => below.trans (List.prefix_append _ _)) wellFormed

theorem emptied_alters (found : Located t p l names) (nonempty : names ≠ []) :
    Alters (l ++ names) made t (t.eraseBelow (l ++ names)) := by
  refine gone_alters found nonempty rfl (node?_eraseBelow _) (fun _ below => below.1) fun m name below => ?_
  refine ⟨below.1.trans (List.prefix_append _ _), fun same => ?_⟩
  have longer := below.1.length_le
  rw [← same, List.length_append, List.length_singleton] at longer
  omega

theorem fewer_of_gone {gone : Location → Prop} [DecidablePred gone]
    (at_ : ∀ m, u.node? m = if gone m then none else t.node? m) (m : Location) : Fewer m t u := by
  intro content executable there
  rw [at_] at there
  split at there
  · cases there
  · exact there

-- What was in the directory goes; the directory goes, too, unless it was reached through what was in it.
theorem removeDirectory_ways (hosts : Hosts t p l) (plain : ∀ name ∈ names, name ≠ "..")
    (nonempty : names ≠ []) :
    (∃ fault, t.removeDirectory (p.under names) = ⟨t, some fault⟩) ∨
      ∃ s fault, t.removeDirectory (p.under names) = ⟨s, fault⟩ ∧ t.node? (l ++ names) = some .directory ∧
        (∀ made, Alters (l ++ names) made t s) ∧ ∀ m, Fewer m t s := by
  unfold removeDirectory
  cases found : t.locate false (p.under names) with
  | error fault => exact .inl ⟨fault, rfl⟩
  | ok m =>
    obtain ⟨rfl, place⟩ := located hosts plain nonempty found
    simp only
    cases there : t.node? (l ++ names) with
    | none => exact .inl ⟨_, rfl⟩
    | some node =>
      cases node with
      | file => exact .inl ⟨_, rfl⟩
      | link => exact .inl ⟨_, rfl⟩
      | directory =>
        right
        have emptied : ∀ made, Alters (l ++ names) made t _ := fun _ => emptied_alters place nonempty
        cases again : (t.eraseBelow (l ++ names)).locate false (p.under names) with
        | error fault =>
          refine ⟨_, some fault, Trail.next_error rfl ?_, rfl, emptied, fewer_of_gone (node?_eraseBelow _)⟩
          simp only [Trail.start, again, Except.map]
        | ok k =>
          obtain ⟨rfl, _⟩ := located ((emptied nowhere).hosts hosts) plain nonempty again
          have at_ := node?_eraseAll (t := t) place.nonempty
          refine ⟨t.eraseAll (l ++ names), none, Trail.next_ok rfl ?_, rfl, fun made => ?_, fewer_of_gone at_⟩
          · simp only [Trail.start, again, Except.map, eraseAll]
          · exact gone_alters place nonempty rfl at_ (fun _ below => below) fun m name below =>
              below.trans (List.prefix_append _ _)

theorem newDirectory_changes (wellFormed : t.WellFormed) (absolute : p.root ≠ .relative) (l : Location) :
    Changes l (Along t p.root p.names) t (t.newDirectory p).tree :=
  (makeDirectories_parts wellFormed absolute).1 l

theorem newDirectory_parts (wellFormed : t.WellFormed) (absolute : p.root ≠ .relative)
    (hosts : Hosts t p l) (plain : ∀ name ∈ names, name ≠ "..") (nonempty : names ≠ [])
    (fine : (t.newDirectory (p.under names)).fault = none) :
    ∃ s, (∀ k, Changes k (Along t p.root (p.under names).names) t s) ∧ Located s p l names ∧
      s.node? (l ++ names) = none ∧
      (t.newDirectory (p.under names)).tree = s.put (l ++ names) .directory := by
  have absolute' : (p.under names).root ≠ .relative := absolute
  obtain ⟨s, between, ran⟩ := (makeDirectories_parts wellFormed absolute').2 fine
  rw [List.take_length] at ran
  refine ⟨s, between, ?_⟩
  rcases makeDirectoryOr_parts ran with made | ⟨_, impossible, _⟩
  · rw [show (⟨(p.under names).root, (p.under names).names⟩ : FilePath) = p.under names from rfl,
      makeDirectory_eq] at made
    obtain ⟨place, new, decided, after⟩ := amend_parts ((between []).hosts hosts) plain nonempty made
    unfold makeRule at decided
    split at decided
    · cases decided
    · rename_i absent
      cases decided
      exact ⟨place, absent, after⟩
  · cases impossible

theorem copy_puts (target : Hosts t q k) (plain : ∀ name ∈ names, name ≠ "..") (nonempty : names ≠ [])
    (ran : t.copy p (q.under names) = .ok u) :
    ∃ m content executable, t.locate true p = .ok m ∧ t.node? m = some (.file content executable) ∧
      Located t q k names ∧ t.node? (k ++ names) ≠ some .directory ∧
        u = t.put (k ++ names) (.file content executable) := by
  unfold copy at ran
  cases found : t.locate true p with
  | error fault => simp [found, bind, Except.bind] at ran
  | ok source =>
    simp only [found, bind, Except.bind] at ran
    split at ran
    · rename_i content executable there
      cases aim : t.locate true (q.under names) with
      | error fault => simp [aim] at ran
      | ok m =>
        obtain ⟨rfl, place⟩ := located target plain nonempty aim
        simp only [aim] at ran
        split at ran
        · cases ran
        · rename_i notDirectory
          cases ran
          exact ⟨source, content, executable, rfl, there, place, notDirectory, rfl⟩
    · cases ran
    · cases ran

theorem copy_parts {names more : List String} (source : Hosts t p l) (target : Hosts t q k)
    (plain : ∀ name ∈ names, name ≠ "..") (nonempty : names ≠ [])
    (plain' : ∀ name ∈ more, name ≠ "..") (nonempty' : more ≠ [])
    (ran : t.copy (p.under names) (q.under more) = .ok u) :
    ∃ content executable, t.node? (l ++ names) = some (.file content executable) ∧
      Located t q k more ∧ t.node? (k ++ more) ≠ some .directory ∧
        u = t.put (k ++ more) (.file content executable) := by
  obtain ⟨m, content, executable, found, there, place, notDirectory, after⟩ :=
    copy_puts target plain' nonempty' ran
  obtain ⟨rfl, _⟩ := located source plain nonempty found
  exact ⟨content, executable, there, place, notDirectory, after⟩

theorem mem_children : name ∈ t.children l ↔ ∃ node, t.node? (l ++ [name]) = some node := by
  have split_ : ∀ m : Location, m.dropLast = l ∧ m.getLast? = some name ↔ m = l ++ [name] := by
    intro m
    constructor
    · rintro ⟨above, last⟩
      obtain ⟨front, rfl⟩ := List.getLast?_eq_some_iff.mp last
      rw [List.dropLast_concat] at above
      rw [above]
    · rintro rfl
      simp
  have entry : name ∈ t.children l ↔ ∃ e ∈ t.entries, e.1 = l ++ [name] := by
    unfold children
    rw [List.mem_filterMap]
    refine exists_congr fun e => and_congr_right fun _ => ?_
    rw [← split_ e.1]
    by_cases above : e.1.dropLast = l
    · simp [above]
    · simp [above]
  rw [entry]
  unfold node?
  rw [if_neg (by simp)]
  constructor
  · rintro ⟨e, member, here⟩
    cases found : t.entries.find? fun e => e.1 = l ++ [name] with
    | none => exact absurd here (by simpa using List.find?_eq_none.mp found e member)
    | some other => exact ⟨other.2, rfl⟩
  · rintro ⟨node, found⟩
    obtain ⟨e, here, _⟩ := Option.map_eq_some_iff.mp found
    exact ⟨e, List.mem_of_find?_eq_some here, by simpa using List.find?_some here⟩

theorem names_under (stands : Stands t p l) (clear : Clear t l) (wellFormed : t.WellFormed)
    (plain : ∀ name ∈ names, name ≠ "..") (nonempty : names ≠ []) (nameable : Nameable names)
    (there : t.node? (l ++ names) = some .directory) :
    t.names (p.under names) = .ok (t.children (l ++ names)) := by
  unfold FileTree.names
  rw [locate_there stands clear wellFormed plain nonempty nameable there]
  simp only [bind, Except.bind, there]

theorem Route.beginning (route : Route t links l names left m) (shorter : front <+: names) :
    ∃ left k, Route t links l front left k := by
  induction route generalizing front with
  | nil here =>
    rw [List.prefix_nil] at shorter
    subst shorter
    exact ⟨_, _, .nil here⟩
  | up here _ ih =>
    rcases List.prefix_cons_iff.mp shorter with rfl | ⟨rest, rfl, inside⟩
    · exact ⟨_, _, .nil here⟩
    · obtain ⟨left, k, route⟩ := ih inside
      exact ⟨left, k, .up here route⟩
  | down here notUp fits _ ih =>
    rcases List.prefix_cons_iff.mp shorter with rfl | ⟨rest, rfl, inside⟩
    · exact ⟨_, _, .nil here⟩
    · obtain ⟨left, k, route⟩ := ih inside
      exact ⟨left, k, .down here notUp fits route⟩
  | link here notUp fits there _ ih =>
    rcases List.prefix_cons_iff.mp shorter with rfl | ⟨rest, rfl, inside⟩
    · exact ⟨_, _, .nil here⟩
    · obtain ⟨left, k, route⟩ := ih ((List.prefix_append_right_inj _).mpr inside)
      exact ⟨left, k, .link here notUp fits there route⟩

theorem leads_down (clear : Clear t l) (plain : ∀ name ∈ names, name ≠ "..")
    (leads : Leads t l names m) : m = l ++ names := by
  induction names generalizing l with
  | nil =>
    cases leads
    simp
  | cons name rest ih =>
    have notUp := plain name (by simp)
    cases leads with
    | up => exact absurd rfl notUp
    | down _ _ further =>
      have onward := ih (clear.under [name]) (fun other member => plain other (List.mem_cons_of_mem _ member))
        further
      simpa using onward
    | link _ there => exact absurd there (clear [name] (by simp) _)

theorem leadsTo_under (hosts : Hosts t p l) (plain : ∀ name ∈ names, name ≠ "..")
    (leads : LeadsTo t (p.under names) m) : m = l ++ names := by
  obtain ⟨k, first, second⟩ := Leads.split leads
  obtain ⟨rfl, clear⟩ := hosts k first
  exact leads_down clear plain second

theorem along_apart (wellFormed : t.WellFormed) (hosts : Hosts t p l)
    (plain : ∀ name ∈ front, name ≠ "..") (place : Located t p l (front ++ [last]))
    (absent : t.node? (l ++ (front ++ [last])) = none)
    (along : Along t p.root (p.under front).names m) : ¬ l ++ (front ++ [last]) <+: m := by
  obtain ⟨count, leads⟩ := along
  rintro ⟨rest, rfl⟩
  by_cases short : count ≤ p.names.length
  · have cut : (p.under front).names.take count = p.names.take count := List.take_append_of_le_length short
    rw [cut] at leads
    obtain ⟨left, route⟩ := place.stands.route
    obtain ⟨_, k, begun⟩ := route.beginning (List.take_prefix count _)
    have same : k = l ++ (front ++ [last]) ++ rest := Leads.deterministic begun.leads leads
    have there := begun.end
    rw [same] at there
    by_cases exact_ : rest = []
    · subst exact_
      rw [List.append_nil, absent] at there
      cases there
    · have above := wellFormed.above there exact_
      rw [absent] at above
      cases above
  · have cut : (p.under front).names.take count = p.names ++ front.take (count - p.names.length) := by
      show (p.names ++ front).take count = _
      rw [List.take_append, List.take_of_length_le (by omega)]
    rw [cut] at leads
    have same : l ++ (front ++ [last]) ++ rest = l ++ front.take (count - p.names.length) :=
      leadsTo_under hosts (fun name member => plain name (List.mem_of_mem_take member)) leads
    have length := congrArg List.length same
    simp only [List.length_append, List.length_take, List.length_singleton] at length
    omega

theorem along_last (hosts : Hosts t p l) (plain : ∀ name ∈ front ++ [last], name ≠ "..")
    (along : Along t p.root (p.under (front ++ [last])).names m) :
    Along t p.root (p.under front).names m ∨ m = l ++ (front ++ [last]) := by
  obtain ⟨count, leads⟩ := along
  have whole : (p.under (front ++ [last])).names = (p.under front).names ++ [last] := by
    simp [FilePath.under]
  by_cases short : count ≤ (p.under front).names.length
  · rw [whole, List.take_append_of_le_length short] at leads
    exact .inl ⟨count, leads⟩
  · have long : (p.under (front ++ [last])).names.length ≤ count := by
      rw [whole, List.length_append, List.length_singleton]
      omega
    rw [List.take_of_length_le long] at leads
    exact .inr (leadsTo_under hosts plain leads)

end AbiBuild.FileTree
