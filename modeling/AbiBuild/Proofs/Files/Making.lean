import AbiBuild.Proofs.Files.Changes

namespace AbiBuild.FileTree

def Along (t : FileTree) (root : Root) (names : List String) (m : Location) : Prop :=
  ∃ count, LeadsTo t ⟨root, names.take count⟩ m

variable {t u v : FileTree} {l m d : Location} {made : Location → Prop} {p : FilePath} {root : Root}
  {names : List String} {last : String} {allowThere : Bool} {links left count : Nat} {r : Trail}

theorem node?_top (t : FileTree) : t.node? [] = some .directory := by
  simp [node?]

theorem Steady.along (steady : Steady t u) : Along u root names m ↔ Along t root names m :=
  exists_congr fun _ => steady.leadsTo

theorem base_absolute (absolute : root ≠ .relative) (h : Location) : base h ⟨root, names⟩ = [] := by
  simp [base, FilePath.isAbsolute, absolute]

theorem walk_last (found : t.walk false links l (names ++ [last]) = .ok m) :
    ∃ left d, Route t links l names left d ∧ (m = d.dropLast ∧ last = ".." ∨ m = d ++ [last] ∧ last ≠ "..") := by
  rcases route_or_refused t links l names with ⟨left, d, route⟩ | ⟨refusal, refused⟩
  · refine ⟨left, d, route, ?_⟩
    rw [walk_route route (by simp), walk_cons, route.end] at found
    simp only at found
    split at found
    · rename_i up
      rw [walk_nil] at found
      cases found
      exact .inl ⟨rfl, up⟩
    · rename_i notUp
      refine .inr ⟨?_, notUp⟩
      split at found
      · cases found
      · split at found
        · cases found
          rfl
        · rw [walk_nil] at found
          cases found
          rfl
        · cases found
          rfl
  · rw [refused false [last] (by simp)] at found
    cases found

theorem makeDirectory_parts (wellFormed : t.WellFormed) (absolute : p.root ≠ .relative)
    (ran : t.makeDirectory p = .ok u) : ∃ m, LeadsTo t p m ∧ t.node? m = none ∧
      t.node? m.dropLast = some .directory ∧ u = t.put m .directory := by
  unfold makeDirectory at ran
  cases found : t.locate false p with
  | error fault => simp [found, bind, Except.bind] at ran
  | ok m =>
    simp only [found, bind, Except.bind] at ran
    cases node : t.node? m with
    | some node' =>
      rw [node] at ran
      cases ran
    | none =>
      rw [node] at ran
      cases ran
      have walked := (locate_ok_iff.mp found).2
      have leads := walked.leads (by simp [node])
      refine ⟨m, leads, node, ?_, rfl⟩
      rw [base, if_pos (by simp [FilePath.isAbsolute, absolute])] at walked
      rcases List.eq_nil_or_concat p.names with none_ | ⟨front, last, split⟩
      · rw [none_] at walked
        cases walked
        rw [node?_top] at node
        cases node
      · rw [split, List.concat_eq_append] at walked
        obtain ⟨left, d, route, ⟨rfl, _⟩ | ⟨rfl, _⟩⟩ := walk_last walked.walk
        · -- Above a directory there is one, so nothing is made at `..`.
          rcases List.eq_nil_or_concat d with rfl | ⟨up, name, rfl⟩
          · rw [List.dropLast_nil, node?_top] at node
            cases node
          · rw [List.concat_eq_append] at route node
            have above := wellFormed up name _ route.end
            rw [List.dropLast_concat, above] at node
            cases node
        · rw [List.dropLast_concat]
          exact route.end

theorem ne_nil_of_absent (absent : t.node? m = none) : m ≠ [] := by
  rintro rfl
  rw [node?_top] at absent
  cases absent

theorem changes_made (absent : t.node? m = none) (parent : t.node? m.dropLast = some .directory)
    (allowed : made m) : Changes l made t (t.put m .directory) := by
  have nonempty := ne_nil_of_absent absent
  have own : Changes m made t (t.put m .directory) :=
    changes_put (List.prefix_refl m) nonempty parent (by simp [absent]) (by simp [absent]) (by simp)
  refine ⟨own.here, own.links, own.directories, ?_, own.wellFormed⟩
  intro k _
  rw [node?_put nonempty]
  by_cases same : k = m
  · subst same
    exact .inr ⟨allowed, absent, by simp⟩
  · exact .inl (by simp [same])

theorem makeDirectoryOr_parts (ran : makeDirectoryOr allowThere t p = .ok u) :
    t.makeDirectory p = .ok u ∨ u = t ∧ allowThere = true ∧ t.isDirectory p = .ok true := by
  unfold makeDirectoryOr at ran
  split at ran
  · cases ran
  · cases there : t.isDirectory p with
    | error fault => simp [there, bind, Except.bind] at ran
    | ok answer =>
      simp only [there, bind, Except.bind] at ran
      split at ran
      · rename_i both
        cases ran
        simp only [Bool.and_eq_true] at both
        exact .inr ⟨rfl, both.1, congrArg Except.ok both.2⟩
      · cases ran
  · exact .inl ran

theorem makeDirectoryOr_noEntry {shown : String}
    (ran : makeDirectoryOr allowThere t p = .error (.system .noEntry shown)) :
    t.makeDirectory p = .error (.system .noEntry shown) := by
  unfold makeDirectoryOr at ran
  split at ran
  · rename_i refused
    cases ran
    exact refused
  · rename_i refusal other notThis refused
    cases asked : t.isDirectory p with
    | error fault =>
      simp only [asked, bind, Except.bind] at ran
      cases ran
      unfold isDirectory probe at asked
      split at asked <;> cases asked
    | ok answer =>
      simp only [asked, bind, Except.bind] at ran
      split at ran
      · cases ran
      · cases ran
        exact (notThis rfl).elim
  · exact ran

theorem makeDirectoryOr_changes (wellFormed : t.WellFormed) (absolute : p.root ≠ .relative)
    (allowed : ∀ m, LeadsTo t p m → made m) (ran : makeDirectoryOr allowThere t p = .ok u) :
    Changes l made t u := by
  rcases makeDirectoryOr_parts ran with own | ⟨rfl, _⟩
  · obtain ⟨m, leads, absent, parent, rfl⟩ := makeDirectory_parts wellFormed absolute own
    exact changes_made absent parent (allowed m leads)
  · exact .refl _ _ _

theorem Trail.next_fault {operation : FileTree → Except FileFault FileTree} {fault : FileFault}
    (failed : r.fault = some fault) : r.next operation = r := by
  simp [Trail.next, failed]

theorem Trail.next_ok {operation : FileTree → Except FileFault FileTree} (fine : r.fault = none)
    (ran : operation r.tree = .ok u) : r.next operation = ⟨u, none⟩ := by
  simp [Trail.next, fine, ran]

theorem Trail.next_error {operation : FileTree → Except FileFault FileTree} {fault : FileFault}
    (fine : r.fault = none) (ran : operation r.tree = .error fault) :
    r.next operation = ⟨r.tree, some fault⟩ := by
  simp [Trail.next, fine, ran]

theorem makeDirectories_made (made : makeDirectoryOr allowThere t ⟨root, names.take count⟩ = .ok u) :
    makeDirectories t root names allowThere count = ⟨u, none⟩ := by
  cases count with
  | zero => exact Trail.next_ok rfl made
  | succ count => rw [makeDirectories, made]

-- Only where something above is missing is that made first, and the directory itself tried once more.
theorem makeDirectories_failed {fault : FileFault}
    (failed : makeDirectoryOr allowThere t ⟨root, names.take count⟩ = .error fault)
    (other : ∀ shown, fault ≠ .system .noEntry shown) :
    makeDirectories t root names allowThere count = ⟨t, some fault⟩ := by
  cases count with
  | zero => exact Trail.next_error rfl failed
  | succ count =>
    rw [makeDirectories, failed]
    split
    · rename_i impossible
      cases impossible
    · rename_i shown missing
      cases missing
      exact absurd rfl (other shown)
    · rename_i same
      cases same
      rfl

theorem makeDirectories_again {above : Nat} {shown : String} (next : count = above + 1)
    (missing : makeDirectoryOr allowThere t ⟨root, names.take count⟩ = .error (.system .noEntry shown)) :
    makeDirectories t root names allowThere count =
      (makeDirectories t root names true above).next fun t => makeDirectoryOr allowThere t ⟨root, names.take count⟩ := by
  subst next
  rw [makeDirectories, missing]

-- What goes on in between changes nothing but directories along the path; if all goes well, the last
-- thing done is to make the wanted directory itself.
theorem makeDirectories_parts (wellFormed : t.WellFormed) (absolute : root ≠ .relative) :
    (∀ l, Changes l (Along t root names) t (makeDirectories t root names allowThere count).tree) ∧
    ((makeDirectories t root names allowThere count).fault = none →
      ∃ s, (∀ l, Changes l (Along t root names) t s) ∧
        makeDirectoryOr allowThere s ⟨root, names.take count⟩ =
          .ok (makeDirectories t root names allowThere count).tree) := by
  induction count generalizing allowThere with
  | zero =>
    unfold makeDirectories
    cases ran : makeDirectoryOr allowThere t ⟨root, []⟩ with
    | ok u =>
      rw [Trail.next_ok rfl ran]
      refine ⟨fun l => ?_, fun _ => ⟨t, fun l => .refl _ _ _, ran⟩⟩
      exact makeDirectoryOr_changes wellFormed absolute (fun m leads => ⟨0, leads⟩) ran
    | error fault =>
      rw [Trail.next_error rfl ran]
      exact ⟨fun l => .refl _ _ _, by simp⟩
  | succ count ih =>
    unfold makeDirectories
    split
    · rename_i after ran
      refine ⟨fun l => ?_, fun _ => ⟨t, fun l => .refl _ _ _, ran⟩⟩
      exact makeDirectoryOr_changes wellFormed absolute (fun m leads => ⟨count + 1, leads⟩) ran
    · obtain ⟨above, _⟩ := @ih true
      cases failed : (makeDirectories t root names true count).fault with
      | some fault =>
        rw [Trail.next_fault failed]
        exact ⟨above, by simp [failed]⟩
      | none =>
        have inner := (above []).wellFormed wellFormed
        cases ran : makeDirectoryOr allowThere (makeDirectories t root names true count).tree
            ⟨root, names.take (count + 1)⟩ with
        | ok u =>
          rw [Trail.next_ok failed ran]
          refine ⟨fun l => (above l).trans ?_, fun _ => ⟨_, above, ran⟩⟩
          exact makeDirectoryOr_changes inner absolute
            (fun m leads => ⟨count + 1, ((Steady.refl wellFormed).changes (above [])).leadsTo.mp leads⟩) ran
        | error fault =>
          rw [Trail.next_error failed ran]
          exact ⟨above, by simp⟩
    · exact ⟨fun l => .refl _ _ _, by simp⟩

theorem ensureDirectory_changes (wellFormed : t.WellFormed) (absolute : p.root ≠ .relative)
    (l : Location) : Changes l (Along t p.root p.names) t (t.ensureDirectory p).tree :=
  (makeDirectories_parts wellFormed absolute).1 l

end AbiBuild.FileTree
