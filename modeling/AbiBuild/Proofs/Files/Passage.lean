import AbiBuild.Proofs.Files.Filling

namespace AbiBuild.FileTree
open AbiBuild.Text

inductive Passes (t : FileTree) : Location → List String → Location → Prop
  | here {l : Location} {names : List String} : Passes t l names l
  | up {l m : Location} {names : List String} (rest : Passes t l.dropLast names m) : Passes t l (".." :: names) m
  | down {l m : Location} {name : String} {names : List String} (notUp : name ≠ "..")
      (noLink : ∀ target, t.node? (l ++ [name]) ≠ some (.link target))
      (rest : Passes t (l ++ [name]) names m) : Passes t l (name :: names) m
  | link {l m : Location} {name target : String} {names : List String} (notUp : name ≠ "..")
      (there : t.node? (l ++ [name]) = some (.link target))
      (rest : Passes t (base l (.ofText target)) ((FilePath.ofText target).names ++ names) m) :
      Passes t l (name :: names) m

def GoesOver (t : FileTree) (p : FilePath) (m : Location) : Prop := Passes t (base t.here p) p.names m

def Fits (names : List String) : Prop := ∀ name ∈ names, ¬ maxNameSize < name.utf8ByteSize

instance (names : List String) : Decidable (Fits names) :=
  inferInstanceAs (Decidable (∀ name ∈ names, ¬ maxNameSize < name.utf8ByteSize))

-- No link names anything by a name that is too long.
def LinksFit (t : FileTree) : Prop := ∀ m target, t.node? m = some (.link target) → Fits (FilePath.ofText target).names

variable {t u : FileTree} {p : FilePath} {l m k : Location} {links left : Nat} {name : String} {names : List String}
  {followLast : Bool} {node : Node} {content : Bytes} {executable : Bool}

theorem Route.passes_directory (route : Route t links l names left m) (passes : Passes t l names k) :
    t.node? k = some .directory := by
  induction route with
  | nil here =>
    cases passes
    exact here
  | up here _ ih =>
    cases passes with
    | here => exact here
    | up rest => exact ih rest
    | down notUp => exact absurd rfl notUp
    | link notUp => exact absurd rfl notUp
  | down here notUp _ onward ih =>
    cases passes with
    | here => exact here
    | up => exact absurd rfl notUp
    | down _ _ rest => exact ih rest
    | link _ there =>
      rw [onward.start] at there
      cases there
  | link here notUp _ there _ ih =>
    cases passes with
    | here => exact here
    | up => exact absurd rfl notUp
    | down _ noLink => exact absurd there (noLink _)
    | link _ again rest =>
      rw [there] at again
      cases again
      exact ih rest

theorem passes_plain (clear : Clear t l) (plain : ∀ name ∈ names, name ≠ "..") (passes : Passes t l names m) :
    ∃ front, front <+: names ∧ m = l ++ front := by
  induction passes with
  | here => exact ⟨[], List.nil_prefix, (List.append_nil _).symm⟩
  | up => exact absurd rfl (plain ".." List.mem_cons_self)
  | @down l m name names notUp noLink rest ih =>
    obtain ⟨front, inside, same⟩ := ih (clear.under [name]) fun other member => plain other (List.mem_cons_of_mem _ member)
    exact ⟨name :: front, List.cons_prefix_cons.mpr ⟨rfl, inside⟩, by rw [same, List.append_assoc]; rfl⟩
  | link notUp there => exact absurd there (clear [_] (by simp) _)

-- A route stays, and goes over no other places, where the directories that it goes over and the links in them
-- stay.
theorem Route.stays (route : Route t links l names left m)
    (kept : ∀ k, Passes t l names k → u.node? k = some .directory)
    (linked : ∀ k name target, Passes t l names k → t.node? (k ++ [name]) = some (.link target) →
      u.node? (k ++ [name]) = some (.link target)) :
    Route u links l names left m ∧ ∀ k, Passes u l names k → Passes t l names k := by
  induction route with
  | nil here =>
    refine ⟨.nil (kept _ .here), fun k passes => ?_⟩
    cases passes
    exact .here
  | up here _ ih =>
    obtain ⟨route, back⟩ := ih (fun k passes => kept k (.up passes))
      fun k name target passes => linked k name target (.up passes)
    refine ⟨.up (kept _ .here) route, fun k passes => ?_⟩
    cases passes with
    | here => exact .here
    | up rest => exact .up (back k rest)
    | down notUp => exact absurd rfl notUp
    | link notUp => exact absurd rfl notUp
  | down here notUp fits onward ih =>
    have noLink : ∀ target, t.node? (_ ++ [_]) ≠ some (.link target) := fun target there => by
      rw [onward.start] at there
      cases there
    obtain ⟨route, back⟩ := ih (fun k passes => kept k (.down notUp noLink passes))
      fun k name target passes => linked k name target (.down notUp noLink passes)
    refine ⟨.down (kept _ .here) notUp fits route, fun k passes => ?_⟩
    cases passes with
    | here => exact .here
    | up => exact absurd rfl notUp
    | down _ _ rest => exact .down notUp noLink (back k rest)
    | link _ there =>
      rw [route.start] at there
      cases there
  | link here notUp fits there _ ih =>
    obtain ⟨route, back⟩ := ih (fun k passes => kept k (.link notUp there passes))
      fun k name target passes => linked k name target (.link notUp there passes)
    have stays := linked _ _ _ .here there
    refine ⟨.link (kept _ .here) notUp fits stays route, fun k passes => ?_⟩
    cases passes with
    | here => exact .here
    | up => exact absurd rfl notUp
    | down _ noLink => exact absurd stays (noLink _)
    | link _ again rest =>
      rw [stays] at again
      cases again
      exact .link notUp there (back k rest)

theorem Stands.passes (stands : Stands t p l) (passes : GoesOver t p k) : t.node? k = some .directory := by
  obtain ⟨left, route⟩ := stands.route
  exact route.passes_directory passes

theorem Stands.stays (stands : Stands t p l) (here : u.here = t.here)
    (kept : ∀ k, GoesOver t p k → u.node? k = some .directory)
    (linked : ∀ k name target, GoesOver t p k → t.node? (k ++ [name]) = some (.link target) →
      u.node? (k ++ [name]) = some (.link target)) :
    Stands u p l ∧ ∀ k, GoesOver u p k → GoesOver t p k := by
  obtain ⟨left, route⟩ := stands.route
  obtain ⟨route, back⟩ := route.stays kept linked
  unfold GoesOver
  rw [← here] at route
  refine ⟨⟨stands.noNul, left, route⟩, ?_⟩
  rw [here]
  exact back

theorem locate_in (stands : Stands t p l) (notUp : name ≠ "..") (nameable : Nameable [name])
    (last : followLast = true → ∀ target, t.node? (l ++ [name]) ≠ some (.link target)) :
    t.locate followLast (p.under [name]) = .ok (l ++ [name]) := by
  obtain ⟨left, route⟩ := stands.route
  have walked : t.walk followLast maxLinks (base t.here p) (p.names ++ [name]) = .ok (l ++ [name]) := by
    rw [walk_route route (by simp), walk_cons]
    simp only [stands.directory, notUp, if_false, nameable.fits name (by simp), List.isEmpty_nil, Bool.true_and]
    cases there : t.node? (l ++ [name]) with
    | none => rfl
    | some node =>
      cases node with
      | link target =>
        cases followLast with
        | false => rfl
        | true => exact absurd there (last rfl target)
      | directory => exact walk_nil
      | file => exact walk_nil
  have named : (p.under [name]).hasNul = false := by
    rw [FilePath.hasNul_under, stands.noNul, nameable.noNul]
    rfl
  unfold locate
  rw [named, base_under]
  simp only [Bool.false_eq_true, if_false]
  rw [show (p.under [name]).names = p.names ++ [name] from rfl, walked]

theorem stands_in (stands : Stands t p l) (notUp : name ≠ "..") (nameable : Nameable [name])
    (there : t.node? (l ++ [name]) = some .directory) : Stands t (p.under [name]) (l ++ [name]) := by
  obtain ⟨left, route⟩ := stands.route
  refine ⟨?_, left, ?_⟩
  · rw [FilePath.hasNul_under, stands.noNul, nameable.noNul]
    rfl
  · rw [base_under]
    exact route.append (.down stands.directory notUp (nameable.fits name (by simp)) (.nil there))

theorem fits_append {more : List String} (first : Fits names) (second : Fits more) : Fits (names ++ more) := by
  intro name member
  rcases List.mem_append.mp member with left | right
  · exact first name left
  · exact second name right

theorem walk_fits (linked : LinksFit t) (links : Nat) (l : Location) (fits : Fits names) :
    t.walk followLast links l names ≠ .error .nameTooLong := by
  -- Induction on the links that may still be followed, then on the names.
  induction links generalizing l names with
  | zero =>
    induction names generalizing l with
    | nil =>
      rw [walk_nil]
      nofun
    | cons name rest ih =>
      have onward : ∀ k, t.walk followLast 0 k rest ≠ .error .nameTooLong := fun k =>
        ih k fun other member => fits other (List.mem_cons_of_mem _ member)
      rw [walk_cons]
      split
      · split
        · exact onward _
        · rw [if_neg (fits name (by simp))]
          split
          · split <;> nofun
          · exact onward _
          · split <;> nofun
      · nofun
      · nofun
  | succ links ihLinks =>
    induction names generalizing l with
    | nil =>
      rw [walk_nil]
      nofun
    | cons name rest ih =>
      have further : Fits rest := fun other member => fits other (List.mem_cons_of_mem _ member)
      rw [walk_cons]
      split
      · split
        · exact ih _ further
        · rw [if_neg (fits name (by simp))]
          split
          · rename_i target there
            split
            · nofun
            · exact ihLinks _ (fits_append (linked _ target there) further)
          · exact ih _ further
          · split <;> nofun
      · nofun
      · nofun

theorem probe_fits (linked : LinksFit t) (fits : Fits p.names) : ∃ found, t.probe p = .ok found := by
  have walked : t.walk true maxLinks (base t.here p) p.names ≠ .error .nameTooLong := walk_fits linked _ _ fits
  unfold probe locate
  split
  · exact ⟨_, rfl⟩
  · rename_i shown refused
    split at refused
    · cases refused
    · split at refused
      · cases refused
      · rename_i refusal failed
        cases refused
        exact absurd failed walked
  · exact ⟨_, rfl⟩

theorem isFile_fits (linked : LinksFit t) (fits : Fits p.names) : ∃ answer, t.isFile p = .ok answer := by
  obtain ⟨found, asked⟩ := probe_fits linked fits
  exact ⟨_, by rw [isFile, asked]; rfl⟩

theorem isFile_located (asked : t.isFile p = .ok true) :
    ∃ m content executable, t.locate true p = .ok m ∧ t.node? m = some (.file content executable) := by
  obtain ⟨found, probed, seen⟩ := isFile_parts asked
  cases found with
  | none => cases seen
  | some node =>
    obtain ⟨m, place, there⟩ := probe_some probed
    cases node with
    | file content executable => exact ⟨m, content, executable, place, there⟩
    | directory => cases seen
    | link => cases seen

theorem noNul_of_locate (found : t.locate followLast p = .ok m) : p.hasNul = false := (locate_ok_iff.mp found).1

theorem LinksFit.fewer (linked : LinksFit t)
    (fewer : ∀ m target, u.node? m = some (.link target) → t.node? m = some (.link target)) : LinksFit u :=
  fun m target there => linked m target (fewer m target there)

theorem LinksFit.of_clear (clear : Clear t []) : LinksFit t := by
  intro m target there
  cases m with
  | nil => cases there
  | cons name rest => exact absurd there (clear (name :: rest) (by simp) target)

end AbiBuild.FileTree
