import AbiBuild.Proofs.Files.Paths
import AbiBuild.Proofs.Files.Routes
import AbiBuild.FileTree.Access
import Mathlib.Data.List.Induction

namespace AbiBuild.FileTree

def WellFormed (t : FileTree) : Prop :=
  ∀ m name node, t.node? (m ++ [name]) = some node → t.node? m = some .directory

def Clear (t : FileTree) (l : Location) : Prop :=
  ∀ names, names ≠ [] → ∀ target, t.node? (l ++ names) ≠ some (.link target)

def LeadsTo (t : FileTree) (p : FilePath) (l : Location) : Prop := Leads t (base t.here p) p.names l

-- A path at whose end there is a directory.
structure Stands (t : FileTree) (p : FilePath) (l : Location) : Prop where
  noNul : p.hasNul = false
  route : ∃ left, Route t maxLinks (base t.here p) p.names left l

-- If the path leads anywhere, it leads there, and there are no links below.
def Hosts (t : FileTree) (p : FilePath) (l : Location) : Prop :=
  ∀ m, LeadsTo t p m → m = l ∧ Clear t l

-- There is nothing below the place that a path leads to.
def Vacant (t : FileTree) (p : FilePath) : Prop :=
  ∀ l, LeadsTo t p l → ∀ names, names ≠ [] → t.node? (l ++ names) = none

def descend (t : FileTree) : Location → List String → Except Refusal Location
  | l, [] => .ok l
  | l, name :: rest =>
    match t.node? l with
    | some .directory =>
      if maxNameSize < name.utf8ByteSize then .error .nameTooLong
      else
        match t.node? (l ++ [name]) with
        | some _ => descend t (l ++ [name]) rest
        | none => if rest.isEmpty then .ok (l ++ [name]) else .error .noEntry
    | some (.file ..) => .error .notDirectory
    | _ => .error .noEntry

def reach (t : FileTree) (p : FilePath) (l : Location) (names : List String) :
    Except FileFault Location :=
  if FilePath.anyNul names then .error .nulInPath
  else
    match t.descend l names with
    | .ok m => .ok m
    | .error refusal => .error (.system refusal (Text.quoted (p.under names).text))

variable {t u : FileTree} {p : FilePath} {l m k : Location} {names rest : List String} {name : String}
  {node : Node} {followLast : Bool} {refusal : Refusal} {links : Nat}

theorem Stands.leadsTo (stands : Stands t p l) : LeadsTo t p l := by
  obtain ⟨left, route⟩ := stands.route
  exact route.leads

theorem Stands.directory (stands : Stands t p l) : t.node? l = some .directory := by
  obtain ⟨left, route⟩ := stands.route
  exact route.end

theorem Stands.congr (stands : Stands t p l) (here : u.here = t.here)
    (links : ∀ m target, t.node? m = some (.link target) → u.node? m = some (.link target))
    (directories : ∀ m, t.node? m = some .directory → u.node? m = some .directory) :
    Stands u p l := by
  obtain ⟨left, route⟩ := stands.route
  exact ⟨stands.noNul, left, here ▸ route.congr links directories⟩

theorem LeadsTo.congr (leads : LeadsTo t p l) (here : u.here = t.here) (same : SameLinks t u) :
    LeadsTo u p l := by
  unfold LeadsTo at leads ⊢
  rw [here]
  exact Leads.congr leads same

theorem Clear.congr (clear : Clear t l) (same : SameLinks t u) : Clear u l :=
  fun names nonempty target there => clear names nonempty target ((same _ _).mpr there)

theorem Clear.under (clear : Clear t l) (more : List String) : Clear t (l ++ more) := by
  intro names nonempty target there
  rw [List.append_assoc] at there
  exact clear (more ++ names) (by simp [nonempty]) target there

theorem Hosts.congr (hosts : Hosts t p l) (here : u.here = t.here) (same : SameLinks t u) :
    Hosts u p l := by
  intro m leads
  obtain ⟨equal, clear⟩ := hosts m (leads.congr here.symm same.symm)
  exact ⟨equal, clear.congr same⟩

theorem Hosts.stands (hosts : Hosts t p l) (stands : Stands t p m) : Stands t p l ∧ Clear t l := by
  obtain ⟨rfl, clear⟩ := hosts m stands.leadsTo
  exact ⟨stands, clear⟩

theorem exists_hosts (free : ∀ l, LeadsTo t p l → Clear t l) : ∃ l, Hosts t p l := by
  by_cases leads : ∃ l, LeadsTo t p l
  · obtain ⟨l, leads⟩ := leads
    exact ⟨l, fun m other => ⟨Leads.deterministic other leads, free l leads⟩⟩
  · exact ⟨[], fun m other => absurd ⟨m, other⟩ leads⟩

-- Where the path leads nowhere near a location, nothing below its host is near it either.
theorem exists_hosts_beside (free : ∀ l, LeadsTo t p l → Clear t l) (beside : ∀ l, LeadsTo t p l → ¬ l <+: m) :
    ∃ l, Hosts t p l ∧ ∀ names, names ≠ [] → ¬ l ++ names <+: m := by
  by_cases leads : ∃ l, LeadsTo t p l
  · obtain ⟨l, leads⟩ := leads
    refine ⟨l, fun m other => ⟨Leads.deterministic other leads, free l leads⟩, fun names _ inside => ?_⟩
    exact beside l leads ((List.prefix_append l names).trans inside)
  · refine ⟨m, fun l other => absurd ⟨l, other⟩ leads, fun names nonempty inside => ?_⟩
    have longer := inside.length_le
    have shown := List.length_pos_iff.mpr nonempty
    simp only [List.length_append] at longer
    omega

theorem Vacant.clear (vacant : Vacant t p) (l : Location) (leads : LeadsTo t p l) : Clear t l :=
  fun names nonempty target there =>
    absurd ((vacant l leads names nonempty).symm.trans there) (by simp)

theorem WellFormed.above (wellFormed : WellFormed t) (there : t.node? (l ++ names) = some node)
    (nonempty : names ≠ []) : t.node? l = some .directory := by
  induction names using List.reverseRecOn generalizing node with
  | nil => exact absurd rfl nonempty
  | append_singleton names name ih =>
    rw [← List.append_assoc] at there
    have parent := wellFormed _ _ _ there
    by_cases last : names = []
    · subst last
      rwa [List.append_nil] at parent
    · exact ih parent last

theorem WellFormed.missing (wellFormed : WellFormed t) (absent : t.node? l ≠ some .directory)
    (nonempty : names ≠ []) : t.node? (l ++ names) = none := by
  cases there : t.node? (l ++ names) with
  | none => rfl
  | some node => exact absurd (wellFormed.above there nonempty) absent

theorem WellFormed.of_entries
    (parents : ∀ e ∈ t.entries, t.node? e.1.dropLast = some .directory) : t.WellFormed := by
  intro m name node there
  have some_ : m ++ [name] ≠ [] := by simp
  unfold node? at there
  rw [if_neg some_] at there
  obtain ⟨e, found, _⟩ := Option.map_eq_some_iff.mp there
  have here : e.1 = m ++ [name] := by simpa using List.find?_some found
  have parent := parents e (List.mem_of_find?_eq_some found)
  rwa [here, List.dropLast_concat] at parent

theorem Clear.of_entries (noLinks : ∀ e ∈ t.entries, (e.2.isFile || e.2.isDirectory) = true) :
    Clear t l := by
  intro names nonempty target there
  unfold node? at there
  rw [if_neg (by simp [nonempty])] at there
  obtain ⟨e, found, link⟩ := Option.map_eq_some_iff.mp there
  have kind := noLinks e (List.mem_of_find?_eq_some found)
  rw [link] at kind
  cases kind

theorem walk_descend (clear : Clear t l) (plain : ∀ name ∈ names, name ≠ "..") :
    t.walk followLast links l names = t.descend l names := by
  induction names generalizing l with
  | nil => exact walk_nil
  | cons name rest ih =>
    have notUp := plain name (by simp)
    rw [walk_cons, descend]
    cases here : t.node? l with
    | none => rfl
    | some node =>
      cases node with
      | file content executable => rfl
      | link target => rfl
      | directory =>
        simp only [notUp, if_false]
        split
        · rfl
        · have onward := ih (clear.under [name]) fun other member =>
            plain other (List.mem_cons_of_mem _ member)
          cases below : t.node? (l ++ [name]) with
          | none => rfl
          | some node =>
            cases node with
            | link target => exact absurd below (clear [name] (by simp) target)
            | file content executable => exact onward
            | directory => exact onward

theorem locate_ok_iff : t.locate followLast p = .ok m ↔
    p.hasNul = false ∧ Walked t followLast maxLinks (base t.here p) p.names m := by
  rw [← walk_ok_iff]
  unfold locate
  cases p.hasNul with
  | true => simp
  | false => cases t.walk followLast maxLinks (base t.here p) p.names <;> simp

theorem base_under (h : Location) : base h (p.under names) = base h p := rfl

theorem locate_under (stands : Stands t p l) (clear : Clear t l) (plain : ∀ name ∈ names, name ≠ "..")
    (nonempty : names ≠ []) : t.locate followLast (p.under names) = t.reach p l names := by
  obtain ⟨left, route⟩ := stands.route
  unfold locate reach
  rw [FilePath.hasNul_under, stands.noNul, Bool.false_or, base_under]
  show (if _ then _ else match t.walk followLast maxLinks (base t.here p) (p.names ++ names) with
    | .ok place => _
    | .error refusal => _) = _
  rw [walk_route route nonempty, walk_descend clear plain]

theorem stands_of_locate (found : t.locate followLast (p.under names) = .ok m)
    (nonempty : names ≠ []) : ∃ l, Stands t p l := by
  obtain ⟨whole, walked⟩ := locate_ok_iff.mp found
  rw [FilePath.hasNul_under, Bool.or_eq_false_iff] at whole
  rcases route_or_refused t maxLinks (base t.here p) p.names with ⟨left, l, route⟩ | ⟨refusal, refused⟩
  · exact ⟨l, whole.1, left, route⟩
  · cases (refused followLast names nonempty).symm.trans walked.walk

theorem descend_eq (found : t.descend l names = .ok m) : m = l ++ names := by
  induction names generalizing l with
  | nil =>
    cases found
    simp
  | cons name rest ih =>
    unfold descend at found
    split at found
    · split at found
      · cases found
      · split at found
        · rw [ih found]
          simp
        · split at found
          · rename_i last
            cases found
            rw [List.isEmpty_iff.mp last]
          · cases found
    · cases found
    · cases found

theorem descend_parent (found : t.descend l (names ++ [name]) = .ok m) :
    t.node? (l ++ names) = some .directory := by
  induction names generalizing l with
  | nil =>
    rw [List.nil_append, descend] at found
    split at found
    · rename_i here
      simpa using here
    · cases found
    · cases found
  | cons first rest ih =>
    rw [List.cons_append, descend] at found
    split at found
    · split at found
      · cases found
      · split at found
        · simpa using ih found
        · split at found
          · rename_i last
            simp at last
          · cases found
    · cases found
    · cases found

theorem descend_absent (wellFormed : WellFormed t) (refused : t.descend l names = .error refusal)
    (short : refusal ≠ .nameTooLong) : t.node? (l ++ names) = none := by
  cases there : t.node? (l ++ names) with
  | none => rfl
  | some node =>
    exfalso
    induction names generalizing l with
    | nil => cases refused
    | cons name rest ih =>
      have here : t.node? l = some .directory := wellFormed.above there (by simp)
      have regrouped : t.node? ((l ++ [name]) ++ rest) = some node := by simpa using there
      rw [descend, here] at refused
      simp only at refused
      split at refused
      · cases refused
        exact short rfl
      · split at refused
        · exact ih refused regrouped
        · rename_i absent
          by_cases last : rest = []
          · subst last
            rw [List.append_nil] at regrouped
            rw [absent] at regrouped
            cases regrouped
          · have above := wellFormed.above regrouped last
            rw [absent] at above
            cases above

def SameAt (l : Location) (t u : FileTree) : Prop := ∀ names, t.node? (l ++ names) = u.node? (l ++ names)

theorem SameAt.under (same : SameAt l t u) (more : List String) : SameAt (l ++ more) t u := by
  intro names
  rw [List.append_assoc]
  exact same (more ++ names)

theorem descend_congr (same : SameAt l t u) : t.descend l names = u.descend l names := by
  induction names generalizing l with
  | nil => rfl
  | cons name rest ih =>
    have here : t.node? l = u.node? l := by simpa using same []
    rw [descend, descend, here, same [name], ih (same.under [name])]

theorem descend_congr_below (here : t.node? l = u.node? l) (same : SameAt (l ++ [name]) t u) :
    t.descend l (name :: names) = u.descend l (name :: names) := by
  have below : t.node? (l ++ [name]) = u.node? (l ++ [name]) := by simpa using same []
  rw [descend, descend, here, below, descend_congr same]

end AbiBuild.FileTree
