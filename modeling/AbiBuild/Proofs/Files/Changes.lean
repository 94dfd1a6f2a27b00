import AbiBuild.Proofs.Files.Places

namespace AbiBuild.FileTree

-- Elsewhere only directories appear, and only where `made` allows it.
structure Changes (l : Location) (made : Location → Prop) (t u : FileTree) : Prop where
  here : u.here = t.here
  links : SameLinks t u
  directories : ∀ m, t.node? m = some .directory → u.node? m = some .directory
  elsewhere : ∀ m, ¬ l <+: m →
    u.node? m = t.node? m ∨ (made m ∧ t.node? m = none ∧ u.node? m = some .directory)
  wellFormed : t.WellFormed → u.WellFormed

-- What stays of a tree for good.
structure Steady (before after : FileTree) : Prop where
  wellFormed : after.WellFormed
  here : after.here = before.here
  links : SameLinks before after

def nowhere : Location → Prop := fun _ => False

-- What becomes of the file at a place: it is written, taken away (`none`), or the operation is refused.
abbrev Rule := Option Node → Except Refusal (Option Node)

def replace (t : FileTree) (l : Location) : Option Node → FileTree
  | some node => t.put l node
  | none => t.erase l

def amend (t : FileTree) (followLast : Bool) (p : FilePath) (rule : Rule) : Except FileFault FileTree := do
  let l ← t.locate followLast p
  match rule (t.node? l) with
  | .ok new => .ok (t.replace l new)
  | .error refusal => refuse refusal p

def unlinkRule : Rule
  | some .directory => .error .isDirectory
  | some _ => .ok none
  | none => .error .noEntry

def writeRule (content : Text.Bytes) : Rule
  | some .directory => .error .isDirectory
  | some (.file _ executable) => .ok (some (.file content executable))
  | _ => .ok (some (.file content false))

def makeRule : Rule
  | some _ => .error .alreadyThere
  | none => .ok (some .directory)

-- A rule that leaves directories alone and makes no links.
def Rule.Mild (rule : Rule) : Prop := ∀ old new, rule old = .ok new →
  old ≠ some .directory ∧ ∀ target, new ≠ some (.link target)

variable {t u v : FileTree} {l m k : Location} {made more : Location → Prop} {node : Node}
  {p : FilePath} {names region : List String} {rule : Rule} {followLast : Bool}

theorem node?_put (nonempty : m ≠ []) (node : Node) (k : Location) :
    (t.put m node).node? k = if k = m then some node else t.node? k := by
  split
  · rename_i same
    rw [same, node?_put_self t nonempty]
  · rename_i other
    rw [node?_put_of_ne t other]

theorem node?_erase (nonempty : m ≠ []) (k : Location) :
    (t.erase m).node? k = if k = m then none else t.node? k := by
  split
  · rename_i same
    rw [same, node?_erase_self t nonempty]
  · rename_i other
    rw [node?_erase_of_ne t other]

theorem node?_replace (nonempty : m ≠ []) (new : Option Node) (k : Location) :
    (t.replace m new).node? k = if k = m then new else t.node? k := by
  cases new with
  | some node => exact node?_put nonempty node k
  | none => exact node?_erase nonempty k

theorem Changes.refl (l : Location) (made : Location → Prop) (t : FileTree) : Changes l made t t :=
  ⟨rfl, .refl t, fun _ there => there, fun _ _ => .inl rfl, fun wellFormed => wellFormed⟩

-- A directory that has appeared in between is not missing any more.
theorem elsewhere_trans
    (first : u.node? m = t.node? m ∨ (made m ∧ t.node? m = none ∧ u.node? m = some .directory))
    (second : v.node? m = u.node? m ∨ (made m ∧ u.node? m = none ∧ v.node? m = some .directory)) :
    v.node? m = t.node? m ∨ (made m ∧ t.node? m = none ∧ v.node? m = some .directory) := by
  rcases second with same | ⟨allowed, absent, present⟩
  · rwa [same]
  · rcases first with before | ⟨_, _, there⟩
    · exact .inr ⟨allowed, before ▸ absent, present⟩
    · cases absent.symm.trans there

theorem Changes.trans (first : Changes l made t u) (second : Changes l made u v) :
    Changes l made t v where
  here := second.here.trans first.here
  links := first.links.trans second.links
  directories m there := second.directories m (first.directories m there)
  elsewhere m outside := elsewhere_trans (first.elsewhere m outside) (second.elsewhere m outside)
  wellFormed wellFormed := second.wellFormed (first.wellFormed wellFormed)

theorem Changes.mono (changes : Changes l made t u) (fewer : ∀ m, made m → more m) :
    Changes l more t u := by
  refine ⟨changes.here, changes.links, changes.directories, ?_, changes.wellFormed⟩
  intro m outside
  rcases changes.elsewhere m outside with same | ⟨allowed, rest⟩
  · exact .inl same
  · exact .inr ⟨fewer m allowed, rest⟩

theorem Changes.stands (changes : Changes l made t u) (stands : Stands t p k) : Stands u p k :=
  stands.congr changes.here (fun m target => (changes.links m target).mp) changes.directories

theorem Changes.hosts (changes : Changes l made t u) (hosts : Hosts t p k) : Hosts u p k :=
  hosts.congr changes.here changes.links

theorem Changes.file (changes : Changes l made t u) (outside : ¬ l <+: m)
    {content : Text.Bytes} {executable : Bool} :
    u.node? m = some (.file content executable) ↔ t.node? m = some (.file content executable) := by
  rcases changes.elsewhere m outside with same | ⟨_, absent, present⟩
  · rw [same]
  · rw [absent, present]
    simp

theorem Steady.refl (wellFormed : t.WellFormed) : Steady t t := ⟨wellFormed, rfl, .refl t⟩

theorem Steady.trans (first : Steady t u) (second : Steady u v) : Steady t v :=
  ⟨second.wellFormed, second.here.trans first.here, first.links.trans second.links⟩

theorem Steady.changes (steady : Steady t u) (changes : Changes l made u v) : Steady t v :=
  steady.trans ⟨changes.wellFormed steady.wellFormed, changes.here, changes.links⟩

theorem Steady.hosts (steady : Steady t u) (hosts : Hosts t p k) : Hosts u p k :=
  hosts.congr steady.here steady.links

theorem Steady.leadsTo (steady : Steady t u) : LeadsTo u p m ↔ LeadsTo t p m :=
  ⟨fun leads => leads.congr steady.here.symm steady.links.symm,
    fun leads => leads.congr steady.here steady.links⟩

-- A file at the location in the second tree is there in the first.
def Fewer (m : Location) (t u : FileTree) : Prop :=
  ∀ content executable, u.node? m = some (.file content executable) →
    t.node? m = some (.file content executable)

theorem Fewer.trans (first : Fewer m t u) (second : Fewer m u v) : Fewer m t v :=
  fun content executable there => first content executable (second content executable there)

theorem Fewer.elsewhere (changes : Changes l made t u) (outside : ¬ l <+: m) : Fewer m t u :=
  fun _ _ there => (changes.file outside).mp there

theorem Fewer.elsewhere' (changes : Changes l made t u) (outside : ¬ l <+: m) : Fewer m u t :=
  fun _ _ there => (changes.file outside).mpr there

theorem changes_replace {new : Option Node} (inside : l <+: m) (nonempty : m ≠ [])
    (parent : new ≠ none → t.node? m.dropLast = some .directory) (oldDirectory : t.node? m ≠ some .directory)
    (oldLink : ∀ target, t.node? m ≠ some (.link target)) (newLink : ∀ target, new ≠ some (.link target)) :
    Changes l made t (t.replace m new) := by
  have at_ := node?_replace (t := t) nonempty new
  have stays : ∀ k, t.node? k = some .directory → (t.replace m new).node? k = some .directory := by
    intro k there
    have other : k ≠ m := fun same => oldDirectory (same ▸ there)
    rw [at_, if_neg other]
    exact there
  refine ⟨by cases new <;> rfl, ?_, stays, ?_, ?_⟩
  · intro k target
    rw [at_]
    by_cases same : k = m
    · subst same
      simp [oldLink target, newLink target]
    · simp [same]
  · intro k outside
    have other : k ≠ m := fun same => outside (same ▸ inside)
    rw [at_, if_neg other]
    exact .inl rfl
  · intro wellFormed k name found there
    rw [at_] at there
    by_cases last : k ++ [name] = m
    · subst last
      rw [if_pos rfl] at there
      rw [List.dropLast_concat] at parent
      exact stays k (parent (by simp [there]))
    · rw [if_neg last] at there
      exact stays k (wellFormed k name found there)

theorem changes_put (inside : l <+: m) (nonempty : m ≠ []) (parent : t.node? m.dropLast = some .directory)
    (oldDirectory : t.node? m ≠ some .directory) (oldLink : ∀ target, t.node? m ≠ some (.link target))
    (newLink : ∀ target, node ≠ .link target) : Changes l made t (t.put m node) :=
  show Changes l made t (t.replace m (some node)) from
    changes_replace inside nonempty (fun _ => parent) oldDirectory oldLink
      fun target same => newLink target (Option.some.inj same)

theorem unlink_eq : t.unlink p = t.amend false p unlinkRule := by
  unfold unlink amend
  cases t.locate false p with
  | error fault => rfl
  | ok l =>
    simp only [bind, Except.bind]
    cases t.node? l with
    | none => rfl
    | some node => cases node <;> rfl

theorem write_eq (content : Text.Bytes) : t.write p content = t.amend true p (writeRule content) := by
  unfold write amend
  cases t.locate true p with
  | error fault => rfl
  | ok l =>
    simp only [bind, Except.bind]
    cases t.node? l with
    | none => rfl
    | some node => cases node <;> rfl

theorem makeDirectory_eq : t.makeDirectory p = t.amend false p makeRule := by
  unfold makeDirectory amend
  cases t.locate false p with
  | error fault => rfl
  | ok l =>
    simp only [bind, Except.bind]
    cases t.node? l with
    | none => rfl
    | some node => cases node <;> rfl

theorem unlinkRule_mild : unlinkRule.Mild := by
  intro old new ran
  unfold unlinkRule at ran
  split at ran
  · cases ran
  · rename_i notDirectory
    cases ran
    exact ⟨fun same => notDirectory (Option.some.inj same), by simp⟩
  · cases ran

theorem writeRule_mild (content : Text.Bytes) : (writeRule content).Mild := by
  intro old new ran
  unfold writeRule at ran
  split at ran
  · cases ran
  · cases ran
    simp
  · rename_i notDirectory _
    cases ran
    exact ⟨notDirectory, by simp⟩

theorem makeRule_mild : makeRule.Mild := by
  intro old new ran
  unfold makeRule at ran
  split at ran
  · cases ran
  · cases ran
    simp

-- What is found below a path whose place is known.
structure Located (t : FileTree) (p : FilePath) (l : Location) (names : List String) : Prop where
  stands : Stands t p l
  clear : Clear t l
  parent : t.node? (l ++ names).dropLast = some .directory
  nonempty : l ++ names ≠ []

theorem located (hosts : Hosts t p l) (plain : ∀ name ∈ names, name ≠ "..") (nonempty : names ≠ [])
    (found : t.locate followLast (p.under names) = .ok m) : m = l ++ names ∧ Located t p l names := by
  obtain ⟨k, somewhere⟩ := stands_of_locate found nonempty
  obtain ⟨stands, clear⟩ := hosts.stands somewhere
  rw [locate_under stands clear plain nonempty, reach] at found
  split at found
  · cases found
  · split at found
    · rename_i place down
      cases found
      refine ⟨descend_eq down, stands, clear, ?_, by simp [nonempty]⟩
      obtain ⟨front, last, rfl⟩ : ∃ front last, names = front ++ [last] :=
        ⟨_, _, (List.dropLast_concat_getLast nonempty).symm⟩
      rw [← List.append_assoc, List.dropLast_concat]
      exact descend_parent down
    · cases found

theorem Located.noLink (found : Located t p l names) (nonempty : names ≠ []) (target : String) :
    t.node? (l ++ names) ≠ some (.link target) := found.clear names nonempty target

theorem amend_parts (hosts : Hosts t p l) (plain : ∀ name ∈ names, name ≠ "..") (nonempty : names ≠ [])
    (ran : t.amend followLast (p.under names) rule = .ok u) :
    Located t p l names ∧
      ∃ new, rule (t.node? (l ++ names)) = .ok new ∧ u = t.replace (l ++ names) new := by
  unfold amend at ran
  cases found : t.locate followLast (p.under names) with
  | error fault => simp [found, bind, Except.bind] at ran
  | ok m =>
    obtain ⟨rfl, place⟩ := located hosts plain nonempty found
    refine ⟨place, ?_⟩
    simp only [found, bind, Except.bind] at ran
    cases decided : rule (t.node? (l ++ names)) with
    | error refusal =>
      rw [decided] at ran
      cases ran
    | ok new =>
      rw [decided] at ran
      cases ran
      exact ⟨new, rfl, rfl⟩

theorem amend_changes (mild : rule.Mild) (hosts : Hosts t p l) (plain : ∀ name ∈ names, name ≠ "..")
    (nonempty : names ≠ []) (inside : region <+: names)
    (ran : t.amend followLast (p.under names) rule = .ok u) : Changes (l ++ region) made t u := by
  obtain ⟨place, new, decided, rfl⟩ := amend_parts hosts plain nonempty ran
  obtain ⟨oldDirectory, newLink⟩ := mild _ _ decided
  have below : l ++ region <+: l ++ names := (List.prefix_append_right_inj l).mpr inside
  exact changes_replace below place.nonempty (fun _ => place.parent) oldDirectory (place.noLink nonempty) newLink

end AbiBuild.FileTree
