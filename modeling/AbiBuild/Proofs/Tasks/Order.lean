import AbiBuild.Tasks.Order
import Mathlib.Data.List.Nodup
import Mathlib.Data.List.Perm.Subperm
import Mathlib.Logic.Relation

namespace AbiBuild.Tasks

variable {needs : Needs} {task before name : String} {path done after front back : List String}

def Direct (needs : Needs) (task before : String) : Prop :=
  ∃ list, needs.get? task = some list ∧ before ∈ list

def Requires (needs : Needs) : String → String → Prop := Relation.TransGen (Direct needs)

structure Ordered (needs : Needs) (done : List String) : Prop where
  nodup : done.Nodup
  closed : ∀ {front task back}, done = front ++ task :: back →
    ∀ {before}, Direct needs task before → before ∈ front

theorem ordered_nil (needs : Needs) : Ordered needs [] := by
  refine ⟨List.nodup_nil, ?_⟩
  intro front task back split
  simp at split

theorem Ordered.snoc (ordered : Ordered needs done) (fresh : task ∉ done)
    (met : ∀ before, Direct needs task before → before ∈ done) : Ordered needs (done ++ [task]) := by
  refine ⟨List.nodup_append.mpr ⟨ordered.nodup, List.nodup_singleton _, ?_⟩, ?_⟩
  · intro old present new last
    rw [List.mem_singleton] at last
    subst last
    exact fun same => fresh (same ▸ present)
  · intro front other back split before needed
    rcases List.eq_nil_or_concat back with rfl | ⟨rest, last, rfl⟩
    · obtain ⟨rfl, same⟩ := List.append_inj' split rfl
      cases same
      exact met _ needed
    · have inner : done = front ++ other :: rest :=
        List.append_inj_left' (by simpa using split : done ++ [task] = (front ++ other :: rest) ++ [last]) rfl
      exact ordered.closed inner needed

theorem Ordered.requires (ordered : Ordered needs done) (split : done = front ++ task :: back)
    (required : Requires needs task before) : before ∈ front := by
  induction required with
  | single needed => exact ordered.closed split needed
  | tail _ needed ih =>
    obtain ⟨first, second, rfl⟩ := List.append_of_mem ih
    have earlier := ordered.closed (by simpa using split) needed
    exact List.mem_append_left _ earlier

-- In an ordered list nothing stands at or before what it needs.
theorem Ordered.not_requires (ordered : Ordered needs done)
    (split : done = front ++ before :: back) (required : Requires needs task before) :
    task ∉ front ++ [before] := by
  intro member
  have apart := ordered.nodup
  rcases List.mem_append.mp member with inFront | last
  · obtain ⟨first, second, rfl⟩ := List.append_of_mem inFront
    have regrouped : done = first ++ task :: (second ++ before :: back) := by rw [split]; simp
    have earlier := ordered.requires regrouped required
    rw [split] at apart
    simp only [List.append_assoc, List.cons_append, List.nodup_append] at apart
    exact apart.2.2 before earlier before (by simp) rfl
  · rw [List.mem_singleton] at last
    subst last
    have earlier := ordered.requires split required
    rw [split, List.nodup_append] at apart
    exact apart.2.2 _ earlier _ (by simp) rfl

theorem mem_keys_of_needsOf (found : needsOf needs task = .ok after) : task ∈ needs.keys := by
  unfold needsOf at found
  cases got : needs.get? task with
  | none => simp [got] at found
  | some list =>
    rw [Table.get?, List.lookup_eq_some_iff] at got
    obtain ⟨first, second, rfl, _⟩ := got
    simp [Table.keys]

theorem get?_of_needsOf (found : needsOf needs task = .ok after) : needs.get? task = some after := by
  unfold needsOf at found
  split at found
  · rename_i list got
    rw [got, Except.ok.inj found]
  · cases found

theorem needsOf_of_mem_keys (present : task ∈ needs.keys) : ∃ list, needsOf needs task = .ok list := by
  unfold needsOf
  cases found : needs.get? task with
  | some list => exact ⟨list, rfl⟩
  | none =>
    rw [Table.get?, List.lookup_eq_none_iff] at found
    obtain ⟨⟨key, list⟩, member, rfl⟩ := List.mem_map.mp present
    simpa using found _ member

-- The path from the wanted task down to the one that is visited: no task twice, and none that is done.
structure Under (needs : Needs) (path done : List String) : Prop where
  nodup : path.Nodup
  known : path ⊆ needs.keys
  pending : ∀ task ∈ path, task ∉ done

theorem Under.length_le (under : Under needs path done) : path.length ≤ needs.length := by
  have bound := (List.Nodup.subperm under.nodup under.known).length_le
  simpa [Table.keys] using bound

theorem Under.push (under : Under needs path done) (found : needsOf needs task = .ok after)
    (fresh : task ∉ done) (offPath : task ∉ path) : Under needs (path ++ [task]) done := by
  refine ⟨List.nodup_append.mpr ⟨under.nodup, List.nodup_singleton _, ?_⟩, ?_, ?_⟩
  · intro old present new last
    rw [List.mem_singleton] at last
    subst last
    exact fun same => offPath (same ▸ present)
  · intro other present
    rcases List.mem_append.mp present with old | last
    · exact under.known old
    · rw [List.mem_singleton.mp last]
      exact mem_keys_of_needsOf found
  · intro other present
    rcases List.mem_append.mp present with old | last
    · exact under.pending other old
    · rwa [List.mem_singleton.mp last]

-- What a visit that succeeds adds to the tasks that are done.
structure Visited (needs : Needs) (path done after : List String) : Prop where
  ordered : Ordered needs after
  grown : done <+: after
  under : Under needs path after

theorem Visited.refl (ordered : Ordered needs done) (under : Under needs path done) :
    Visited needs path done done := ⟨ordered, List.prefix_refl _, under⟩

theorem Visited.trans {middle : List String} (first : Visited needs path done middle)
    (second : Visited needs path middle after) : Visited needs path done after :=
  ⟨second.ordered, first.grown.trans second.grown, second.under⟩

theorem visits_ordered {visitOne : List String → String → Except Failure (List String)}
    (one : ∀ {done task after}, Ordered needs done → Under needs path done →
      visitOne done task = .ok after → Visited needs path done after ∧ task ∈ after) :
    ∀ {list done after : List String}, Ordered needs done → Under needs path done →
      list.foldlM visitOne done = .ok after →
      Visited needs path done after ∧ ∀ task ∈ list, task ∈ after := by
  intro list
  induction list with
  | nil =>
    intro done after ordered under ran
    cases ran
    exact ⟨.refl ordered under, by simp⟩
  | cons head rest ih =>
    intro done after ordered under ran
    rw [List.foldlM_cons] at ran
    cases first : visitOne done head with
    | error cause => simp [first, bind, Except.bind] at ran
    | ok middle =>
      simp only [first, bind, Except.bind] at ran
      obtain ⟨visited, present⟩ := one ordered under first
      obtain ⟨later, rest⟩ := ih visited.ordered visited.under ran
      refine ⟨visited.trans later, ?_⟩
      intro task member
      rcases List.mem_cons.mp member with rfl | inRest
      · exact later.grown.subset present
      · exact rest task inRest

theorem visit_parts {depth : Nat} (fresh : task ∉ done)
    (ran : visit needs (depth + 1) path done task = .ok after) :
    task ∉ path ∧ ∃ list middle, needsOf needs task = .ok list ∧
      list.foldlM (visit needs depth (path ++ [task])) done = .ok middle ∧ after = middle ++ [task] := by
  unfold visit at ran
  rw [if_neg fresh] at ran
  split at ran
  · cases ran
  · rename_i offPath
    cases found : needsOf needs task with
    | error cause => simp [found, bind, Except.bind] at ran
    | ok list =>
      simp only [found, bind, Except.bind] at ran
      cases inner : list.foldlM (visit needs depth (path ++ [task])) done with
      | error cause => simp [inner] at ran
      | ok middle =>
        simp only [inner, pure, Except.pure] at ran
        cases ran
        exact ⟨offPath, list, middle, rfl, inner, rfl⟩

theorem visit_ordered {depth : Nat} (room : needs.length < depth + path.length)
    (ordered : Ordered needs done) (under : Under needs path done)
    (ran : visit needs depth path done task = .ok after) :
    Visited needs path done after ∧ task ∈ after := by
  -- Induction on the depth. There is room for the path as long as the two together exceed the number of
  -- tasks, and a path of distinct tasks cannot be longer than that, so the depth never runs out.
  induction depth generalizing path done task after with
  | zero =>
    have bound := under.length_le
    omega
  | succ depth ih =>
    by_cases present : task ∈ done
    · unfold visit at ran
      rw [if_pos present] at ran
      cases ran
      exact ⟨.refl ordered under, present⟩
    · obtain ⟨offPath, list, middle, found, inner, rfl⟩ := visit_parts present ran
      have pushed := under.push found present offPath
      have deeper : needs.length < depth + (path ++ [task]).length := by
        simp only [List.length_append, List.length_singleton]
        omega
      obtain ⟨visited, met⟩ := visits_ordered (ih deeper) ordered pushed inner
      have notYet : task ∉ middle := visited.under.pending task (by simp)
      refine ⟨⟨?_, visited.grown.trans (List.prefix_append _ _), ?_⟩, by simp⟩
      · apply visited.ordered.snoc notYet
        rintro before ⟨other, got, member⟩
        have same : other = list := by
          rw [needsOf, got] at found
          exact Except.ok.inj found
        exact met before (same ▸ member)
      · refine ⟨under.nodup, under.known, ?_⟩
        intro other present later
        rcases List.mem_append.mp later with old | last
        · exact visited.under.pending other (List.mem_append_left _ present) old
        · exact offPath (List.mem_singleton.mp last ▸ present)

theorem order_ordered (ran : order needs name = .ok after) : Ordered needs after ∧ name ∈ after := by
  have under : Under needs [] [] := ⟨List.nodup_nil, List.nil_subset _, by simp⟩
  obtain ⟨visited, present⟩ :=
    visit_ordered (by simp) (ordered_nil needs) under ran
  exact ⟨visited.ordered, present⟩

end AbiBuild.Tasks
