import AbiBuild.Proofs.Files.Resolving

namespace AbiBuild.FileTree

def behind (t : FileTree) : Nat → Location → String → Option Location
  | 0, _, _ => none
  | depth + 1, l, target => t.unlinked depth (base l (.ofText target)) (FilePath.ofText target).names

-- The link at a place takes exactly so many levels.
def Takes (t : FileTree) (depth : Nat) (m : Location) : Prop :=
  ∃ l name target, m = l ++ [name] ∧ t.node? m = some (.link target) ∧
    (t.behind depth l target).isSome ∧ ∀ fewer < depth, t.behind fewer l target = none

variable {t : FileTree} {depth more : Nat} {l m k : Location} {name target : String} {names : List String}
  {p : FilePath}

theorem unlinked_eq : t.unlinked depth l names = names.foldlM (t.onward (t.behind depth)) l := by
  cases depth <;> rfl

theorem onward_mono {follow further : Location → String → Option Location}
    (grows : ∀ l target m, follow l target = some m → further l target = some m)
    (found : t.onward follow l name = some m) : t.onward further l name = some m := by
  unfold onward at found ⊢
  split at found
  · rename_i up
    rw [if_pos up]
    exact found
  · rename_i notUp
    rw [if_neg notUp]
    split at found
    · exact grows _ _ _ found
    · exact found

theorem onwards_mono {follow further : Location → String → Option Location}
    (grows : ∀ l target m, follow l target = some m → further l target = some m)
    (found : names.foldlM (t.onward follow) l = some m) : names.foldlM (t.onward further) l = some m := by
  induction names generalizing l with
  | nil => exact found
  | cons name rest ih =>
    rw [List.foldlM_cons] at found ⊢
    obtain ⟨next, first, later⟩ := Option.bind_eq_some_iff.mp found
    rw [onward_mono grows first]
    exact ih later

theorem behind_succ (found : t.behind depth l target = some m) : t.behind (depth + 1) l target = some m := by
  induction depth generalizing l target m with
  | zero => cases found
  | succ depth ih =>
    simp only [behind, unlinked_eq] at found ⊢
    exact onwards_mono (fun l target m => ih) found

theorem behind_mono (le : depth ≤ more) (found : t.behind depth l target = some m) :
    t.behind more l target = some m := by
  induction le with
  | refl => exact found
  | step _ ih => exact behind_succ ih

theorem unlinked_mono (le : depth ≤ more) (found : t.unlinked depth l names = some m) :
    t.unlinked more l names = some m := by
  rw [unlinked_eq] at found ⊢
  exact onwards_mono (fun _ _ _ => behind_mono le) found

-- Where one level more is needed, some link on the way takes just that many.
theorem exists_takes (found : t.unlinked (depth + 1) l names = some m) (short : t.unlinked depth l names = none) :
    ∃ k, Takes t (depth + 1) k := by
  rw [unlinked_eq] at found short
  induction names generalizing l with
  | nil => cases short
  | cons name rest ih =>
    rw [List.foldlM_cons] at found short
    obtain ⟨next, first, later⟩ := Option.bind_eq_some_iff.mp found
    cases same : t.onward (t.behind depth) l name with
    | some here =>
      have equal : here = next :=
        Option.some.inj ((onward_mono (fun _ _ _ => behind_succ) same).symm.trans first)
      rw [same, equal] at short
      exact ih later short
    | none =>
      unfold onward at first same
      split at same
      · cases same
      · rename_i notUp
        rw [if_neg notUp] at first
        split at same
        · rename_i target there
          rw [there] at first
          refine ⟨l ++ [name], l, name, target, rfl, there, by simp [first], fun fewer less => ?_⟩
          by_contra answered
          obtain ⟨k, found⟩ := Option.ne_none_iff_exists'.mp answered
          rw [behind_mono (Nat.le_of_lt_succ less) found] at same
          cases same
        · cases same

theorem Takes.unique (first : Takes t depth m) (second : Takes t more m) : depth = more := by
  obtain ⟨l, name, target, rfl, there, answered, fewer⟩ := first
  obtain ⟨l', name', target', same, there', answered', fewer'⟩ := second
  obtain ⟨rfl, _⟩ := List.append_inj' same rfl
  rw [there] at there'
  cases there'
  rcases Nat.lt_trichotomy depth more with less | equal | less
  · rw [fewer' depth less] at answered
    cases answered
  · exact equal
  · rw [fewer more less] at answered'
    cases answered'

theorem Takes.places (takes : Takes t depth m) :
    ∃ places : List Location, places.length = depth ∧ places.Nodup ∧
      ∀ k ∈ places, ∃ fewer ≤ depth, Takes t fewer k := by
  -- Induction on the levels. The link of each level has one of the level below inside it.
  induction depth generalizing m with
  | zero => exact ⟨[], rfl, List.nodup_nil, by simp⟩
  | succ depth ih =>
    have inside : depth = 0 ∨ ∃ k, Takes t depth k := by
      cases depth with
      | zero => exact .inl rfl
      | succ depth =>
        obtain ⟨l, name, target, _, _, answered, fewer⟩ := takes
        obtain ⟨k, found⟩ := Option.isSome_iff_exists.mp answered
        exact .inr (exists_takes found (fewer (depth + 1) (Nat.lt_succ_self _)))
    obtain ⟨places, length, nodup, each⟩ : ∃ places : List Location, places.length = depth ∧ places.Nodup ∧
        ∀ k ∈ places, ∃ fewer ≤ depth, Takes t fewer k := by
      rcases inside with rfl | ⟨k, deeper⟩
      · exact ⟨[], rfl, List.nodup_nil, by simp⟩
      · exact ih deeper
    refine ⟨m :: places, by simp [length], List.nodup_cons.mpr ⟨fun member => ?_, nodup⟩, ?_⟩
    · obtain ⟨fewer, le, same⟩ := each m member
      have equal := takes.unique same
      omega
    · intro k member
      rcases List.mem_cons.mp member with rfl | old
      · exact ⟨depth + 1, Nat.le_refl _, takes⟩
      · obtain ⟨fewer, le, same⟩ := each k old
        exact ⟨fewer, Nat.le_succ_of_le le, same⟩

theorem Takes.bound (takes : Takes t depth m) : depth ≤ t.linkCount := by
  obtain ⟨places, length, nodup, each⟩ := takes.places
  rw [← length]
  unfold linkCount
  refine (List.subperm_of_subset nodup fun k member => ?_).length_le
  obtain ⟨_, _, _, _, target, _, there, _⟩ := each k member
  exact mem_linkPlaces.mpr ⟨target, there⟩

-- No more levels are of use than there are links.
theorem unlinked_bounded (found : t.unlinked depth l names = some m) : t.unlinked t.linkCount l names = some m := by
  induction depth with
  | zero => exact unlinked_mono (Nat.zero_le _) found
  | succ depth ih =>
    by_cases few : depth + 1 ≤ t.linkCount
    · exact unlinked_mono few found
    · cases short : t.unlinked depth l names with
      | none =>
        obtain ⟨k, takes⟩ := exists_takes found short
        exact absurd takes.bound few
      | some n =>
        have same := (unlinked_mono (Nat.le_succ depth) short).symm.trans found
        exact ih (short.trans same)

theorem exists_unlinked (leads : Leads t l names m) : ∃ depth, t.unlinked depth l names = some m := by
  induction leads with
  | nil => exact ⟨0, rfl⟩
  | up _ ih =>
    obtain ⟨depth, found⟩ := ih
    refine ⟨depth, ?_⟩
    rw [unlinked_eq] at found ⊢
    rw [List.foldlM_cons]
    exact found
  | down notUp noLink _ ih =>
    obtain ⟨depth, found⟩ := ih
    refine ⟨depth, ?_⟩
    rw [unlinked_eq] at found ⊢
    rw [List.foldlM_cons, onward_free noLink, if_neg notUp]
    exact found
  | @link l k name target names notUp there _ ih =>
    obtain ⟨depth, found⟩ := ih
    refine ⟨depth + 1, ?_⟩
    rw [unlinked_eq, List.foldlM_append] at found
    obtain ⟨next, through, rest⟩ := Option.bind_eq_some_iff.mp found
    rw [← unlinked_eq] at through
    have first : t.onward (t.behind (depth + 1)) l name = some next := by
      unfold onward
      rw [if_neg notUp, there]
      exact through
    rw [unlinked_eq, List.foldlM_cons, first]
    exact onwards_mono (fun _ _ _ => behind_succ) rest

theorem resolve_leads (noNul : p.hasNul = false) (leads : LeadsTo t p m) : t.resolve p = .ok ⟨.single, m⟩ := by
  obtain ⟨depth, found⟩ := exists_unlinked leads
  unfold resolve
  rw [noNul, unlinked_bounded found]
  rfl

theorem resolve_here (t : FileTree) : t.resolve ⟨.relative, []⟩ = .ok ⟨.single, t.here⟩ := resolve_leads rfl .nil

theorem resolve_directory (asked : t.isDirectory p = .ok true) : ∃ q, t.resolve p = .ok q := by
  obtain ⟨left, m, route⟩ := isDirectory_route asked
  obtain ⟨k, located, _⟩ := isDirectory_located asked
  exact ⟨_, resolve_leads (noNul_of_locate located) route.leads⟩

end AbiBuild.FileTree
