import AbiBuild.Placement

namespace AbiBuild.Placement
open FileTree

variable {t : FileTree} {abi : Abi} {library : String} {libraries : List String} {root dir path : FilePath}
  {artifacts : List (String × FilePath)} {p : Progress} {i : Invocation} {fault : FileFault}

theorem add_parts (item : Placed) :
    (p.add item).tree = p.tree ∧ (p.add item).failure = p.failure := by
  unfold Progress.add
  split
  · exact ⟨rfl, rfl⟩
  · exact ⟨rfl, rfl⟩

theorem source_ways (t : FileTree) (artifacts : List (String × FilePath)) (library : String) :
    source t artifacts library = .ok none ∨
    ∃ path, (library, path) ∈ artifacts ∧
      source t artifacts library = (t.isFile path).map fun there => if there then some path else none := by
  unfold source
  cases listed : artifacts.lookup library with
  | none => exact .inl rfl
  | some path =>
    obtain ⟨front, back, split_, _⟩ := List.lookup_eq_some_iff.mp listed
    exact .inr ⟨path, by simp [split_], rfl⟩

theorem source_parts (found : source t artifacts library = .ok (some path)) :
    (library, path) ∈ artifacts ∧ t.isFile path = .ok true := by
  obtain none_ | ⟨produced, member, same⟩ := source_ways t artifacts library
  · rw [none_] at found
    cases found
  · rw [same] at found
    cases asked : t.isFile produced with
    | error fault => simp [asked, Except.map] at found
    | ok there =>
      cases there with
      | false => simp [asked, Except.map] at found
      | true =>
        simp only [asked, Except.map, if_true] at found
        cases found
        exact ⟨member, asked⟩

theorem source_fault (asked : source t artifacts library = .error fault) :
    ∃ path, (library, path) ∈ artifacts ∧ t.isFile path = .error fault := by
  obtain none_ | ⟨produced, member, same⟩ := source_ways t artifacts library
  · rw [none_] at asked
    cases asked
  · rw [same] at asked
    cases found : t.isFile produced with
    | error fault =>
      rw [found] at asked
      cases asked
      exact ⟨produced, member, found⟩
    | ok there =>
      rw [found] at asked
      cases asked

inductive LibraryStep (abi : Abi) (dir : FilePath) (artifacts : List (String × FilePath)) (library : String)
    (p : Progress) : Progress → Prop
  | stopped : p.failure ≠ none → LibraryStep abi dir artifacts library p p
  | unread {fault : FileFault} : p.failure = none → source p.tree artifacts library = .error fault →
      LibraryStep abi dir artifacts library p (p.fail fault)
  | absent (notice : Notice) : p.failure = none → source p.tree artifacts library = .ok none →
      LibraryStep abi dir artifacts library p { p with notices := p.notices ++ [notice] }
  | uncopied {path : FilePath} {fault : FileFault} : p.failure = none →
      source p.tree artifacts library = .ok (some path) → p.tree.copy path (dir.child library) = .error fault →
      LibraryStep abi dir artifacts library p (p.fail fault)
  | copied {path : FilePath} {after : FileTree} : p.failure = none →
      source p.tree artifacts library = .ok (some path) → p.tree.copy path (dir.child library) = .ok after →
      LibraryStep abi dir artifacts library p ({ p with tree := after }.add ⟨library, abi, dir.child library⟩)

theorem placeLibrary_step : LibraryStep abi dir artifacts library p (placeLibrary abi dir artifacts p library) := by
  unfold placeLibrary
  split
  · rename_i stopped
    exact .stopped (Option.isSome_iff_ne_none.mp stopped)
  · rename_i going
    have fine : p.failure = none := by simpa using going
    split
    · rename_i found
      exact .unread fine found
    · rename_i found
      exact .absent _ fine found
    · rename_i found
      simp only
      split
      · rename_i ran
        exact .uncopied fine found ran
      · rename_i ran
        exact .copied fine found ran

-- What placing for one architecture comes to: its directory made anew, and then all the libraries in turn.
inductive AbiStep (i : Invocation) (libraries : List String) (root : FilePath) (abi : Abi) (p : Progress) :
    Progress → Prop
  | stopped : p.failure ≠ none → AbiStep i libraries root abi p p
  | obstructed {fault : FileFault} : p.failure = none →
      (renew p.tree (abiDir root i.variant abi)).fault = some fault →
      AbiStep i libraries root abi p ({ p with tree := (renew p.tree (abiDir root i.variant abi)).tree }.fail fault)
  | filled : p.failure = none → (renew p.tree (abiDir root i.variant abi)).fault = none →
      AbiStep i libraries root abi p
        (libraries.foldl (placeLibrary abi (abiDir root i.variant abi)
            (((i.result? abi).map Compilation.artifacts).getD []))
          { p with tree := (renew p.tree (abiDir root i.variant abi)).tree })

theorem placeAbi_step : AbiStep i libraries root abi p (placeAbi i libraries root p abi) := by
  unfold placeAbi
  split
  · rename_i stopped
    exact .stopped (Option.isSome_iff_ne_none.mp stopped)
  · rename_i going
    have fine : p.failure = none := by simpa using going
    simp only
    split
    · rename_i failed
      exact .obstructed fine failed
    · rename_i failed
      exact .filled fine failed

-- What each step adds to what was dealt with before it holds of the whole list in the end.
theorem foldl_done {α β : Type} {f : β → α → β} {motive : List α → β → Prop} {list : List α} {b : β}
    (start : motive [] b)
    (step : ∀ done a rest b, done ++ a :: rest = list → motive done b → motive (done ++ [a]) (f b a)) :
    motive list (list.foldl f b) := by
  -- Induction on what is left, whatever was dealt with.
  have onward : ∀ rest done b, done ++ rest = list → motive done b → motive list (rest.foldl f b) := by
    intro rest
    induction rest with
    | nil =>
      intro done b all reached
      rw [List.append_nil] at all
      exact all ▸ reached
    | cons a rest ih =>
      intro done b all reached
      exact ih (done ++ [a]) (f b a) (by simpa using all) (step done a rest b all reached)
  exact onward list [] b rfl start

theorem fresh_of_nodup {α : Type} {done rest : List α} {a : α} (distinct : (done ++ a :: rest).Nodup) : a ∉ done :=
  fun old => (List.nodup_append.mp distinct).2.2 a old a (by simp) rfl

end AbiBuild.Placement
