import AbiBuild.Proofs.Files.Frames
import AbiBuild.Proofs.Files.Growth

namespace AbiBuild.FileTree
open AbiBuild.Text

-- Directories may appear anywhere. Files change only at some places, and whatever else changes does so at others.
structure Touches (files others : Location → Prop) (t u : FileTree) : Prop where
  here : u.here = t.here
  links : SameLinks t u
  wellFormed : t.WellFormed → u.WellFormed
  nodes : ∀ m, u.node? m = t.node? m ∨ t.node? m = none ∧ u.node? m = some .directory ∨
    files m ∧ t.node? m ≠ some .directory ∨ others m

variable {files others more : Location → Prop} {t u v : FileTree} {l m : Location} {made : Location → Prop}
  {p : FilePath} {names : List String} {items : List (FilePath × Node)} {paths : List FilePath} {content : Bytes}

namespace Touches

theorem refl (files others : Location → Prop) (t : FileTree) : Touches files others t t :=
  ⟨rfl, .refl t, id, fun _ => .inl rfl⟩

theorem trans (first : Touches files others t u) (second : Touches files others u v) : Touches files others t v := by
  refine ⟨second.here.trans first.here, first.links.trans second.links, second.wellFormed ∘ first.wellFormed, fun m => ?_⟩
  rcases first.nodes m with same | ⟨absent, directory⟩ | changed | changed
  · rw [← same]
    exact second.nodes m
  · rcases second.nodes m with same | ⟨absent', _⟩ | ⟨_, other⟩ | changed
    · exact .inr (.inl ⟨absent, same.trans directory⟩)
    · rw [directory] at absent'
      cases absent'
    · exact absurd directory other
    · exact .inr (.inr (.inr changed))
  · exact .inr (.inr (.inl changed))
  · exact .inr (.inr (.inr changed))

theorem mono {files' others' : Location → Prop} (touches : Touches files others t u) (fewer : ∀ m, files m → files' m)
    (fewer' : ∀ m, others m → others' m) : Touches files' others' t u :=
  ⟨touches.here, touches.links, touches.wellFormed, fun m => (touches.nodes m).imp_right
    (.imp_right (.imp (.imp_left (fewer m)) (fewer' m)))⟩

theorem steady (touches : Touches files others t u) (wellFormed : t.WellFormed) : Steady t u :=
  ⟨touches.wellFormed wellFormed, touches.here, touches.links⟩

theorem directory (touches : Touches files others t u) (there : t.node? m = some .directory) :
    u.node? m = some .directory ∨ others m := by
  rcases touches.nodes m with same | ⟨absent, _⟩ | ⟨_, other⟩ | changed
  · exact .inl (same.trans there)
  · rw [there] at absent
    cases absent
  · exact absurd there other
  · exact .inr changed

theorem file {executable : Bool} (touches : Touches files others t u) (there : t.node? m = some (.file content executable))
    (outside : ¬ files m) (beside : ¬ others m) : u.node? m = t.node? m := by
  rcases touches.nodes m with same | ⟨absent, _⟩ | ⟨changed, _⟩ | changed
  · exact same
  · rw [there] at absent
    cases absent
  · exact absurd changed outside
  · exact absurd changed beside

end Touches

theorem Changes.touches (changes : Changes l made t u)
    (only : ∀ m, u.node? m = t.node? m ∨ files m) : Touches files others t u := by
  refine ⟨changes.here, changes.links, changes.wellFormed, fun m => ?_⟩
  by_cases directory : t.node? m = some .directory
  · exact .inl ((changes.directories m directory).trans directory.symm)
  · exact (only m).imp_right fun changed => .inr (.inl ⟨changed, directory⟩)

theorem ensureDirectory_touch (wellFormed : t.WellFormed) (absolute : p.root ≠ .relative) :
    Touches files others t (t.ensureDirectory p).tree := by
  have changes := ensureDirectory_changes wellFormed absolute
  refine ⟨(changes []).here, (changes []).links, (changes []).wellFormed, fun m => ?_⟩
  have outside : ¬ m ++ [""] <+: m := fun inside => absurd inside.length_le (by simp)
  exact ((changes (m ++ [""])).elsewhere m outside).imp_right fun made => .inl made.2

theorem write_touch (hosts : Hosts t p l) (plain : ∀ name ∈ names, name ≠ "..") (nonempty : names ≠ [])
    (changed : files (l ++ names)) (ran : t.write (p.under names) content = .ok u) : Touches files others t u := by
  obtain ⟨located, executable, rfl⟩ := write_parts hosts plain nonempty ran
  have changes : Changes (l ++ names) nowhere t (t.put (l ++ names) (.file content executable)) :=
    write_changes hosts plain nonempty (List.prefix_refl _) ran
  refine changes.touches fun m => ?_
  rw [node?_put located.nonempty]
  split
  · rename_i same
    exact .inr (same ▸ changed)
  · exact .inl rfl

theorem unlinkIfThere_touch (hosts : Hosts t p l) (plain : ∀ name ∈ names, name ≠ "..") (nonempty : names ≠ [])
    (changed : files (l ++ names)) (ran : t.unlinkIfThere (p.under names) = .ok u) : Touches files others t u := by
  have changes : Changes (l ++ names) nowhere t u := unlinkIfThere_changes hosts plain nonempty (List.prefix_refl _) ran
  refine changes.touches fun m => ?_
  refine (unlinkIfThere_only hosts plain nonempty ran m).imp_right ?_
  rintro ⟨-, rfl⟩
  exact changed

theorem Strews.touches (strews : Strews items t u)
    (changed : ∀ item ∈ items, ∀ m, LeadsTo t item.1 m → files m) : Touches files others t u := by
  refine ⟨strews.changes.here, strews.changes.links, strews.changes.wellFormed, fun m => ?_⟩
  have put : ∀ content executable, u.node? m = some (.file content executable) →
      t.node? m = some (.file content executable) ∨ files m := by
    intro content executable there
    exact (strews.source m content executable there).imp_right fun ⟨item, member, _, leads⟩ => changed item member m leads
  cases before : t.node? m with
  | none =>
    cases after : u.node? m with
    | none => exact .inl rfl
    | some node =>
      cases node with
      | directory => exact .inr (.inl ⟨rfl, rfl⟩)
      | link target => cases before.symm.trans ((strews.changes.links m target).mpr after)
      | file content executable =>
        rcases put content executable after with there | files
        · cases before.symm.trans there
        · exact .inr (.inr (.inl ⟨files, nofun⟩))
  | some node =>
    cases node with
    | directory => exact .inl (strews.changes.directories m before)
    | link target => exact .inl ((strews.changes.links m target).mp before)
    | file content executable =>
      obtain ⟨content', executable', after⟩ := strews.stays m content executable before
      rcases put content' executable' after with there | files
      · exact .inl (after.trans (there.symm.trans before))
      · exact .inr (.inr (.inl ⟨files, nofun⟩))

theorem Within.touches (within : Within paths t u) (inside : ∀ p ∈ paths, ∀ l, LeadsTo t p l → ∀ m, l <+: m → others m) :
    Touches files others t u := by
  refine ⟨within.here, within.links, within.wellFormed, fun m => ?_⟩
  rcases within.nodes m with same | ⟨p, member, l, leads, below⟩ | ⟨_, made⟩
  · exact .inl same
  · exact .inr (.inr (.inr (inside p member l leads m below)))
  · exact .inr (.inl made)

end AbiBuild.FileTree
