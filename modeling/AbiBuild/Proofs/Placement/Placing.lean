import AbiBuild.Proofs.Build.Layout
import AbiBuild.Proofs.Files.Removal
import AbiBuild.Proofs.Placement.Steps

namespace AbiBuild.Placement
open AbiBuild.Text FileTree Build

-- Where libraries are taken from and where they are put, with the tree in which the compilation ended.
structure Site where
  compiled : FileTree
  targetDir : FilePath
  target : Location
  jniLibsDir : FilePath
  jniLibs : Location
  variant : Variant
  profile : Profile
  libraries : List String

namespace Site

structure Valid (s : Site) : Prop where
  wellFormed : s.compiled.WellFormed
  source : Hosts s.compiled s.targetDir s.target
  goal : Hosts s.compiled s.jniLibsDir s.jniLibs
  absolute : s.jniLibsDir.root ≠ .relative
  plain : ∀ library ∈ s.libraries, Plain library

def source (s : Site) (abi : Abi) (library : String) : Location :=
  s.target ++ libraryNames abi s.profile library

def names (s : Site) (abi : Abi) : List String := [s.variant.text] ++ [abi.text]

def place (s : Site) (abi : Abi) : Location := s.jniLibs ++ s.names abi

-- All that lies in the architecture's directory are libraries, each as it was compiled.
def Filled (s : Site) (t : FileTree) (abi : Abi) : Prop :=
  ∀ rest node, rest ≠ [] → t.node? (s.place abi ++ rest) = some node →
    ∃ library ∈ s.libraries, rest = [library] ∧ node.isFile = true ∧
      s.compiled.node? (s.source abi library) = some node

-- The way to the directories of a variant does not lead through the architecture's own.
def Apart (s : Site) (abi : Abi) : Prop :=
  ∀ m, Along s.compiled s.jniLibsDir.root (s.jniLibsDir.under [s.variant.text]).names m →
    ¬ s.place abi <+: m

structure Held (s : Site) (done : List Abi) (t : FileTree) : Prop where
  steady : Steady s.compiled t
  sources : ∀ abi library, Fewer (s.source abi library) s.compiled t
  filled : ∀ abi ∈ done, s.Filled t abi
  apart : ∀ abi ∈ done, s.Apart abi

end Site

variable {s : Site} {t u : FileTree} {abi other : Abi} {library : String} {done : List Abi}
  {artifacts : List (String × FilePath)} {p q : Progress} {i : Invocation} {m : Location}

theorem variant_plain (v : Variant) : Plain v.text := by
  cases v <;> decide

theorem abiDir_eq (root : FilePath) (v : Variant) (abi : Abi) :
    abiDir root v abi = root.under ([v.text] ++ [abi.text]) := by
  unfold abiDir
  rw [FilePath.child_plain (variant_plain v), FilePath.child_plain (abi_plain abi), FilePath.under_under]

theorem abiDir_child {root : FilePath} {v : Variant} (plain : Plain library) :
    (abiDir root v abi).child library = root.under ([v.text] ++ [abi.text] ++ [library]) := by
  rw [abiDir_eq, FilePath.child_plain plain, FilePath.under_under]

theorem abiDir_names_plain (v : Variant) (abi : Abi) : ∀ name ∈ [v.text] ++ [abi.text], Plain name := by
  simp [variant_plain, abi_plain]

theorem names_notUp (s : Site) (abi : Abi) : ∀ name ∈ s.names abi, name ≠ ".." :=
  notUp_of_plain (abiDir_names_plain s.variant abi)

theorem names_nameable (s : Site) (abi : Abi) : Nameable (s.names abi) := by
  unfold Site.names
  refine ⟨?_, ?_⟩
  · cases s.variant <;> cases abi <;> decide
  · cases s.variant <;> cases abi <;> decide

theorem place_inside (inside : s.place abi <+: s.place other ++ m) : abi = other := by
  unfold Site.place Site.names at inside
  rw [List.append_assoc, List.prefix_append_right_inj] at inside
  simp only [List.cons_append, List.nil_append, List.cons_prefix_cons, true_and] at inside
  exact text_injective inside.1

-- No library is copied over one that is still to be copied: the directories they lie in have other names.
theorem source_ne_place {taken : String} : s.source other taken ≠ s.place abi ++ [library] := by
  intro same
  have above := congrArg (fun m => m.dropLast.getLast?) same
  have left : (s.source other taken).dropLast = s.target ++ outputNames other s.profile := by
    unfold Site.source
    rw [show libraryNames other s.profile taken = outputNames other s.profile ++ [taken] from rfl,
      ← List.append_assoc, List.dropLast_concat]
  have right : (s.place abi ++ [library]).dropLast = s.jniLibs ++ [s.variant.text] ++ [abi.text] := by
    rw [List.dropLast_concat]
    unfold Site.place Site.names
    rw [List.append_assoc]
  simp only [left, right] at above
  rw [show outputNames other s.profile = [other.text, other.triple] ++ [s.profile.outputDir] from rfl,
    ← List.append_assoc, List.getLast?_concat, List.getLast?_concat] at above
  have named : ∀ (q : Profile) (a : Abi), q.outputDir ≠ a.text := by
    intro q a
    cases q <;> cases a <;> decide
  exact named _ _ (Option.some.inj above)

theorem renew_ways {names : List String} {root : FilePath} {l : Location} (hosts : Hosts t root l)
    (plain : ∀ name ∈ names, name ≠ "..") (nonempty : names ≠ []) :
    ∃ s, (∀ made, Alters (l ++ names) made t s) ∧ (∀ m, Fewer m t s) ∧
      (s = t ∨ t.node? (l ++ names) = some .directory) ∧
      ((∃ fault, renew t (root.under names) = ⟨s, some fault⟩) ∨
        renew t (root.under names) = s.newDirectory (root.under names)) := by
  have unchanged : (∀ made, Alters (l ++ names) made t t) ∧ ∀ m, Fewer m t t :=
    ⟨fun _ => (Changes.refl _ _ t).alters, fun _ _ _ there => there⟩
  unfold renew
  cases asked : t.exists? (root.under names) with
  | error fault => exact ⟨t, unchanged.1, unchanged.2, .inl rfl, .inl ⟨fault, rfl⟩⟩
  | ok there =>
    cases there with
    | false => exact ⟨t, unchanged.1, unchanged.2, .inl rfl, .inr rfl⟩
    | true =>
      simp only [if_true]
      rcases removeDirectory_ways hosts plain nonempty with
        ⟨fault, refused⟩ | ⟨s, fault?, removed, directory, alters, fewer⟩
      · rw [refused]
        exact ⟨t, unchanged.1, unchanged.2, .inl rfl, .inl ⟨fault, rfl⟩⟩
      · rw [removed]
        refine ⟨s, alters, fewer, .inr directory, ?_⟩
        cases fault? with
        | none => exact .inr rfl
        | some fault => exact .inl ⟨fault, rfl⟩

theorem renew_parts {names : List String} {root : FilePath} {l : Location} (wellFormed : t.WellFormed)
    (absolute : root.root ≠ .relative) (hosts : Hosts t root l) (plain : ∀ name ∈ names, name ≠ "..")
    (nonempty : names ≠ []) (fine : (renew t (root.under names)).fault = none) :
    ∃ v, Alters (l ++ names) (Along t root.root (root.under names).names) t v ∧
      Located v root l names ∧ v.node? (l ++ names) = none ∧
      (renew t (root.under names)).tree = v.put (l ++ names) .directory := by
  obtain ⟨s, cleared, _, _, ⟨fault, failed⟩ | same⟩ := renew_ways hosts plain nonempty
  · rw [failed] at fine
    cases fine
  · rw [same] at fine ⊢
    have steady := (cleared nowhere).steady wellFormed
    obtain ⟨v, changes, place, absent, after⟩ := newDirectory_parts steady.wellFormed absolute
      (steady.hosts hosts) plain nonempty fine
    have made := (changes (l ++ names)).mono fun _ => steady.along.mp
    exact ⟨v, (cleared _).trans made.alters, place, absent, after⟩

theorem held_renewed (valid : s.Valid) (held : s.Held done t) (fresh : abi ∉ done)
    (fine : (renew t (s.jniLibsDir.under (s.names abi))).fault = none) :
    s.Held (done ++ [abi]) (renew t (s.jniLibsDir.under (s.names abi))).tree := by
  have plain := names_notUp s abi
  have goal := held.steady.hosts valid.goal
  obtain ⟨v, alters, located, absent, after⟩ :=
    renew_parts held.steady.wellFormed valid.absolute goal plain (by simp [Site.names]) fine
  change Alters (s.place abi) _ t v at alters
  change v.node? (s.place abi) = none at absent
  change (renew t (s.jniLibsDir.under (s.names abi))).tree = v.put (s.place abi) .directory at after
  rw [after]
  have emptied : Steady s.compiled v :=
    held.steady.trans ⟨alters.wellFormed held.steady.wellFormed, alters.here, alters.links⟩
  have made : Changes (s.place abi) everywhere v (v.put (s.place abi) .directory) :=
    changes_made absent located.parent trivial
  have nothing : ∀ rest, v.node? (s.place abi ++ rest) = none := by
    intro rest
    by_cases last : rest = []
    · rwa [last, List.append_nil]
    · exact emptied.wellFormed.missing (fun there => by rw [absent] at there; cases there) last
  have at_ := node?_put (t := v) (m := s.place abi) located.nonempty .directory
  refine ⟨emptied.changes made, fun other library => ?_, ?_, ?_⟩
  · refine (held.sources other library).trans fun content executable there => ?_
    rw [at_] at there
    split at there
    · cases there
    · by_cases below : s.place abi <+: s.source other library
      · obtain ⟨rest, inside⟩ := below
        rw [← inside, nothing rest] at there
        cases there
      · exact alters.fewer below content executable there
  · intro other member rest node some_ there
    have apart : s.place other ++ rest ≠ s.place abi := by
      intro same
      have longer := congrArg List.length same
      have shown := List.length_pos_iff.mpr some_
      simp only [Site.place, Site.names, List.length_append, List.length_singleton] at longer
      omega
    have before : v.node? (s.place other ++ rest) = some node := by
      rwa [at_, if_neg apart] at there
    rcases List.mem_append.mp member with old | new
    · have outside : ¬ s.place abi <+: s.place other ++ rest := fun inside =>
        fresh (place_inside inside ▸ old)
      rcases alters.elsewhere _ outside with same | ⟨along, _, _⟩
      · exact held.filled other old rest node some_ (same ▸ before)
      · rcases along_last goal plain along with above | here
        · exact absurd (List.prefix_append _ _) (held.apart other old _ (held.steady.along.mp above))
        · exact absurd here apart
    · rw [List.mem_singleton.mp new, nothing rest] at before
      cases before
  · intro other member
    rcases List.mem_append.mp member with old | new
    · exact held.apart other old
    · rw [List.mem_singleton.mp new]
      intro m along
      have upward : ∀ name ∈ [s.variant.text], name ≠ ".." := fun name inside =>
        plain name (List.mem_append_left _ inside)
      exact along_apart emptied.wellFormed (emptied.hosts valid.goal) upward located absent
        (emptied.along.mpr along)

theorem library_copied (valid : s.Valid) (steady : Steady s.compiled t) (member : library ∈ s.libraries)
    (ran : t.copy (s.targetDir.under (libraryNames abi s.profile library))
      (s.jniLibsDir.under (s.names abi ++ [library])) = .ok u) : Stands t s.jniLibsDir s.jniLibs ∧
      Changes (s.place abi ++ [library]) nowhere t u ∧
      ∃ content executable, t.node? (s.source abi library) = some (.file content executable) ∧
        u = t.put (s.place abi ++ [library]) (.file content executable) := by
  have plain := notUp_of_plain (libraryNames_plain abi s.profile (valid.plain library member))
  have plain' : ∀ name ∈ s.names abi ++ [library], name ≠ ".." :=
    notUp_append (names_notUp s abi) (by simpa using (valid.plain library member).2.2.1)
  obtain ⟨content, executable, taken, located, notDirectory, rfl⟩ :=
    copy_parts (steady.hosts valid.source) (steady.hosts valid.goal) plain
      (by simp [libraryNames]) plain' (by simp) ran
  have whole : s.jniLibs ++ (s.names abi ++ [library]) = s.place abi ++ [library] :=
    (List.append_assoc _ _ _).symm
  have parent := located.parent
  have noLink := located.noLink (by simp)
  rw [whole] at notDirectory parent noLink ⊢
  refine ⟨located.stands, ?_, content, executable, taken, rfl⟩
  exact changes_put (List.prefix_refl _) (by simp) parent notDirectory noLink (by simp)

theorem held_copied (valid : s.Valid) (held : s.Held done t) (member : library ∈ s.libraries)
    (ran : t.copy (s.targetDir.under (libraryNames abi s.profile library))
      (s.jniLibsDir.under (s.names abi ++ [library])) = .ok u) : s.Held done u := by
  obtain ⟨_, changes, content, executable, taken, rfl⟩ := library_copied valid held.steady member ran
  have nonempty : s.place abi ++ [library] ≠ [] := by simp
  have at_ := node?_put (t := t) nonempty (.file content executable)
  refine ⟨held.steady.changes changes, fun other library' => ?_, ?_, held.apart⟩
  · intro content' executable' there
    rw [at_, if_neg source_ne_place] at there
    exact held.sources other library' content' executable' there
  · intro other inDone rest node some_ there
    rw [at_] at there
    split at there
    · rename_i here
      have same : abi = other := place_inside (m := rest) (by rw [here]; exact List.prefix_append _ _)
      subst same
      cases there
      exact ⟨library, member, List.append_cancel_left here, rfl, held.sources abi library _ _ taken⟩
    · exact held.filled other inDone rest node some_ there

-- A placing under way that has not failed has kept to the site.
def Progress.Keeps (p : Progress) (s : Site) (done : List Abi) : Prop :=
  p.failure = none → s.Held done p.tree

theorem fail_keeps (fault : FileFault) : (p.fail fault).Keeps s done := fun fine => by cases fine

-- The artifacts of an architecture lie where its libraries go.
def Site.Lists (s : Site) (abi : Abi) (artifacts : List (String × FilePath)) : Prop :=
  ∀ library path, library ∈ s.libraries → (library, path) ∈ artifacts →
    path = s.targetDir.under (libraryNames abi s.profile library)

theorem LibraryStep.keeps (step : LibraryStep abi (abiDir s.jniLibsDir s.variant abi) artifacts library p q)
    (valid : s.Valid) (lists : s.Lists abi artifacts) (member : library ∈ s.libraries) (keeps : p.Keeps s done) :
    q.Keeps s done := by
  cases step with
  | stopped _ => exact keeps
  | unread _ _ => exact fail_keeps _
  | absent _ fine _ => exact fun _ => keeps fine
  | uncopied _ _ _ => exact fail_keeps _
  | copied fine found ran =>
    intro _
    rw [lists library _ member (source_parts found).1, abiDir_child (valid.plain library member)] at ran
    simp only [(add_parts _).1]
    exact held_copied valid (keeps fine) member ran

theorem AbiStep.keeps (step : AbiStep i s.libraries s.jniLibsDir abi p q) (valid : s.Valid)
    (variant : i.variant = s.variant) (lists : s.Lists abi (((i.result? abi).map Compilation.artifacts).getD []))
    (fresh : abi ∉ done) (keeps : p.Keeps s done) : q.Keeps s (done ++ [abi]) := by
  cases step with
  | stopped failed => exact fun fine => absurd fine failed
  | obstructed _ _ => exact fail_keeps _
  | filled fine renewed =>
    rw [variant] at renewed ⊢
    refine List.foldlRecOn s.libraries _ (motive := (Progress.Keeps · s (done ++ [abi]))) (fun _ => ?_)
      fun _ before _ member => placeLibrary_step.keeps valid lists member before
    rw [abiDir_eq] at renewed ⊢
    exact held_renewed valid (keeps fine) fresh renewed

-- Architecture by architecture, since each comes up but once.
theorem place_held (valid : s.Valid) (variant : i.variant = s.variant) (checked : i.check = .ok ())
    (lists : ∀ abi ∈ i.architectures, s.Lists abi (((i.result? abi).map Compilation.artifacts).getD []))
    (distinct : i.architectures.Nodup)
    (fine : (place s.compiled i s.libraries s.jniLibsDir).failure = none) :
    s.Held i.architectures (place s.compiled i s.libraries s.jniLibsDir).tree := by
  have start : (Progress.start s.compiled).Keeps s [] := fun _ =>
    ⟨.refl valid.wellFormed, fun _ _ _ _ there => there, by simp, by simp⟩
  unfold place at fine ⊢
  rw [checked] at fine ⊢
  have all : (i.architectures.foldl (placeAbi i s.libraries s.jniLibsDir) (.start s.compiled)).Keeps s
      i.architectures := by
    refine foldl_done (motive := fun done p => Progress.Keeps p s done) start
      fun done abi rest p split_ keeps => ?_
    have fresh := fresh_of_nodup (split_ ▸ distinct)
    exact placeAbi_step.keeps valid variant (lists abi (by simp [← split_])) fresh keeps
  exact all fine

end AbiBuild.Placement
