import AbiBuild.Proofs.Files.Filling
import AbiBuild.Proofs.Placement.Findings

namespace AbiBuild.Placement
open AbiBuild.Text FileTree Build

namespace Site

-- Nothing that is needed still lies in a directory that is made anew. Only the directory itself, which is there
-- again afterwards, may be on the way to the libraries.
structure Disjoint (s : Site) (abis : List Abi) : Prop where
  clear : Clear s.compiled []
  outputs : ∀ abi ∈ abis, ∀ other ∈ abis, ¬ s.place abi <+: s.target ++ outputNames other s.profile
  way : ∀ abi ∈ abis, ∀ m, Along s.compiled s.targetDir.root s.targetDir.names m → s.place abi <+: m →
    m = s.place abi

def Compiled (s : Site) (abi : Abi) (library : String) : Prop :=
  ∃ content executable, s.compiled.node? (s.source abi library) = some (.file content executable)

-- Of the libraries of an architecture, those that were compiled are among its artifacts.
def Offers (s : Site) (abi : Abi) (artifacts : List (String × FilePath)) : Prop :=
  ∀ library ∈ s.libraries, s.Compiled abi library →
    artifacts.lookup library = some (s.targetDir.under (libraryNames abi s.profile library)) ∧ Nameable [library]

def pairs (s : Site) (abis : List Abi) : List (Abi × String) :=
  abis.flatMap fun abi => s.libraries.map fun library => (abi, library)

-- The libraries are all where they were compiled, and those that were dealt with are in their places, too.
structure Brings (s : Site) (abis : List Abi) (had : List (Abi × String)) (t : FileTree) : Prop where
  steady : Steady s.compiled t
  stands : Stands t s.targetDir s.target
  sources : ∀ abi ∈ abis, ∀ library content executable,
    s.compiled.node? (s.source abi library) = some (.file content executable) →
      t.node? (s.source abi library) = some (.file content executable)
  brought : ∀ pair ∈ had, s.Compiled pair.1 pair.2 → Stands t s.jniLibsDir s.jniLibs ∧
    ∃ content executable, t.node? (s.place pair.1 ++ [pair.2]) = some (.file content executable)

end Site

-- A placing under way that has not failed has brought what it has dealt with.
def Progress.Brings (p : Progress) (s : Site) (abis : List Abi) (had : List (Abi × String)) : Prop :=
  p.failure = none → s.Brings abis had p.tree

variable {s : Site} {t u : FileTree} {root : FilePath} {l m : Location} {names : List String} {abi : Abi}
  {library : String} {abis done : List Abi} {had : List (Abi × String)} {p q : Progress} {i : Invocation}
  {artifacts : List (String × FilePath)} {node : Node} {finding : Finding}

section Renewal

variable (wellFormed : t.WellFormed) (absolute : root.root ≠ .relative) (hosts : Hosts t root l)
  (plain : ∀ name ∈ names, name ≠ "..") (nonempty : names ≠ []) (fine : (renew t (root.under names)).fault = none)

include wellFormed absolute hosts plain nonempty fine

theorem renew_kept (outside : ¬ l ++ names <+: m) (there : t.node? m = some node) :
    (renew t (root.under names)).tree.node? m = some node := by
  obtain ⟨v, alters, located, _, after⟩ := renew_parts wellFormed absolute hosts plain nonempty fine
  have apart : m ≠ l ++ names := fun same => outside (same ▸ List.prefix_refl _)
  rw [after, node?_put_of_ne _ apart]
  rcases alters.elsewhere m outside with same | ⟨_, absent, _⟩
  · rw [same, there]
  · rw [there] at absent
    cases absent

theorem renew_made : (renew t (root.under names)).tree.node? (l ++ names) = some .directory := by
  obtain ⟨v, _, located, _, after⟩ := renew_parts wellFormed absolute hosts plain nonempty fine
  rw [after, node?_put_self _ located.nonempty]

theorem renew_stands : Stands (renew t (root.under names)).tree root l := by
  obtain ⟨v, _, located, absent, after⟩ := renew_parts wellFormed absolute hosts plain nonempty fine
  have changes : Changes [] everywhere v (v.put (l ++ names) .directory) :=
    changes_made absent located.parent trivial
  rw [after]
  exact changes.stands located.stands

theorem renew_free (content : Bytes) (executable : Bool) :
    t.node? (l ++ names) ≠ some (.file content executable) := by
  intro there
  obtain ⟨s, _, _, rfl | directory, way⟩ := renew_ways hosts plain nonempty
  · rcases way with ⟨fault, failed⟩ | same
    · rw [failed] at fine
      cases fine
    rw [same] at fine
    obtain ⟨v, changes, _, absent, _⟩ := newDirectory_parts wellFormed absolute hosts plain nonempty fine
    have outside : ¬ l ++ names ++ [""] <+: l ++ names := by
      intro inside
      have longer := inside.length_le
      simp only [List.length_append, List.length_singleton] at longer
      omega
    rw [((changes _).file outside).mpr there] at absent
    cases absent
  · rw [directory] at there
    cases there

end Renewal

theorem brings_renewed (valid : s.Valid) (disjoint : s.Disjoint abis) (brings : s.Brings abis had t)
    (member : abi ∈ abis) (fresh : ∀ pair ∈ had, pair.1 ≠ abi)
    (fine : (renew t (s.jniLibsDir.under (s.names abi))).fault = none) :
    s.Brings abis had (renew t (s.jniLibsDir.under (s.names abi))).tree := by
  have wellFormed := brings.steady.wellFormed
  have goal := brings.steady.hosts valid.goal
  have plain := names_notUp s abi
  have some_ : s.names abi ≠ [] := by simp [Site.names]
  have steady := (renew_alters wellFormed valid.absolute goal plain some_).steady wellFormed
  have kept : ∀ m node, ¬ s.place abi <+: m → t.node? m = some node →
      (renew t (s.jniLibsDir.under (s.names abi))).tree.node? m = some node :=
    fun m node => renew_kept wellFormed valid.absolute goal plain some_ fine
  refine ⟨brings.steady.trans steady, ?_, ?_, ?_⟩
  · refine brings.stands.kept (disjoint.clear.congr brings.steady.links) steady.here fun k along => ?_
    by_cases inside : s.place abi <+: k
    · rw [disjoint.way abi member k (brings.steady.along.mp along) inside]
      exact renew_made wellFormed valid.absolute goal plain some_ fine
    · exact kept k _ inside (brings.stands.way along)
  · intro other among library content executable compiled
    have there := brings.sources other among library content executable compiled
    refine kept _ _ (fun inside => ?_) there
    have whole : s.source other library = s.target ++ outputNames other s.profile ++ [library] := by
      simp [Site.source, libraryNames, outputNames]
    rw [whole] at inside
    rcases List.prefix_concat_iff.mp inside with same | above
    · refine renew_free wellFormed valid.absolute goal plain some_ fine content executable ?_
      show t.node? (s.place abi) = _
      rw [same, ← whole, there]
    · exact disjoint.outputs abi member other among above
  · intro pair inHad compiled
    obtain ⟨_, content, executable, there⟩ := brings.brought pair inHad compiled
    exact ⟨renew_stands wellFormed valid.absolute goal plain some_ fine, content, executable,
      kept _ _ (fun inside => fresh pair inHad (place_inside inside).symm) there⟩

theorem brings_copied (valid : s.Valid) (brings : s.Brings abis had t) (member : library ∈ s.libraries)
    (ran : t.copy (s.targetDir.under (libraryNames abi s.profile library))
      (s.jniLibsDir.under (s.names abi ++ [library])) = .ok u) : s.Brings abis (had ++ [(abi, library)]) u := by
  obtain ⟨stands, changes, content, executable, _, rfl⟩ := library_copied valid brings.steady member ran
  have nonempty : s.place abi ++ [library] ≠ [] := by simp
  have at_ := node?_put (t := t) nonempty (.file content executable)
  refine ⟨brings.steady.changes changes, changes.stands brings.stands, ?_, fun pair inHad compiled => ?_⟩
  · intro other among library' content' executable' compiled
    rw [at_, if_neg source_ne_place]
    exact brings.sources other among library' content' executable' compiled
  · refine ⟨changes.stands stands, ?_⟩
    rw [at_]
    split
    · exact ⟨content, executable, rfl⟩
    · rename_i elsewhere
      rcases List.mem_append.mp inHad with before | own
      · exact (brings.brought pair before compiled).2
      · rw [List.mem_singleton.mp own] at elsewhere
        exact absurd rfl elsewhere

-- What was compiled is found again when its turn comes.
theorem source_found (valid : s.Valid) (brings : s.Brings abis had t) (among : abi ∈ abis)
    (member : library ∈ s.libraries) (offers : s.Offers abi artifacts) (compiled : s.Compiled abi library) :
    source t artifacts library = .ok (some (s.targetDir.under (libraryNames abi s.profile library))) := by
  obtain ⟨listed, fits⟩ := offers library member compiled
  obtain ⟨content, executable, there⟩ := compiled
  have file := isFile_there brings.stands ((brings.steady.hosts valid.source).stands brings.stands).2
    brings.steady.wellFormed (notUp_of_plain (libraryNames_plain abi s.profile (valid.plain library member)))
    (by simp [libraryNames]) (libraryNames_nameable abi s.profile fits)
    (brings.sources abi among library content executable there)
  unfold source
  simp only [listed, file, Except.map, if_true]

theorem Site.Brings.skip (brings : s.Brings abis had t) (not_ : ¬ s.Compiled abi library) :
    s.Brings abis (had ++ [(abi, library)]) t := by
  refine ⟨brings.steady, brings.stands, brings.sources, fun pair inHad compiled => ?_⟩
  rcases List.mem_append.mp inHad with before | own
  · exact brings.brought pair before compiled
  · rw [List.mem_singleton.mp own] at compiled
    exact absurd compiled not_

theorem LibraryStep.brings (step : LibraryStep abi (abiDir s.jniLibsDir s.variant abi) artifacts library p q)
    (valid : s.Valid) (lists : s.Lists abi artifacts) (offers : s.Offers abi artifacts) (among : abi ∈ abis)
    (member : library ∈ s.libraries) (brings : p.Brings s abis had) : q.Brings s abis (had ++ [(abi, library)]) := by
  intro ended
  cases step with
  | stopped failed => exact absurd ended failed
  | unread _ _ => cases ended
  | absent _ fine found =>
    refine (brings fine).skip fun compiled => ?_
    rw [source_found valid (brings fine) among member offers compiled] at found
    cases found
  | uncopied _ _ _ => cases ended
  | copied fine found ran =>
    rw [lists library _ member (source_parts found).1, abiDir_child (valid.plain library member)] at ran
    simp only [(add_parts _).1]
    exact brings_copied valid (brings fine) member ran

theorem placeLibraries_brings (valid : s.Valid) (lists : s.Lists abi artifacts) (offers : s.Offers abi artifacts)
    (among : abi ∈ abis) (brings : p.Brings s abis had) :
    (s.libraries.foldl (placeLibrary abi (abiDir s.jniLibsDir s.variant abi) artifacts) p).Brings s abis
      (had ++ s.libraries.map fun library => (abi, library)) := by
  refine foldl_done (motive := fun done p => Progress.Brings p s abis (had ++ done.map fun library => (abi, library)))
    (by simpa using brings) fun done library rest p split_ before => ?_
  rw [List.map_append, ← List.append_assoc]
  exact placeLibrary_step.brings valid lists offers among (by simp [← split_]) before

theorem AbiStep.brings (step : AbiStep i s.libraries s.jniLibsDir abi p q) (valid : s.Valid)
    (disjoint : s.Disjoint abis) (variant : i.variant = s.variant)
    (lists : s.Lists abi (((i.result? abi).map Compilation.artifacts).getD []))
    (offers : s.Offers abi (((i.result? abi).map Compilation.artifacts).getD []))
    (among : abi ∈ abis) (fresh : abi ∉ done) (brings : p.Brings s abis (s.pairs done)) :
    q.Brings s abis (s.pairs (done ++ [abi])) := by
  have all : s.pairs (done ++ [abi]) = s.pairs done ++ s.libraries.map fun library => (abi, library) := by
    simp [Site.pairs]
  have others : ∀ pair ∈ s.pairs done, pair.1 ≠ abi := by
    rintro pair inDone rfl
    obtain ⟨other, earlier, inside⟩ := List.mem_flatMap.mp inDone
    obtain ⟨_, _, rfl⟩ := List.mem_map.mp inside
    exact fresh earlier
  cases step with
  | stopped failed => exact fun fine => absurd fine failed
  | obstructed _ _ => exact fun fine => by cases fine
  | filled fine renewed =>
    rw [variant] at renewed ⊢
    rw [all]
    refine placeLibraries_brings valid lists offers among fun _ => ?_
    rw [abiDir_eq] at renewed ⊢
    exact brings_renewed valid disjoint (brings fine) among others renewed

theorem place_brings (valid : s.Valid) (disjoint : s.Disjoint i.architectures)
    (stands : Stands s.compiled s.targetDir s.target) (variant : i.variant = s.variant)
    (checked : i.check = .ok ())
    (lists : ∀ abi ∈ i.architectures, s.Lists abi (((i.result? abi).map Compilation.artifacts).getD []))
    (offers : ∀ abi ∈ i.architectures, s.Offers abi (((i.result? abi).map Compilation.artifacts).getD []))
    (distinct : i.architectures.Nodup)
    (fine : (place s.compiled i s.libraries s.jniLibsDir).failure = none) :
    s.Brings i.architectures (s.pairs i.architectures) (place s.compiled i s.libraries s.jniLibsDir).tree := by
  have start : (Progress.start s.compiled).Brings s i.architectures (s.pairs []) := fun _ =>
    ⟨.refl valid.wellFormed, stands, fun _ _ _ _ _ there => there, by simp [Site.pairs]⟩
  unfold place at fine ⊢
  rw [checked] at fine ⊢
  have all : (i.architectures.foldl (placeAbi i s.libraries s.jniLibsDir) (.start s.compiled)).Brings s
      i.architectures (s.pairs i.architectures) := by
    refine foldl_done (motive := fun done p => Progress.Brings p s i.architectures (s.pairs done)) start
      fun done abi rest p split_ before => ?_
    have among : abi ∈ i.architectures := by simp [← split_]
    have fresh := fresh_of_nodup (split_ ▸ distinct)
    exact placeAbi_step.brings valid disjoint variant (lists abi among) (offers abi among) among fresh before
  exact all fine

theorem placed_found (valid : s.Valid) (held : s.Held abis t) (brings : s.Brings abis (s.pairs abis) t)
    (offers : s.Offers abi artifacts) (among : abi ∈ abis) (member : library ∈ s.libraries)
    (ran : inspect t ((abiDir s.jniLibsDir s.variant abi).child library) abi = .ok finding) :
    finding = .of abi (s.compiled.node? (s.source abi library)) := by
  have goal := held.steady.hosts valid.goal
  have plain : ∀ name ∈ s.names abi ++ [library], name ≠ ".." :=
    notUp_append (names_notUp s abi) (by simpa using (valid.plain library member).2.2.1)
  have whole : s.jniLibs ++ (s.names abi ++ [library]) = s.place abi ++ [library] :=
    (List.append_assoc _ _ _).symm
  have listed : (abi, library) ∈ s.pairs abis :=
    List.mem_flatMap.mpr ⟨abi, among, List.mem_map_of_mem member⟩
  have own : ∀ node, t.node? (s.place abi ++ [library]) = some node →
      node.isFile = true ∧ s.compiled.node? (s.source abi library) = some node := by
    intro node there
    obtain ⟨library', _, only, file, compiled⟩ := held.filled abi among [library] node (by simp) there
    cases only
    exact ⟨file, compiled⟩
  rw [abiDir_child (valid.plain library member)] at ran
  have found := inspect_found held.steady.wellFormed goal plain (by simp) (fun content executable there => ?_) ran
  · rw [found]
    rw [whole]
    cases there : t.node? (s.place abi ++ [library]) with
    | some node => rw [(own node there).2]
    | none =>
      cases compiled : s.compiled.node? (s.source abi library) with
      | none => rfl
      | some node =>
        cases node with
        | directory => rfl
        | link target => rfl
        | file content executable =>
          obtain ⟨_, _, _, present⟩ := brings.brought _ listed ⟨content, executable, compiled⟩
          rw [there] at present
          cases present
  · rw [whole] at there
    have compiled : s.Compiled abi library := ⟨content, executable, (own _ there).2⟩
    have fits := (offers library member compiled).2
    exact ⟨(brings.brought _ listed compiled).1, nameable_append (names_nameable s abi) fits⟩

end AbiBuild.Placement
