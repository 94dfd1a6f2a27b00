import AbiBuild.Proofs.Build.Invocations
import AbiBuild.Proofs.Config.Overrides
import AbiBuild.Proofs.Placement.Placing
import Mathlib.Data.Set.Function

namespace AbiBuild

def Config.packagePath (c : Config) (v : Variant) (abi : Abi) (library : String) : FilePath :=
  (Placement.abiDir c.jniLibsDir v abi).child library

namespace Build
open Config (libraryFailure Declares Unwritten)

-- The path is an entry of the directory, which lies below the root, and is no architecture's marker.
structure Entered (c : Config) (root dir path : FilePath) (library : String) : Prop where
  below : ∃ names, names ≠ [] ∧ (∀ name ∈ names, Plain name) ∧ dir = root.under names
  plain : Plain library
  entry : path = dir.under [library]
  parent : path.parent = dir
  unmarked : ∀ abi, path ≠ c.marker abi

structure KeptApart (c : Config) : Prop where
  compiled : Set.InjOn (fun x : Abi × Profile × String => c.libraryPath x.1 x.2.1 x.2.2) {x | x.2.2 ∈ c.libraries}
  packaged : Set.InjOn (fun x : Variant × Abi × String => c.packagePath x.1 x.2.1 x.2.2) {x | x.2.2 ∈ c.libraries}
  entered : ∀ library ∈ c.libraries, ∀ abi,
    (∀ p, Entered c c.targetDir (c.outputDir abi p) (c.libraryPath abi p library) library) ∧
    ∀ v, Entered c c.jniLibsDir (Placement.abiDir c.jniLibsDir v abi) (c.packagePath v abi library) library

variable {c : Config} {root dir : FilePath} {library : String} {abi : Abi} {v : Variant} {p : Profile}

theorem under_parent (dir : FilePath) (library : String) : (dir.under [library]).parent = dir := by
  rw [show [library] = [] ++ [library] from rfl, FilePath.parent_under, FilePath.under_nil]

theorem under_unmarked (other : library ≠ Config.markerName) (abi : Abi) : dir.under [library] ≠ c.marker abi := by
  intro same
  have last := congrArg (fun path => path.names.getLast?) same
  unfold Config.marker at last
  rw [FilePath.child_plain markerName_plain] at last
  simp only [FilePath.under, List.getLast?_concat] at last
  exact other (Option.some.inj last)

theorem entered_child (plain : Plain library) (other : library ≠ Config.markerName)
    (below : ∃ names, names ≠ [] ∧ (∀ name ∈ names, Plain name) ∧ dir = root.under names) :
    Entered c root dir (dir.child library) library := by
  rw [FilePath.child_plain plain]
  exact ⟨below, plain, rfl, under_parent dir library, under_unmarked other⟩

theorem compiled_apart (accepted : Accepted c) :
    Set.InjOn (fun x : Abi × Profile × String => c.libraryPath x.1 x.2.1 x.2.2) {x | x.2.2 ∈ c.libraries} := by
  rintro ⟨abi, p, library⟩ member ⟨other, q, another⟩ member' same
  simp only [config_libraryPath accepted member, config_libraryPath accepted member'] at same
  have names := FilePath.under_inj same
  simp only [libraryNames, List.cons.injEq, and_true] at names
  obtain ⟨abis, _, profiles, rfl⟩ := names
  rw [text_injective abis, outputDir_injective profiles]

theorem packaged_apart (accepted : Accepted c) :
    Set.InjOn (fun x : Variant × Abi × String => c.packagePath x.1 x.2.1 x.2.2) {x | x.2.2 ∈ c.libraries} := by
  rintro ⟨v, abi, library⟩ member ⟨w, other, another⟩ member' same
  simp only [Config.packagePath, Placement.abiDir_child (accepted.plain library member),
    Placement.abiDir_child (accepted.plain another member')] at same
  have names := FilePath.under_inj same
  simp only [List.cons_append, List.nil_append, List.cons.injEq, and_true] at names
  obtain ⟨variants, abis, rfl⟩ := names
  rw [Variant.text_injective variants, text_injective abis]

theorem resolve_keptApart {t : FileTree} {base : Option FilePath} {data : Config.Entries}
    (ran : Config.resolve t base data = .ok c) : KeptApart c := by
  have accepted := Config.resolve_accepted ran
  refine ⟨compiled_apart accepted, packaged_apart accepted, fun library member abi => ?_⟩
  have plain := accepted.plain library member
  have other := Config.resolve_unmarked ran library member
  refine ⟨fun p => entered_child plain other ⟨_, ?_, outputNames_plain abi p, config_outputDir c abi p⟩,
    fun v => entered_child plain other ⟨_, ?_, Placement.abiDir_names_plain v abi, Placement.abiDir_eq _ v abi⟩⟩
  · simp [outputNames]
  · simp

-- A declaration is told apart from all other lists, which are reported as far as they can be written, and what is
-- declared in an accepted configuration is kept apart.
theorem libraries_kept_apart (declared : List Value) :
    (∀ names, (Config.libraryNames declared).mapError libraryFailure = .ok names ↔ Declares declared names) ∧
    ((∀ names, ¬ Declares declared names) → ¬ Unwritten declared →
      ∃ fault, (Config.libraryNames declared).mapError libraryFailure = .error (.config fault)) ∧
    (Unwritten declared →
      (Config.libraryNames declared).mapError libraryFailure = .error (.mishap (.value .longInteger))) ∧
    ∀ t base data c, Config.resolve t base data = .ok c → KeptApart c := by
  refine ⟨fun names => ?_, Config.libraryNames_reported, Config.libraryNames_unwritten,
    fun _ _ _ _ => resolve_keptApart⟩
  rw [← Config.libraryNames_ok_iff]
  exact ⟨mapError_ok, fun ran => by rw [ran]; rfl⟩

theorem long_unwritten {n : Nat} (long : Nat.pow 10 Numeral.digitLimit ≤ n) : Unwritten [.int n] := by
  refine ⟨[], .int n, [], rfl, .nil, ?_⟩
  rw [Value.isWritable]
  exact decide_eq_false (Nat.not_lt.mpr long)

theorem int_undeclared {n : Int} {names : List String} : ¬ Declares [.int n] names := by
  intro declares
  have texts := declares.texts
  cases names <;> cases texts

-- An integer that is too long breaks the reading off.
theorem long_library_unreported : ¬ ∀ declared, (∀ names, ¬ Declares declared names) →
    ∃ fault, (Config.libraryNames declared).mapError libraryFailure = .error (.config fault) := by
  intro reported
  obtain ⟨fault, refused⟩ := reported [.int (Nat.pow 10 Numeral.digitLimit : Nat)] fun _ => int_undeclared
  rw [Config.libraryNames_unwritten (long_unwritten (Nat.le_refl _))] at refused
  cases refused

theorem escaping_name_reported :
    (∃ fault, (Config.libraryNames [.text "liba.so", .text "../b.so"]).mapError libraryFailure =
      .error (.config fault)) ∧
    (Config.libraryNames [.int (Nat.pow 10 Numeral.digitLimit : Nat)]).mapError libraryFailure =
      .error (.mishap (.value .longInteger)) ∧
    KeptApart Sample.config := by
  refine ⟨(libraries_kept_apart _).2.1 (fun names declares => ?_) ?_,
    (libraries_kept_apart _).2.2.1 (long_unwritten (Nat.le_refl _)),
    (libraries_kept_apart []).2.2.2 _ _ _ _ Sample.resolved⟩
  · have out : "../b.so" ∈ names := by
      have inside : Value.text "../b.so" ∈ names.map Value.text := by simp [← declares.texts]
      simpa using inside
    exact absurd (declares.admitted.libraries _ out) (by decide +kernel)
  · rintro ⟨names, v, after, texts, _, unwritten⟩
    have inside : v ∈ [Value.text "liba.so", .text "../b.so"] := by simp [texts]
    simp only [List.mem_cons, List.not_mem_nil, or_false] at inside
    rcases inside with rfl | rfl <;> cases unwritten

end Build

end AbiBuild
