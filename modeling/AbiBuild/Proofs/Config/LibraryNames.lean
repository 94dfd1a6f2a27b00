import AbiBuild.Config.Resolve
import AbiBuild.Proofs.Failing
import AbiBuild.Proofs.Files.Paths
import Mathlib.Data.List.Nodup

namespace AbiBuild.Config
open AbiBuild.Text

structure IsLibrary (s : String) : Prop where
  suffix : librarySuffix <:+ s.toList
  more : s ≠ ".so"
  noSlash : '/' ∉ s.toList
  noBackslash : backslash ∉ s.toList

structure Admitted (names : List String) : Prop where
  libraries : ∀ s ∈ names, IsLibrary s
  distinct : names.Nodup

structure Declares (declared : List Value) (names : List String) : Prop where
  texts : declared = names.map Value.text
  nonempty : names ≠ []
  admitted : Admitted names

-- What ends the reading of a declaration cannot be written: it holds an integer of too many digits.
def Unwritten (declared : List Value) : Prop :=
  ∃ names v after, declared = names.map Value.text ++ v :: after ∧ Admitted names ∧ v.isWritable = false

variable {s : String} {v : Value} {before names : List String} {declared : List Value} {fault : Fault}

theorem isLibraryName_iff : isLibraryName s = true ↔ IsLibrary s := by
  have same : s.toList = librarySuffix ↔ s = ".so" := String.toList_inj
  have marked : s.toList.any isPathMark = true ↔ '/' ∈ s.toList ∨ backslash ∈ s.toList := by
    simp only [List.any_eq_true, isPathMark, Bool.or_eq_true, decide_eq_true_eq]
    constructor
    · rintro ⟨c, inside, rfl | rfl⟩
      · exact .inl inside
      · exact .inr inside
    · rintro (inside | inside)
      · exact ⟨_, inside, .inl rfl⟩
      · exact ⟨_, inside, .inr rfl⟩
  unfold isLibraryName
  rw [Bool.and_eq_true, Bool.and_eq_true, Bool.not_eq_true', ← Bool.not_eq_true, marked, decide_eq_true_eq,
    List.isSuffixOf_iff_suffix, ne_eq, same]
  constructor
  · rintro ⟨⟨suffix, unmarked⟩, more⟩
    exact ⟨suffix, more, fun slash => unmarked (.inl slash), fun mark => unmarked (.inr mark)⟩
  · intro library
    exact ⟨⟨library.suffix, fun mark => mark.elim library.noSlash library.noBackslash⟩, library.more⟩

instance (s : String) : Decidable (IsLibrary s) := decidable_of_iff _ isLibraryName_iff

theorem IsLibrary.plain (library : IsLibrary s) : Plain s := by
  have suffix := library.suffix
  refine ⟨?_, ?_, ?_, library.noSlash⟩
  · rintro rfl
    exact absurd suffix (by decide)
  · rintro rfl
    exact absurd suffix (by decide)
  · rintro rfl
    exact absurd suffix (by decide)

theorem IsLibrary.unmarked (library : IsLibrary s) : s ≠ markerName := by
  rintro rfl
  exact absurd library.suffix (by decide)

theorem Admitted.nil : Admitted [] := ⟨by simp, List.nodup_nil⟩

theorem Admitted.left (admitted : Admitted (before ++ names)) : Admitted before :=
  ⟨fun s member => admitted.libraries s (List.mem_append_left _ member), (List.nodup_append.mp admitted.distinct).1⟩

theorem admitted_concat : Admitted (before ++ [s]) ↔ Admitted before ∧ IsLibrary s ∧ s ∉ before := by
  constructor
  · intro admitted
    have apart := (List.nodup_append.mp admitted.distinct).2.2
    exact ⟨admitted.left, admitted.libraries s (by simp), fun member => apart s member s (by simp) rfl⟩
  · rintro ⟨admitted, library, fresh⟩
    refine ⟨fun r member => ?_, ?_⟩
    · rcases List.mem_append.mp member with old | last
      · exact admitted.libraries r old
      · rwa [List.mem_singleton.mp last]
    · rw [← List.concat_eq_append]
      exact admitted.distinct.concat fresh

theorem libraryName_ok_iff : libraryName before v = .ok s ↔ v = .text s ∧ IsLibrary s ∧ s ∉ before := by
  constructor
  · intro ran
    unfold libraryName at ran
    split at ran
    · split at ran
      · cases ran
      · rename_i suffix
        split at ran
        · cases ran
        · rename_i plain
          split at ran
          · cases ran
          · rename_i fresh
            cases ran
            refine ⟨rfl, isLibraryName_iff.mp ?_, fresh⟩
            simp only [isLibraryName]
            simp_all
    · cases ran
  · rintro ⟨rfl, library, fresh⟩
    have named := isLibraryName_iff.mpr library
    simp only [isLibraryName, Bool.and_eq_true, Bool.not_eq_true', decide_eq_true_eq] at named
    obtain ⟨⟨suffix, unmarked⟩, more⟩ := named
    simp only [libraryName, suffix, unmarked, more, fresh]
    rfl

theorem libraryName_unwritten (unwritten : v.isWritable = false) :
    libraryName before v = .error (.notLibraryName v) := by
  cases v with
  | text s => cases unwritten
  | _ => rfl

theorem libraryName_reported (failed : libraryName before v = .error fault) (written : v.isWritable = true) :
    libraryFailure fault = .config fault := by
  have shown : libraryFailure (.notLibraryName v) = .config (.notLibraryName v) := if_pos written
  unfold libraryName at failed
  split at failed
  · split at failed
    · cases failed
      exact shown
    · split at failed
      · cases failed
        rfl
      · split at failed
        · cases failed
          rfl
        · cases failed
  · cases failed
    exact shown

theorem libraryNamesFrom_admitted (admitted : Admitted (before ++ names)) (after : List Value) :
    libraryNamesFrom before (names.map Value.text ++ after) = libraryNamesFrom (before ++ names) after := by
  -- Induction on the names that are admitted.
  induction names generalizing before with
  | nil => simp
  | cons s rest ih =>
    rw [List.append_cons] at admitted ⊢
    obtain ⟨_, library, fresh⟩ := admitted_concat.mp admitted.left
    have first : libraryName before (.text s) = .ok s := libraryName_ok_iff.mpr ⟨rfl, library, fresh⟩
    rw [← ih admitted, List.map_cons, List.cons_append, libraryNamesFrom, first]
    rfl

theorem libraryNamesFrom_ends (admitted : Admitted before) (declared : List Value) :
    ∃ names, Admitted (before ++ names) ∧ (declared = names.map Value.text ∨ ∃ v after fault,
      declared = names.map Value.text ++ v :: after ∧ libraryName (before ++ names) v = .error fault) := by
  -- Induction on what is declared: the names are admitted up to the first value that does not do, or up to the end.
  induction declared generalizing before with
  | nil => exact ⟨[], by simpa using admitted, .inl rfl⟩
  | cons v after ih =>
    cases first : libraryName before v with
    | error fault => exact ⟨[], by simpa using admitted, .inr ⟨v, after, fault, rfl, by simpa using first⟩⟩
    | ok s =>
      obtain ⟨rfl, library, fresh⟩ := libraryName_ok_iff.mp first
      obtain ⟨names, more, ends⟩ := ih (admitted_concat.mpr ⟨admitted, library, fresh⟩)
      refine ⟨s :: names, by simpa using more, ?_⟩
      rcases ends with rfl | ⟨w, rest, fault, rfl, failed⟩
      · exact .inl rfl
      · exact .inr ⟨w, rest, fault, rfl, by simpa using failed⟩

theorem libraryNames_ok_iff : libraryNames declared = .ok names ↔ Declares declared names := by
  constructor
  · intro ran
    unfold libraryNames at ran
    split at ran
    · cases ran
    · rename_i some_
      obtain ⟨own, admitted, rfl | ⟨v, after, fault, rfl, failed⟩⟩ := libraryNamesFrom_ends .nil declared
      · have read := libraryNamesFrom_admitted admitted []
        rw [List.append_nil, ran] at read
        cases read
        exact ⟨rfl, by simpa using some_, admitted⟩
      · rw [libraryNamesFrom_admitted admitted, libraryNamesFrom, failed] at ran
        cases ran
  · rintro ⟨rfl, nonempty, admitted⟩
    have read := @libraryNamesFrom_admitted [] names admitted []
    rw [List.append_nil] at read
    unfold libraryNames
    rw [if_neg (by simpa using nonempty), read]
    rfl

theorem libraryNames_reported (undeclared : ∀ names, ¬ Declares declared names) (written : ¬ Unwritten declared) :
    ∃ fault, (libraryNames declared).mapError libraryFailure = .error (.config fault) := by
  unfold libraryNames
  split
  · exact ⟨_, rfl⟩
  · rename_i some_
    obtain ⟨own, admitted, rfl | ⟨v, after, fault, rfl, failed⟩⟩ := libraryNamesFrom_ends .nil declared
    · exact absurd ⟨rfl, by simpa using some_, admitted⟩ (undeclared own)
    · have shown : v.isWritable = true := by
        by_contra unwritten
        exact written ⟨own, v, after, rfl, admitted, by simpa using unwritten⟩
      refine ⟨fault, ?_⟩
      rw [libraryNamesFrom_admitted admitted, libraryNamesFrom, failed]
      exact congrArg Except.error (libraryName_reported failed shown)

theorem libraryNames_unwritten (unwritten : Unwritten declared) :
    (libraryNames declared).mapError libraryFailure = .error (.mishap (.value .longInteger)) := by
  obtain ⟨names, v, after, rfl, admitted, long⟩ := unwritten
  have nonempty : (names.map Value.text ++ v :: after).isEmpty = false := by cases names <;> rfl
  unfold libraryNames
  rw [nonempty, @libraryNamesFrom_admitted [] names admitted, libraryNamesFrom, libraryName_unwritten long]
  exact congrArg Except.error (if_neg (by simp [long]))

end AbiBuild.Config
