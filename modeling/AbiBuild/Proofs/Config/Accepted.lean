import AbiBuild.Proofs.Config.LibraryNames
import AbiBuild.Proofs.Files.Texts

namespace AbiBuild

structure Accepted (c : Config) : Prop where
  plain : ∀ library ∈ c.libraries, Plain library
  nonempty : c.libraries ≠ []
  distinct : c.architectures.Nodup
  target : c.targetDir.root ≠ .relative
  jniLibs : c.jniLibsDir.root ≠ .relative

namespace Abi

theorem distinct_nodup {found declared : List Abi} (nodup : found.Nodup) :
    (distinct found declared).Nodup := by
  induction declared generalizing found with
  | nil => exact nodup
  | cons a rest ih =>
    unfold distinct
    apply ih
    split
    · exact nodup
    · rename_i fresh
      refine List.nodup_append.mpr ⟨nodup, List.nodup_singleton a, ?_⟩
      rintro b present c last rfl
      rw [List.mem_singleton] at last
      subst last
      exact fresh (by simpa using present)

theorem resolve_parts {declared : List Value} {list : List Abi} (ran : resolve declared = .ok list) :
    declared ≠ [] ∧ ∃ abis, declared.mapM parse = .ok abis ∧ list = distinct [] abis := by
  unfold resolve at ran
  split at ran
  · cases ran
  · rename_i some_
    refine ⟨by simpa using some_, ?_⟩
    cases parsed : declared.mapM parse with
    | error fault => simp [parsed, Except.map] at ran
    | ok abis =>
      simp only [parsed, Except.map] at ran
      cases ran
      exact ⟨abis, rfl, rfl⟩

theorem resolve_nodup {declared : List Value} {list : List Abi} (ran : resolve declared = .ok list) :
    list.Nodup := by
  obtain ⟨_, _, _, rfl⟩ := resolve_parts ran
  exact distinct_nodup List.nodup_nil

theorem mem_distinct {a : Abi} {found declared : List Abi} (member : a ∈ found ∨ a ∈ declared) :
    a ∈ distinct found declared := by
  induction declared generalizing found with
  | nil => simpa [distinct] using member
  | cons first rest ih =>
    unfold distinct
    apply ih
    rcases member with old | new
    · left
      split
      · exact old
      · exact List.mem_append_left _ old
    · rcases List.mem_cons.mp new with rfl | later
      · left
        split
        · rename_i there
          simpa using there
        · simp
      · exact .inr later

theorem resolve_nonempty {declared : List Value} {list : List Abi} (ran : resolve declared = .ok list) : list ≠ [] := by
  obtain ⟨some_, abis, parsed, rfl⟩ := resolve_parts ran
  cases declared with
  | nil => exact absurd rfl some_
  | cons v rest =>
    rw [List.mapM_cons] at parsed
    obtain ⟨first, _, parsed⟩ := bind_ok parsed
    obtain ⟨others, _, same⟩ := bind_ok parsed
    cases same
    exact List.ne_nil_of_mem (mem_distinct (a := first) (.inr List.mem_cons_self))

theorem parse_text (a : Abi) : parse (.text a.text) = .ok a := by
  cases a <;> exact ok_of_toOption (by decide +kernel)

theorem parse_texts (list : List Abi) : (list.map fun a => Value.text a.text).mapM parse = .ok list := by
  induction list with
  | nil => rfl
  | cons a rest ih =>
    rw [List.map_cons, List.mapM_cons, parse_text, ih]
    rfl

theorem resolve_texts {a : Abi} {list resolved : List Abi}
    (ran : resolve (list.map fun a => .text a.text) = .ok resolved) (member : a ∈ list) :
    a ∈ resolved := by
  obtain ⟨_, abis, parsed, rfl⟩ := resolve_parts ran
  rw [parse_texts] at parsed
  cases parsed
  exact mem_distinct (.inr member)

theorem distinct_fresh {found declared : List Abi} (nodup : (found ++ declared).Nodup) :
    distinct found declared = found ++ declared := by
  induction declared generalizing found with
  | nil => simp [distinct]
  | cons a rest ih =>
    have fresh : ¬ found.contains a = true := fun there =>
      (List.nodup_append.mp nodup).2.2 a (by simpa using there) a (by simp) rfl
    have regroup : found ++ a :: rest = (found ++ [a]) ++ rest := by simp
    unfold distinct
    rw [if_neg fresh, regroup]
    exact ih (regroup ▸ nodup)

theorem resolve_named {list : List Abi} (nonempty : list ≠ []) (nodup : list.Nodup) :
    resolve (list.map fun a => .text a.text) = .ok list := by
  unfold resolve
  rw [if_neg (by simp [nonempty]), parse_texts]
  exact congrArg Except.ok (@distinct_fresh [] list nodup)

theorem resolve_own {list resolved : List Abi} (nodup : list.Nodup)
    (ran : resolve (list.map fun a => .text a.text) = .ok resolved) : resolved = list := by
  have nonempty : list ≠ [] := by
    rintro rfl
    cases ran
  rw [resolve_named nonempty nodup] at ran
  exact (Except.ok.inj ran).symm

end Abi

namespace Config

def libraryPath (c : Config) (abi : Abi) (p : Profile) (library : String) : FilePath :=
  (c.outputDir abi p).child library

theorem location_absolute {t : FileTree} {base p : FilePath} {v : Value}
    (ran : location t base v = .ok p) : p.root ≠ .relative := by
  obtain ⟨written, _, ran⟩ := bind_ok ran
  simp only at ran
  split at ran
  · rename_i absolute
    cases ran
    simpa [FilePath.isAbsolute] using absolute
  · obtain ⟨l, rfl, _⟩ := FileTree.resolve_cases (mapError_ok ran)
    exact nofun

-- What each part of a configuration is read from, with paths taken from a directory.
structure Derives (t : FileTree) (from_ : FilePath) (data : Entries) (c : Config) : Prop where
  architectures : ∃ declared, listOf .targetsNotList (setting data "targets") = .ok declared ∧
    Abi.resolve declared = .ok c.architectures
  libraries : ∃ declared, listOf .librariesNotList (setting data "libraries") = .ok declared ∧
    libraryNames declared = .ok c.libraries
  environment : ∃ entries, mapOf .environmentNotMap (setting data "extra_cargo_env") = .ok entries ∧
    writtenEntries entries = .ok c.environment
  arguments : ∃ items, plainList .argumentsNotList (setting data "extra_cargo_build_arguments") = .ok items ∧
    items.mapM Failure.ofWriting = .ok c.arguments
  buildTypes : ∃ entries, mapOf .buildTypesNotMap (setting data "build_types") = .ok entries ∧
    buildTypeTable entries = .ok c.buildTypes
  profiles : ∃ table, ProfileTable.standard.override c.overrides = .ok table
  platform : whole (setting data "platform") = .ok c.platform
  jobs : optionalWhole (setting data "jobs") = .ok c.jobs
  enough : checkJobs c.jobs = .ok ()
  module : location t from_ (setting data "module") = .ok c.modulePath
  target : location t from_ (setting data "target_dir") = .ok c.targetDir
  jniLibs : location t from_ (setting data "jni_libs_dir") = .ok c.jniLibsDir
  ndk : optionalLocation t from_ (setting data "ndk_dir") = .ok c.ndkDir
  version : optionalText (setting data "ndk_version") = .ok c.ndkVersion
  cargo : optionalText (setting data "cargo_bin") = .ok c.cargoBin
  verbose : c.verbose = !(setting data "verbose").isBlank

theorem resolve_derives {t : FileTree} {base : Option FilePath} {data : Entries} {c : Config}
    (ran : resolve t base data = .ok c) :
    ∃ from_, t.resolve (base.getD ⟨.relative, []⟩) = .ok from_ ∧ Derives t from_ data c := by
  unfold resolve at ran
  obtain ⟨_, _, ran⟩ := bind_ok ran
  obtain ⟨from_, absolute, ran⟩ := bind_ok ran
  obtain ⟨targets, targetList, ran⟩ := bind_ok ran
  obtain ⟨libraries, libraryList, ran⟩ := bind_ok ran
  obtain ⟨environment, environmentMap, ran⟩ := bind_ok ran
  obtain ⟨arguments, argumentList, ran⟩ := bind_ok ran
  obtain ⟨types, typeMap, ran⟩ := bind_ok ran
  obtain ⟨buildTypes, typed, ran⟩ := bind_ok ran
  obtain ⟨platform, level, ran⟩ := bind_ok ran
  obtain ⟨jobs, counted, ran⟩ := bind_ok ran
  obtain ⟨_, enough, ran⟩ := bind_ok ran
  obtain ⟨architectures, resolved, ran⟩ := bind_ok ran
  obtain ⟨table, overridden, ran⟩ := bind_ok ran
  obtain ⟨modulePath, module, ran⟩ := bind_ok ran
  obtain ⟨names, named, ran⟩ := bind_ok ran
  obtain ⟨targetDir, target, ran⟩ := bind_ok ran
  obtain ⟨jniLibsDir, jniLibs, ran⟩ := bind_ok ran
  obtain ⟨ndkDir, ndk, ran⟩ := bind_ok ran
  obtain ⟨ndkVersion, version, ran⟩ := bind_ok ran
  obtain ⟨cargoBin, cargo, ran⟩ := bind_ok ran
  obtain ⟨written, environs, ran⟩ := bind_ok ran
  obtain ⟨words, worded, ran⟩ := bind_ok ran
  cases ran
  exact ⟨from_, mapError_ok absolute, {
    architectures := ⟨targets, targetList, mapError_ok resolved⟩
    libraries := ⟨libraries, libraryList, mapError_ok named⟩
    environment := ⟨environment, environmentMap, environs⟩
    arguments := ⟨arguments, argumentList, worded⟩
    buildTypes := ⟨types, typeMap, typed⟩
    profiles := ⟨table, mapError_ok overridden⟩
    platform := level
    jobs := counted
    enough, module, target, jniLibs, ndk, version, cargo
    verbose := rfl }⟩

theorem resolve_accepted {t : FileTree} {base : Option FilePath} {data : Entries} {c : Config}
    (ran : resolve t base data = .ok c) : Accepted c := by
  obtain ⟨_, _, derives⟩ := resolve_derives ran
  obtain ⟨_, _, resolved⟩ := derives.architectures
  obtain ⟨_, _, named⟩ := derives.libraries
  have declares := libraryNames_ok_iff.mp named
  exact ⟨fun s member => (declares.admitted.libraries s member).plain, declares.nonempty,
    Abi.resolve_nodup resolved, location_absolute derives.target, location_absolute derives.jniLibs⟩

theorem resolve_unmarked {t : FileTree} {base : Option FilePath} {data : Entries} {c : Config}
    (ran : resolve t base data = .ok c) : ∀ library ∈ c.libraries, library ≠ markerName := by
  obtain ⟨_, _, derives⟩ := resolve_derives ran
  obtain ⟨_, _, named⟩ := derives.libraries
  exact fun s member => ((libraryNames_ok_iff.mp named).admitted.libraries s member).unmarked

theorem resolve_architectures {t : FileTree} {base : Option FilePath} {data : Entries} {c : Config}
    (ran : resolve t base data = .ok c) : c.architectures ≠ [] := by
  obtain ⟨_, _, derives⟩ := resolve_derives ran
  obtain ⟨_, _, resolved⟩ := derives.architectures
  exact Abi.resolve_nonempty resolved

theorem location_normal {t : FileTree} {base p : FilePath} {v : Value} (here : ∀ name ∈ t.here, Proper name)
    (normal : base.Normal) (ran : location t base v = .ok p) : p.Normal := by
  obtain ⟨written, _, ran⟩ := bind_ok ran
  simp only at ran
  split at ran
  · cases ran
    exact FilePath.ofText_normal written
  · exact FileTree.resolve_normal here (normal.join (FilePath.ofText_normal written)) (mapError_ok ran)

theorem base_normal {t : FileTree} {base : Option FilePath} {from_ : FilePath}
    (here : ∀ name ∈ t.here, Proper name) (normal : ∀ p, base = some p → p.Normal)
    (absolute : t.resolve (base.getD ⟨.relative, []⟩) = .ok from_) : from_.Normal := by
  refine FileTree.resolve_normal here ?_ absolute
  cases base with
  | none => exact fun name member => by cases member
  | some p => exact normal p rfl

theorem resolve_target_normal {t : FileTree} {base : Option FilePath} {data : Entries} {c : Config}
    (here : ∀ name ∈ t.here, Proper name) (normal : ∀ p, base = some p → p.Normal)
    (ran : resolve t base data = .ok c) : c.targetDir.Normal := by
  obtain ⟨from_, absolute, derives⟩ := resolve_derives ran
  exact location_normal here (base_normal here normal absolute) derives.target

theorem resolve_module_absolute {t : FileTree} {base : Option FilePath} {data : Entries} {c : Config}
    (ran : resolve t base data = .ok c) : c.modulePath.root ≠ .relative := by
  obtain ⟨_, _, derives⟩ := resolve_derives ran
  exact location_absolute derives.module

end Config

namespace Sample

def tree : FileTree := ⟨[], [
  (["m"], .directory), (["m", "Cargo.toml"], .file [] false),
  (["bin"], .directory), (["bin", "cargo"], .file [] true),
  (["ndk"], .directory)]⟩

def settings : Config.Entries := [
  (.text "module", .text "/m"),
  (.text "targets", .list [.text "arm64", .text "x86"]),
  (.text "libraries", .list [.text "liba.so"]),
  (.text "target_dir", .text "/t"),
  (.text "jni_libs_dir", .text "/j"),
  (.text "ndk_dir", .text "/ndk"),
  (.text "cargo_bin", .text "/bin/cargo")]

def config : Config where
  modulePath := ⟨.single, ["m"]⟩
  architectures := [.arm64, .x86]
  libraries := ["liba.so"]
  targetDir := ⟨.single, ["t"]⟩
  jniLibsDir := ⟨.single, ["j"]⟩
  platform := 24
  ndkDir := some ⟨.single, ["ndk"]⟩
  ndkVersion := none
  cargoBin := some "/bin/cargo"
  environment := []
  arguments := []
  verbose := false
  jobs := none
  buildTypes := [("debug", "debug"), ("release", "release")]

theorem resolved : Config.resolve tree none settings = .ok config :=
  ok_of_toOption (by decide +kernel)

end Sample

end AbiBuild
