import AbiBuild.Proofs.Config.Accepted
import AbiBuild.Proofs.Files.Nesting

namespace AbiBuild

namespace Table

variable {α : Type} {t done more : Table α} {key : String}

theorem nodup_put (nodup : t.keys.Nodup) (key : String) (value : α) : (put t key value).keys.Nodup := by
  rw [keys_put]
  split
  · exact nodup
  · rename_i fresh
    refine List.nodup_append.mpr ⟨nodup, List.nodup_singleton key, ?_⟩
    intro old member new last same
    rw [List.mem_singleton.mp last] at same
    exact fresh (same ▸ member)

theorem nodup_update (nodup : t.keys.Nodup) : (update t more).keys.Nodup := by
  induction more generalizing t with
  | nil => exact nodup
  | cons entry rest ih => exact ih (nodup_put nodup entry.1 entry.2)

theorem put_fresh (fresh : key ∉ t.keys) (value : α) : put t key value = t ++ [(key, value)] := by
  induction t with
  | nil => rfl
  | cons entry rest ih =>
    have other : entry.1 ≠ key := fun same => fresh (same ▸ List.mem_cons_self)
    have later := ih fun member => fresh (List.mem_cons_of_mem _ member)
    simp only [put, if_neg other, later, List.cons_append]

theorem update_fresh (nodup : (keys (done ++ more)).Nodup) : update done more = done ++ more := by
  induction more generalizing done with
  | nil => exact (List.append_nil done).symm
  | cons entry rest ih =>
    have regroup : done ++ entry :: rest = (done ++ [entry]) ++ rest := by simp
    have fresh : entry.1 ∉ done.keys := by
      unfold keys at nodup ⊢
      rw [List.map_append] at nodup
      exact fun member => (List.nodup_append.mp nodup).2.2 _ member entry.1 List.mem_cons_self rfl
    show update (put done entry.1 entry.2) rest = done ++ entry :: rest
    rw [put_fresh fresh, regroup]
    exact ih (regroup ▸ nodup)

end Table

namespace Value

theorem double_written (x : Binary64) : x.text ≠ "" := by
  cases x with
  | nan => decide
  | infinite negative => cases negative <;> decide
  | finite negative mantissa exponent =>
    have laid : ∀ digits point, Binary64.layout digits point ≠ "" := by
      intro digits point
      simp only [Binary64.layout]
      split
      · split
        · simp
        · split <;> simp
      · simp
    simp only [Binary64.text]
    split
    · simp
    · simp [laid]

theorem int_written (n : Int) : toString n ≠ "" := by
  cases n with
  | ofNat n => exact Nat.repr_ne_empty
  | negSucc n => exact fun same => absurd (String.append_eq_empty_iff.mp same).1 (by decide)

-- Whatever counts as a value is written as some text.
theorem display_nonempty {v : Value} (some_ : v.isBlank = false) : v.display ≠ "" := by
  cases v with
  | null => cases some_
  | bool b => cases b <;> decide
  | int n => exact int_written n
  | double x => exact double_written x
  | text s => simpa [isBlank, display] using some_
  | bytes b => simp [display, literal, Text.quotedBytes]
  | date d => simp [display, Date.text, toString, String.append_eq_empty_iff]
  | instant t => simp [display, Instant.text, String.append_eq_empty_iff]
  | list items => simp [display, literal, bracketed, String.append_eq_empty_iff]
  | tuple items =>
    simp only [display, literal, tupleText]
    split <;> simp [bracketed, String.append_eq_empty_iff]
  | map entries => simp [display, literal, bracketed, String.append_eq_empty_iff]
  | set members =>
    simp only [display, literal, setText]
    split <;> simp [bracketed, String.append_eq_empty_iff]
  | enclosing isMap => cases isMap <;> decide

end Value

namespace Config

def entriesOf (table : Table Value) : Entries := table.map fun (key, v) => (.text key, v)

def textEntries (table : Table String) : Entries := table.map fun (key, s) => (.text key, .text s)

def optionalPath : Option FilePath → Value
  | some p => .text p.text
  | none => .null

def optionalName : Option String → Value
  | some s => .text s
  | none => .null

def optionalCount : Option Int → Value
  | some n => .int n
  | none => .null

-- The mapping that says outright what a configuration comes to.
def writtenBack (c : Config) : Table Value :=
  [("module", .text c.modulePath.text),
   ("targets", .list (c.architectures.map fun abi => .text abi.text)),
   ("libraries", texts c.libraries),
   ("target_dir", .text c.targetDir.text),
   ("jni_libs_dir", .text c.jniLibsDir.text),
   ("platform", .int c.platform),
   ("ndk_dir", optionalPath c.ndkDir),
   ("ndk_version", optionalName c.ndkVersion),
   ("cargo_bin", optionalName c.cargoBin),
   ("extra_cargo_env", .map (textEntries c.environment)),
   ("extra_cargo_build_arguments", texts c.arguments),
   ("verbose", .bool c.verbose),
   ("jobs", optionalCount c.jobs),
   ("build_types", .map (textEntries c.buildTypes))]

variable {t u : FileTree} {base again : Option FilePath} {from_ there p : FilePath} {data entries : Entries} {c : Config}
  {table : Table Value} {written : Table String} {key : String} {v : Value} {fault : Fault}

theorem writtenBack_keys (c : Config) : (writtenBack c).keys = defaults.keys := rfl

theorem sameKey_text (name key : String) : (Value.text name).sameKey (.text key) = (name == key) := rfl

theorem lookup_entriesOf : Value.lookup key (entriesOf table) = table.get? key := by
  induction table with
  | nil => rfl
  | cons entry rest ih =>
    obtain ⟨name, v⟩ := entry
    unfold Value.lookup entriesOf Table.get? at ih ⊢
    rw [List.map_cons, List.find?_cons, List.lookup_cons, sameKey_text, BEq.comm]
    cases key == name with
    | true => rfl
    | false => exact ih

theorem setting_written (c : Config) (key : String) (found : c.writtenBack.get? key = some v) :
    setting (entriesOf c.writtenBack) key = v := by
  unfold setting
  rw [lookup_entriesOf, found]
  rfl

theorem checkKeys_entriesOf (known : ∀ key ∈ table.keys, key ∈ defaults.keys) :
    checkKeys (entriesOf table) = .ok () := by
  unfold checkKeys
  have none_ : (((entriesOf table).map Prod.fst).filter fun key => !isKnown key) = [] := by
    refine List.filter_eq_nil_iff.mpr fun key member => ?_
    obtain ⟨entry, inside, rfl⟩ := List.mem_map.mp member
    obtain ⟨⟨name, v⟩, among, rfl⟩ := List.mem_map.mp inside
    simp [isKnown, known name (List.mem_map_of_mem among)]
  simp only [none_]
  rfl

theorem mapOf_map : mapOf fault (.map entries) = .ok entries := by
  cases entries <;> rfl

theorem plainList_list {items : List Value} : plainList fault (.list items) = .ok items := by
  cases items <;> rfl

theorem ofWriting_text (s : String) : Failure.ofWriting (.text s) = .ok s := rfl

theorem mapM_texts (words : List String) : (words.map Value.text).mapM Failure.ofWriting = .ok words := by
  induction words with
  | nil => rfl
  | cons s rest ih =>
    rw [List.map_cons, List.mapM_cons, ofWriting_text, ih]
    rfl

theorem writtenEntries_nodup (ran : writtenEntries entries = .ok written) : written.keys.Nodup := by
  obtain ⟨list, _, same⟩ := bind_ok ran
  cases same
  exact Table.nodup_update List.nodup_nil

theorem map_textEntries {f : Value × Value → Value × Value}
    (each : ∀ key s, f (.text key, .text s) = (.text key, .text s)) :
    (textEntries written).map f = textEntries written := by
  unfold textEntries
  rw [List.map_map]
  exact List.map_congr_left fun entry _ => each entry.1 entry.2

theorem mapM_textEntries {f : Value × Value → Except Failure (String × String)}
    (each : ∀ key s, f (.text key, .text s) = .ok (key, s)) : (textEntries written).mapM f = .ok written := by
  induction written with
  | nil => rfl
  | cons entry rest ih =>
    unfold textEntries at ih ⊢
    rw [List.map_cons, List.mapM_cons, each, ih]
    rfl

theorem writtenEntries_texts (nodup : written.keys.Nodup) : writtenEntries (textEntries written) = .ok written := by
  unfold writtenEntries
  rw [mapM_textEntries]
  · exact congrArg Except.ok (@Table.update_fresh _ [] written nodup)
  · exact fun _ _ => rfl

theorem buildTypeTable_texts (nodup : written.keys.Nodup) : buildTypeTable (textEntries written) = .ok written := by
  unfold buildTypeTable
  rw [map_textEntries]
  · exact writtenEntries_texts nodup
  · exact fun _ _ => rfl

theorem libraryNames_texts {names : List String} {declared : List Value} (ran : libraryNames declared = .ok names) :
    libraryNames (names.map Value.text) = .ok names := by
  rwa [← (libraryNames_ok_iff.mp ran).texts]

theorem location_text (normal : p.Normal) (absolute : p.root ≠ .relative) :
    location u there (.text p.text) = .ok p := by
  unfold location
  rw [ofWriting_text]
  show (if (FilePath.ofText p.text).isAbsolute then _ else _) = _
  rw [FilePath.ofText_text normal absolute, if_pos (by simpa [FilePath.isAbsolute] using absolute)]

theorem location_again (here : ∀ name ∈ t.here, Proper name) (normal : from_.Normal)
    (ran : location t from_ v = .ok p) : location u there (.text p.text) = .ok p :=
  location_text (location_normal here normal ran) (location_absolute ran)

theorem optionalLocation_again {found : Option FilePath} (here : ∀ name ∈ t.here, Proper name) (normal : from_.Normal)
    (ran : optionalLocation t from_ v = .ok found) : optionalLocation u there (optionalPath found) = .ok found := by
  unfold optionalLocation at ran
  split at ran
  · cases ran
    rfl
  · cases first : location t from_ v with
    | error cause => simp [first, Except.map] at ran
    | ok p =>
      simp only [first, Except.map] at ran
      cases ran
      have some_ : (Value.text p.text).isBlank = false := by
        have slash := FilePath.text_absolute (location_absolute first)
        cases shown : p.text.isEmpty with
        | false => exact shown
        | true => simp [String.isEmpty_iff.mp shown] at slash
      simp only [optionalLocation, optionalPath, some_, location_again here normal first]
      rfl

theorem optionalText_again {found : Option String} (ran : optionalText v = .ok found) :
    optionalText (optionalName found) = .ok found := by
  unfold optionalText at ran
  split at ran
  · cases ran
    rfl
  · rename_i some_
    unfold Failure.ofWriting at ran
    split at ran
    · cases ran
      have shown : v.display.isEmpty = false := by
        simpa using Value.display_nonempty (by simpa using some_)
      simp only [optionalText, optionalName, Value.isBlank, shown]
      rfl
    · cases ran

theorem optionalWhole_count (jobs : Option Int) : optionalWhole (optionalCount jobs) = .ok jobs := by
  cases jobs <;> rfl

theorem Derives.writtenBack (derives : Derives t from_ data c) (here : ∀ name ∈ t.here, Proper name)
    (normal : from_.Normal) (u : FileTree) (there : FilePath) : Derives u there (entriesOf c.writtenBack) c where
  architectures := by
    obtain ⟨_, _, resolved⟩ := derives.architectures
    rw [setting_written c "targets" rfl]
    exact ⟨_, rfl, Abi.resolve_named (Abi.resolve_nonempty resolved) (Abi.resolve_nodup resolved)⟩
  libraries := by
    obtain ⟨_, _, named⟩ := derives.libraries
    rw [setting_written c "libraries" rfl]
    exact ⟨_, rfl, libraryNames_texts named⟩
  environment := by
    obtain ⟨_, _, environs⟩ := derives.environment
    rw [setting_written c "extra_cargo_env" rfl]
    exact ⟨_, mapOf_map, writtenEntries_texts (writtenEntries_nodup environs)⟩
  arguments := by
    rw [setting_written c "extra_cargo_build_arguments" rfl]
    exact ⟨_, plainList_list, mapM_texts c.arguments⟩
  buildTypes := by
    obtain ⟨_, _, typed⟩ := derives.buildTypes
    rw [setting_written c "build_types" rfl]
    exact ⟨_, mapOf_map, buildTypeTable_texts (writtenEntries_nodup typed)⟩
  profiles := derives.profiles
  platform := by
    rw [setting_written c "platform" rfl]
    rfl
  jobs := by
    rw [setting_written c "jobs" rfl]
    exact optionalWhole_count c.jobs
  enough := derives.enough
  module := by
    rw [setting_written c "module" rfl]
    exact location_again here normal derives.module
  target := by
    rw [setting_written c "target_dir" rfl]
    exact location_again here normal derives.target
  jniLibs := by
    rw [setting_written c "jni_libs_dir" rfl]
    exact location_again here normal derives.jniLibs
  ndk := by
    rw [setting_written c "ndk_dir" rfl]
    exact optionalLocation_again here normal derives.ndk
  version := by
    rw [setting_written c "ndk_version" rfl]
    exact optionalText_again derives.version
  cargo := by
    rw [setting_written c "cargo_bin" rfl]
    exact optionalText_again derives.cargo
  verbose := by
    rw [setting_written c "verbose" rfl]
    exact (Bool.not_not c.verbose).symm

theorem Derives.resolves (derives : Derives u there data c) (known : checkKeys data = .ok ())
    (absolute : u.resolve (again.getD ⟨.relative, []⟩) = .ok there) : resolve u again data = .ok c := by
  obtain ⟨targets, targetList, resolved⟩ := derives.architectures
  obtain ⟨libraries, libraryList, named⟩ := derives.libraries
  obtain ⟨environment, environmentMap, environs⟩ := derives.environment
  obtain ⟨arguments, argumentList, worded⟩ := derives.arguments
  obtain ⟨types, typeMap, typed⟩ := derives.buildTypes
  obtain ⟨table, overridden⟩ := derives.profiles
  unfold overrides at overridden
  simp only [resolve, known, absolute, targetList, resolved, libraryList, named, environmentMap, environs,
    argumentList, worded, typeMap, typed, overridden, derives.platform, derives.jobs, derives.enough, derives.module,
    derives.target, derives.jniLibs, derives.ndk, derives.version, derives.cargo, ← derives.verbose, bind,
    Except.bind, Except.mapError, Failure.ofFile]
  rfl

theorem resolve_refused {fault : FileFault} (known : checkKeys data = .ok ())
    (refused : u.resolve (again.getD ⟨.relative, []⟩) = .error fault) :
    resolve u again data = .error (.mishap (.file fault)) := by
  simp only [resolve, known, refused, bind, Except.bind, Except.mapError, Failure.ofFile]

-- A configuration that is accepted is accepted again from the mapping that says it outright, from any directory and
-- in any tree. Only the directory itself can be in the way, where it is none.
theorem resolve_writtenBack (here : ∀ name ∈ t.here, Proper name) (normal : ∀ p, base = some p → p.Normal)
    (ran : resolve t base data = .ok c) :
    c.writtenBack.keys = defaults.keys ∧
      (∀ u again, resolve u again (entriesOf c.writtenBack) =
        (Failure.ofFile (u.resolve (again.getD ⟨.relative, []⟩))).map fun _ => c) ∧
      (∀ u p, u.isDirectory p = .ok true → resolve u (some p) (entriesOf c.writtenBack) = .ok c) ∧
      ∀ u, resolve u none (entriesOf c.writtenBack) = .ok c := by
  obtain ⟨from_, absolute, derives⟩ := resolve_derives ran
  have known : checkKeys (entriesOf c.writtenBack) = .ok () := checkKeys_entriesOf fun _ member => member
  have reads := derives.writtenBack here (base_normal here normal absolute)
  refine ⟨writtenBack_keys c, fun u again => ?_, fun u p asked => ?_, fun u => ?_⟩
  · cases start : u.resolve (again.getD ⟨.relative, []⟩) with
    | error fault => exact resolve_refused known start
    | ok there => exact (reads u there).resolves known start
  · obtain ⟨there, start⟩ := FileTree.resolve_directory asked
    exact (reads u there).resolves known start
  · exact (reads u _).resolves known (FileTree.resolve_here u)

theorem resolve_sample_again : (∀ name ∈ Sample.tree.here, Proper name) ∧
    (∀ p, (none : Option FilePath) = some p → p.Normal) ∧
    Config.resolve Sample.tree none Sample.settings = .ok Sample.config ∧
    resolve Sample.tree (some ⟨.single, ["bin"]⟩) (entriesOf Sample.config.writtenBack) = .ok Sample.config := by
  have here : ∀ name ∈ Sample.tree.here, Proper name := fun _ member => by cases member
  have normal : ∀ p, (none : Option FilePath) = some p → p.Normal := fun _ same => by cases same
  have directory : Sample.tree.isDirectory ⟨.single, ["bin"]⟩ = .ok true := ok_of_toOption (by decide +kernel)
  exact ⟨here, normal, Sample.resolved,
    (resolve_writtenBack here normal Sample.resolved).2.2.1 Sample.tree _ directory⟩

end Config

end AbiBuild
