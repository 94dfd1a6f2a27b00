import AbiBuild.Config.Load
import AbiBuild.Proofs.Config.Accepted

namespace AbiBuild

def Failure.isOfSettings : Failure → Bool
  | .config _ => true
  | .architecture _ => true
  | .variant _ => true
  | _ => false

namespace Config

-- What is wrong with settings whose reading breaks off, and what it breaks off with.
inductive Slip (t : FileTree) (base : Option FilePath) (data : Entries) : Mishap → Prop
  | key (entry : Value × Value) (member : entry ∈ data) (noText : textOf? entry.1 = none) :
      Slip t base data (.type "a key is not text")
  | endless (key : String) (among : key = "platform" ∨ key = "jobs") (negative : Bool)
      (infinite : setting data key = .double (.infinite negative)) :
      Slip t base data (.overflow NotWhole.infinite.message)
  | long (unwritten : Value.entriesWritable data = false) : Slip t base data (.value .longInteger)
  | base (fault : FileFault) (refused : t.resolve (base.getD ⟨.relative, []⟩) = .error fault) :
      Slip t base data (.file fault)
  | path (key : String) (among : key ∈ ["module", "target_dir", "jni_libs_dir", "ndk_dir"]) (from_ : FilePath)
      (start : t.resolve (base.getD ⟨.relative, []⟩) = .ok from_) (fault : FileFault)
      (refused : t.resolve (from_.join (.ofText (setting data key).display)) = .error fault) :
      Slip t base data (.file fault)

-- What is wrong with a file that is not read to its end.
inductive FileSlip (reader : Markup.Reader) (t : FileTree) (path : FilePath) (base : Option FilePath) :
    Mishap → Prop
  | asked (fault : FileFault) (refused : t.isFile path = .error fault) :
      FileSlip reader t path base (.file fault)
  | coding (fault : FileFault) (caller : fault.isSystem = false) (refused : t.readText path = .error fault) :
      FileSlip reader t path base (.file fault)
  | scalar (text : String) (there : t.readText path = .ok text) (fault : Markup.ScalarFault)
      (spoilt : reader text = .error (.scalar fault)) : FileSlip reader t path base fault.mishap
  | settings (data : Entries) (document : readDocument reader t path = .ok (.map data)) (cause : Mishap)
      (slip : Slip t (some (base.getD path.parent)) data cause) : FileSlip reader t path base cause

-- A failure reports the configuration, or it is a mishap for which there is a slip.
def Told (slip : Mishap → Prop) (cause : Failure) : Prop :=
  cause.isOfSettings = true ∨ ∃ mishap, cause = .mishap mishap ∧ slip mishap

variable {t : FileTree} {base : Option FilePath} {data entries : Entries} {slip : Mishap → Prop} {v : Value}
  {items : List Value} {key : String} {path from_ : FilePath} {fault : Fault} {cause : Failure} {n : Int}

theorem allWritable_iff : Value.allWritable items = true ↔ ∀ v ∈ items, v.isWritable = true := by
  induction items with
  | nil => simp [Value.allWritable]
  | cons v rest ih => simp [Value.allWritable, ih]

theorem entriesWritable_iff : Value.entriesWritable entries = true ↔
    ∀ entry ∈ entries, entry.1.isWritable = true ∧ entry.2.isWritable = true := by
  induction entries with
  | nil => simp [Value.entriesWritable]
  | cons entry rest ih => simp [Value.entriesWritable, ih, and_assoc]

theorem lookup_writable (writable : Value.entriesWritable entries = true)
    (found : Value.lookup key entries = some v) : v.isWritable = true := by
  obtain ⟨entry, there, rfl⟩ := Option.map_eq_some_iff.mp found
  exact (entriesWritable_iff.mp writable entry (List.mem_of_find?_eq_some there)).2

theorem defaults_writable : ∀ entry ∈ defaults, entry.2.isWritable = true := by decide +kernel

theorem setting_writable (writable : Value.entriesWritable data = true) (key : String) :
    (setting data key).isWritable = true := by
  unfold setting
  cases found : Value.lookup key data with
  | some v => exact lookup_writable writable found
  | none =>
    cases default : defaults.get? key with
    | none => rfl
    | some v =>
      obtain ⟨front, back, split_, _⟩ := List.lookup_eq_some_iff.mp default
      exact defaults_writable (key, v) (by simp [split_])

theorem told_config : Told slip (.config fault) := .inl rfl

-- A value that is not written gives the mapping away as one that holds such a value.
theorem told_long (writable : Value.entriesWritable data = true → v.isWritable = true)
    (unwritten : v.isWritable = false) : Told (Slip t base data) (.mishap (.value .longInteger)) := by
  refine .inr ⟨_, rfl, .long (Bool.eq_false_iff.mpr fun fine => ?_)⟩
  rw [writable fine] at unwritten
  cases unwritten

theorem writing_told (writable : Value.entriesWritable data = true → v.isWritable = true) :
    Fails (Told (Slip t base data)) (Failure.ofWriting v) := by
  unfold Failure.ofWriting
  split
  · exact .ok _
  · rename_i unwritten
    exact .error (told_long writable (by simpa using unwritten))

theorem showing_told (writable : Value.entriesWritable data = true → v.isWritable = true)
    (shown : cause.isOfSettings = true) : Told (Slip t base data) (showing v cause) := by
  unfold showing
  split
  · exact .inl shown
  · rename_i unwritten
    exact told_long writable (by simpa using unwritten)

theorem unlisted_key {keys : List Value} (unlisted : keys.mapM textOf? = none) :
    ∃ key ∈ keys, textOf? key = none := by
  induction keys with
  | nil => cases unlisted
  | cons key rest ih =>
    cases named : textOf? key with
    | none => exact ⟨key, by simp, named⟩
    | some name =>
      cases more : rest.mapM textOf? with
      | none =>
        obtain ⟨other, member, noText⟩ := ih more
        exact ⟨other, List.mem_cons_of_mem _ member, noText⟩
      | some names => simp [List.mapM_cons, named, more] at unlisted

theorem checkKeys_told (t : FileTree) (base : Option FilePath) (data : Entries) :
    Fails (Told (Slip t base data)) (checkKeys data) := by
  unfold checkKeys
  simp only
  split
  · exact .ok _
  · split
    · exact .error told_config
    · rename_i unlisted
      obtain ⟨key, member, noText⟩ := unlisted_key unlisted
      obtain ⟨entry, inside, rfl⟩ := List.mem_map.mp (List.mem_of_mem_filter member)
      exact .error (.inr ⟨_, rfl, .key entry inside noText⟩)

theorem listOf_told : Fails (Told slip) (listOf fault v) := by
  unfold listOf
  split
  · exact .ok _
  · exact .ok _
  · exact .error told_config

theorem plainList_told : Fails (Told slip) (plainList fault v) := by
  unfold plainList
  split
  · exact .ok _
  · split
    · exact .ok _
    · exact .error told_config

theorem mapOf_told : Fails (Told slip) (mapOf fault v) := by
  unfold mapOf
  split
  · exact .ok _
  · split
    · exact .ok _
    · exact .error told_config

theorem listOf_writable (ran : listOf fault v = .ok items) (writable : v.isWritable = true) :
    ∀ item ∈ items, item.isWritable = true := by
  unfold listOf at ran
  split at ran
  · cases ran
    simp [Value.isWritable]
  · cases ran
    exact allWritable_iff.mp writable
  · cases ran

theorem plainList_writable (ran : plainList fault v = .ok items) (writable : v.isWritable = true) :
    ∀ item ∈ items, item.isWritable = true := by
  unfold plainList at ran
  split at ran
  · cases ran
    simp
  · split at ran
    · cases ran
      exact allWritable_iff.mp writable
    · cases ran

theorem mapOf_writable (ran : mapOf fault v = .ok entries) (writable : v.isWritable = true) :
    Value.entriesWritable entries = true := by
  unfold mapOf at ran
  split at ran
  · cases ran
    rfl
  · split at ran
    · cases ran
      exact writable
    · cases ran

theorem writtenEntries_told
    (writable : Value.entriesWritable data = true → Value.entriesWritable entries = true) :
    Fails (Told (Slip t base data)) (writtenEntries entries) := by
  have each := fun fine => entriesWritable_iff.mp (writable fine)
  refine (Fails.mapM fun entry member => ?_).bind fun _ _ => .ok _
  refine (writing_told fun fine => (each fine entry member).1).bind fun _ _ => ?_
  exact (writing_told fun fine => (each fine entry member).2).bind fun _ _ => .ok _

theorem buildTypeTable_told
    (writable : Value.entriesWritable data = true → Value.entriesWritable entries = true) :
    Fails (Told (Slip t base data)) (buildTypeTable entries) := by
  refine writtenEntries_told fun fine => entriesWritable_iff.mpr fun entry member => ?_
  obtain ⟨⟨key, profile⟩, before, rfl⟩ := List.mem_map.mp member
  obtain ⟨left, right⟩ := entriesWritable_iff.mp (writable fine) _ before
  refine ⟨left, ?_⟩
  cases profile with
  | map nested =>
    show ((Value.lookup "build_type" nested).getD key).isWritable = true
    cases found : Value.lookup "build_type" nested with
    | none => exact left
    | some v => exact lookup_writable right found
  | _ => exact right

theorem whole_endless (ran : v.whole = .error .infinite) : ∃ negative, v = .double (.infinite negative) := by
  have numeral : ∀ read : Except Numeral.IntegerFault Int,
      read.mapError NotWhole.numeral ≠ .error NotWhole.infinite := by
    intro read same
    cases read <;> cases same
  cases v with
  | double x =>
    cases x with
    | infinite negative => exact ⟨negative, rfl⟩
    | nan => cases ran
    | finite => cases ran
  | text s => exact absurd ran (numeral _)
  | bytes b => exact absurd ran (numeral _)
  | _ => cases ran

theorem whole_told (among : key = "platform" ∨ key = "jobs") :
    Fails (Told (Slip t base data)) (whole (setting data key)) := by
  unfold whole
  split
  · exact .ok _
  · rename_i endless
    obtain ⟨negative, infinite⟩ := whole_endless endless
    exact .error (.inr ⟨_, rfl, .endless key among negative infinite⟩)
  · exact .error told_config

theorem optionalWhole_told (among : key = "platform" ∨ key = "jobs") :
    Fails (Told (Slip t base data)) (optionalWhole (setting data key)) := by
  unfold optionalWhole
  split
  · exact .ok _
  · exact (whole_told among).map

theorem checkJobs_told (jobs : Option Int) : Fails (Told slip) (checkJobs jobs) := by
  unfold checkJobs
  split
  · split
    · exact .error told_config
    · exact .ok _
  · exact .ok _

theorem target_told (writable : Value.entriesWritable data = true → ∀ v ∈ items, v.isWritable = true) :
    Fails (Told (Slip t base data)) ((Abi.resolve items).mapError targetFailure) := by
  refine .mapError ?_
  unfold Abi.resolve
  split
  · exact .error (.inl rfl)
  · refine .map (.mapM fun item member => ?_)
    unfold Abi.parse
    split
    · exact .ok _
    · exact .error (showing_told (fun fine => writable fine item member) rfl)

theorem libraryName_told (before : List String)
    (writable : Value.entriesWritable data = true → v.isWritable = true) :
    Fails (fun fault => Told (Slip t base data) (libraryFailure fault)) (libraryName before v) := by
  unfold libraryName
  split
  · split
    · exact .error (showing_told writable rfl)
    · split
      · exact .error told_config
      · split
        · exact .error told_config
        · exact .ok _
  · exact .error (showing_told writable rfl)

theorem libraryNamesFrom_told (before : List String)
    (writable : Value.entriesWritable data = true → ∀ v ∈ items, v.isWritable = true) :
    Fails (fun fault => Told (Slip t base data) (libraryFailure fault)) (libraryNamesFrom before items) := by
  induction items generalizing before with
  | nil => exact .ok _
  | cons v rest ih =>
    refine (libraryName_told before fun fine => writable fine v (by simp)).bind fun name _ => ?_
    exact ih (before ++ [name]) fun fine other member => writable fine other (List.mem_cons_of_mem _ member)

theorem library_told (writable : Value.entriesWritable data = true → ∀ v ∈ items, v.isWritable = true) :
    Fails (Told (Slip t base data)) ((libraryNames items).mapError libraryFailure) := by
  refine .mapError ?_
  unfold libraryNames
  split
  · exact .error told_config
  · exact libraryNamesFrom_told [] writable

theorem override_told (types : Table String) (table : ProfileTable) : Fails (Told slip)
    ((table.override (types.map fun (key, profile) => (.text key, .text profile))).mapError .ofVariant) := by
  refine .mapError ?_
  induction types generalizing table with
  | nil => exact .ok _
  | cons entry rest ih =>
    have named : Fails (fun fault => Told slip (.ofVariant fault)) (Variant.parse (.text entry.1)) := by
      unfold Variant.parse
      split
      · exact .ok _
      · exact .error (.inl rfl)
    have profiled : Fails (fun fault => Told slip (.ofVariant fault))
        (Profile.ofValue (.text entry.1) (.text entry.2)) := by
      unfold Profile.ofValue
      simp only
      split
      · exact .ok _
      · exact .error (.inl rfl)
    exact named.bind fun v _ => profiled.bind fun p _ => ih (table.set v p)

theorem location_told (among : key ∈ ["module", "target_dir", "jni_libs_dir", "ndk_dir"])
    (start : t.resolve (base.getD ⟨.relative, []⟩) = .ok from_) :
    Fails (Told (Slip t base data)) (location t from_ (setting data key)) := by
  unfold location
  refine (writing_told fun fine => setting_writable fine key).bind fun text written => ?_
  have shown : text = (setting data key).display := by
    unfold Failure.ofWriting at written
    split at written
    · cases written
      rfl
    · cases written
  subst shown
  simp only
  split
  · exact .ok _
  · exact .mapError fun fault refused => .inr ⟨_, rfl, .path key among from_ start fault refused⟩

theorem optionalLocation_told (among : key ∈ ["module", "target_dir", "jni_libs_dir", "ndk_dir"])
    (start : t.resolve (base.getD ⟨.relative, []⟩) = .ok from_) :
    Fails (Told (Slip t base data)) (optionalLocation t from_ (setting data key)) := by
  unfold optionalLocation
  split
  · exact .ok _
  · exact (location_told among start).map

theorem optionalText_told : Fails (Told (Slip t base data)) (optionalText (setting data key)) := by
  unfold optionalText
  split
  · exact .ok _
  · exact (writing_told fun fine => setting_writable fine key).map

theorem resolve_told (t : FileTree) (base : Option FilePath) (data : Entries) :
    Fails (Told (Slip t base data)) (resolve t base data) := by
  unfold resolve
  refine (checkKeys_told t base data).bind fun _ _ => ?_
  refine Fails.bind (.mapError fun fault refused => .inr ⟨_, rfl, .base fault refused⟩) fun from_ start => ?_
  have start := mapError_ok start
  refine listOf_told.bind fun targets declared => ?_
  refine listOf_told.bind fun libraries named => ?_
  refine mapOf_told.bind fun environment surroundings => ?_
  refine plainList_told.bind fun arguments added => ?_
  refine mapOf_told.bind fun types typed => ?_
  refine (buildTypeTable_told fun fine => mapOf_writable typed (setting_writable fine _)).bind fun types _ => ?_
  refine (whole_told (.inl rfl)).bind fun platform _ => ?_
  refine (optionalWhole_told (.inr rfl)).bind fun jobs _ => ?_
  refine (checkJobs_told jobs).bind fun _ _ => ?_
  refine (target_told fun fine => listOf_writable declared (setting_writable fine _)).bind fun _ _ => ?_
  refine (override_told types _).bind fun _ _ => ?_
  refine (location_told (by simp) start).bind fun _ _ => ?_
  refine (library_told fun fine => listOf_writable named (setting_writable fine _)).bind fun _ _ => ?_
  refine (location_told (by simp) start).bind fun _ _ => ?_
  refine (location_told (by simp) start).bind fun _ _ => ?_
  refine (optionalLocation_told (by simp) start).bind fun _ _ => ?_
  refine optionalText_told.bind fun _ _ => ?_
  refine optionalText_told.bind fun _ _ => ?_
  refine (writtenEntries_told fun fine => mapOf_writable surroundings (setting_writable fine _)).bind fun _ _ => ?_
  refine (Fails.mapM fun item member => writing_told fun fine => ?_).bind fun _ _ => .ok _
  exact plainList_writable added (setting_writable fine _) item member

theorem load_told (reader : Markup.Reader) (t : FileTree) (path : FilePath) (base : Option FilePath) :
    Fails (Told (FileSlip reader t path base)) (load reader t path base) := by
  unfold load
  refine Fails.bind (.mapError fun fault refused => .inr ⟨_, rfl, .asked fault refused⟩) fun there asked => ?_
  have asked : t.isFile path = .ok there := mapError_ok asked
  cases there with
  | false => exact .error told_config
  | true =>
    refine Fails.bind (.mapError fun fault refused => ?_) fun document read => ?_
    · unfold readDocument at refused
      split at refused
      · rename_i fault unread
        cases refused
        cases caller : fault.isSystem with
        | true => exact .inl (by simp [readFailure, caller, Failure.isOfSettings])
        | false => exact .inr ⟨_, by simp [readFailure, caller], .coding fault caller unread⟩
      · rename_i text there
        split at refused
        · rename_i fault spoilt
          cases refused
          cases fault with
          | malformed part => exact told_config
          | scalar fault => exact .inr ⟨fault.mishap, rfl, .scalar text there fault spoilt⟩
        · cases refused
        · cases refused
    · have read := mapError_ok read
      cases document with
      | map data =>
        exact (resolve_told t _ data).mono fun cause told => told.imp id fun ⟨mishap, same, slip⟩ =>
          ⟨mishap, same, .settings data read mishap slip⟩
      | _ => exact .error told_config

-- Nothing but a configuration or a report of one comes of a mapping or of a file, the slips apart.
theorem configurations_reported (t : FileTree) (base : Option FilePath) :
    (∀ data, Fails (Told (Slip t base data)) (resolve t base data)) ∧
      ∀ reader path, Fails (Told (FileSlip reader t path base)) (load reader t path base) :=
  ⟨resolve_told t base, fun reader path => load_told reader t path base⟩

-- An infinite platform breaks the reading off.
theorem endless_platform_unreported :
    ¬ Fails (fun cause => cause.isOfSettings = true) (resolve ⟨[], []⟩ none
      [(.text "platform", .double (.infinite false)), (.text "libraries", .list [.text "liba.so"])]) := by
  intro reported
  cases reported (.mishap (.overflow NotWhole.infinite.message)) rfl

end Config

end AbiBuild
