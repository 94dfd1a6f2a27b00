import AbiBuild.Proofs.Build.Artifacts
import AbiBuild.Proofs.Config.Loading
import AbiBuild.Proofs.Console.Entrances
import AbiBuild.Proofs.Placement.Obstacles

namespace AbiBuild

structure Config.Short (c : Config) : Prop where
  target : FileTree.Fits c.targetDir.names
  jniLibs : FileTree.Fits c.jniLibsDir.names
  libraries : FileTree.Fits c.libraries

namespace Build
open FileTree Placement

-- What becomes of what the compilers have come to: nothing is placed unless every architecture compiled.
def Builder.deliver (b : Builder) : Except Failure Invocation × Workshop → Except Failure Invocation × Workshop
  | (.error failure, w) => (.error failure, w)
  | (.ok i, w) =>
    match i.check with
    | .error failure => (.error failure, w)
    | .ok () => b.install i w

-- A failure of the build itself, or a file that could not be dealt with.
def OfFile (cause : Failure) : Prop := ∃ fault, cause = .mishap (.file fault)

variable {b : Builder} {compiler : Compiler} {variant : Value} {w w' : Workshop} {i : Invocation} {c : Config} {j : Job}
  {abi : Abi} {artifacts : List (String × FilePath)} {outcome : Except Failure Invocation}
  {ended : List (Job × Phase)} {cause : Failure}

theorem build_deliver : b.build compiler variant w = b.deliver (b.invoke compiler variant w) := by
  unfold Builder.build Builder.deliver
  rcases b.invoke compiler variant w with ⟨cause | i, w'⟩
  · rfl
  · cases checked : i.check <;> simp only [checked]

theorem check_ofBuild (failed : i.check = .error cause) : cause.isOfBuild = true := by
  unfold Invocation.check at failed
  split at failed <;> cases failed <;> rfl

theorem ofBuild_of_stage {stage : Stage} (known : cause.stage? = some stage) : cause.isOfBuild = true := by
  rw [Failure.isOfBuild, known]
  rfl

theorem install_fails (checked : i.check = .ok ()) :
    Fails (fun cause => cause.isOfBuild = true ∨ OfFile cause) (b.install i w).1 := by
  intro cause failed
  cases install_cases failed with
  | unplaced placed => exact .inr (place_failure checked placed)
  | unmet _ required => exact (require_failure required).symm.imp ofBuild_of_stage id

theorem deliver_fails (heeded : Fails (·.isOfBuild = true) outcome) :
    Fails (fun cause => cause.isOfBuild = true ∨ OfFile cause) (b.deliver (outcome, w)).1 := by
  cases outcome with
  | error cause => exact .error (.inl (heeded cause rfl))
  | ok i =>
    cases checked : i.check with
    | error cause =>
      simp only [Builder.deliver, checked]
      exact .error (.inl (check_ofBuild checked))
    | ok done =>
      simp only [Builder.deliver, checked]
      exact install_fails checked

theorem variant_fits (v : Variant) : Fits [v.text] := by
  intro name is
  rw [List.mem_singleton.mp is]
  cases v <;> decide

theorem placed_fits (short : c.Short) (accepted : Accepted c) (v : Variant) (abi : Abi) {library : String}
    (member : library ∈ c.libraries) : Fits ((abiDir c.jniLibsDir v abi).child library).names := by
  rw [abiDir_child (accepted.plain library member)]
  have names : Fits ([v.text] ++ [abi.text] ++ [library]) := by
    refine fits_append (fits_append (variant_fits v) (abi_nameable abi).fits) fun name is => ?_
    exact List.mem_singleton.mp is ▸ short.libraries library member
  exact fits_append short.jniLibs names

theorem handy_of_collected (short : c.Short) (accepted : Accepted c) (home : j.home = c.abiDir j.abi)
    (collected : Collected j artifacts) : Handy c.libraries artifacts := by
  intro library member path listed
  have place : path = c.targetDir.under (libraryNames j.abi j.profile library) := by
    rw [collected library path listed, ← config_libraryPath accepted member]
    unfold Job.libraryPath Job.outputDir
    rw [home]
    rfl
  rw [place]
  refine ⟨fits_append short.target ?_, fun noNul => ?_⟩
  · exact fits_append (outputNames_nameable j.abi j.profile).fits fun name is =>
      List.mem_singleton.mp is ▸ short.libraries library member
  · rw [FilePath.hasNul_under] at noNul
    unfold FilePath.anyNul libraryNames at *
    simp_all

-- Where nothing is in the way of the placing, nothing but the build itself fails.
theorem deliver_clear (own : b.requested = b.config.architectures.map fun abi => .text abi.text)
    (accepted : Accepted b.config) (short : b.config.Short) {v : Variant} (parsed : Variant.parse variant = .ok v)
    (ran : b.Invokes compiler variant w outcome w' ended) (heeded : Fails (·.isOfBuild = true) outcome)
    (clear : Unobstructed w'.tree (b.config.jniLibsDir.child v.text) b.config.architectures) :
    Fails (·.isOfBuild = true) (b.deliver (outcome, w')).1 := by
  cases outcome with
  | error cause => exact heeded
  | ok i =>
    cases checked : i.check with
    | error cause =>
      simp only [Builder.deliver, checked]
      exact .error (check_ofBuild checked)
    | ok done =>
      simp only [Builder.deliver, checked]
      obtain ⟨named, resolved, results⟩ := invokes_collected ran checked
      rw [own] at resolved
      have architectures := Abi.resolve_own accepted.distinct resolved
      obtain rfl : v = i.variant := Except.ok.inj (parsed.symm.trans named)
      rw [← architectures] at clear
      have handy : ∀ abi ∈ i.architectures, Handy b.config.libraries
          (((i.result? abi).map Compilation.artifacts).getD []) := by
        intro abi member
        obtain ⟨j, result, rfl, home, found, collected⟩ := results abi member
        rw [found]
        exact handy_of_collected short accepted home collected
      have smooth := place_smooth clear checked handy accepted.plain short.libraries
      intro cause failed
      cases install_cases failed with
      | unplaced placed => cases smooth.fine.symm.trans placed
      | unmet _ required =>
        refine ofBuild_of_stage (require_fits (check_fits smooth.clear.linked i.architectures ?_) required)
        exact fun abi _ library member => placed_fits short accepted i.variant abi member

end Build

namespace Console
open Build FileTree Placement

-- A line of a failure that says where it belongs: to a stage of the build, or to an architecture.
def Tagged (line : String) : Prop :=
  (∃ (stage : Stage) (rest : String), line = s!"❌ [{stage.text}] {rest}") ∨
    ∃ (v : Variant) (abi : Abi) (rest : String), line = s!"❌ {v.text}/{abi.text}: {rest}"

-- A command that ends well, or with status one and a line that says where it failed.
def Reported (run : Run) : Prop :=
  run.ending = .status 0 ∨ run.ending = .status 1 ∧ ∃ line ∈ run.printed.errors, Tagged line

-- A command that is broken off by a file that it cannot deal with.
def Spoilt (run : Run) : Prop := ∃ fault, run.ending = .broken (.file fault)

-- How a command that builds goes on when the build is over.
def conclude (c : Config) (v : Variant) : Except Failure Invocation × Workshop → Run
  | (.error failure, w) => .fail [openingLine c v] failure w
  | (.ok i, w) => .finish 0 (openingLine c v :: closingLines c i) [] w

-- A command that builds, with what its invocation comes to, which may run in any of the ways in which it can.
inductive Commanded (compiler : Compiler) (environ overrides : Table String) (s : Source) (variant : Value)
    (w : Workshop) : Option (Except Failure Invocation × Workshop) → Run → Prop
  | unprepared {cause : Failure} (refused : prepare s variant w.tree = .error cause) :
      Commanded compiler environ overrides s variant w none (.fail [] cause w)
  | invoked {c : Config} {v : Variant} {outcome : Except Failure Invocation} {w' : Workshop}
      {ended : List (Job × Phase)} (prepared : prepare s variant w.tree = .ok (c, v))
      (ran : (Builder.of c none overrides none environ).Invokes compiler (.text v.text) w outcome w' ended) :
      Commanded compiler environ overrides s variant w (some (outcome, w'))
        (conclude c v ((Builder.of c none overrides none environ).deliver (outcome, w')))

variable {compiler : Compiler} {environ overrides : Table String} {s : Source} {variant : Value} {w w' : Workshop}
  {c : Config} {v : Variant} {cause : Failure} {run : Run} {outcome : Except Failure Invocation}
  {came : Option (Except Failure Invocation × Workshop)} {output : List String} {report : Report}

theorem build_conclude (prepared : prepare s variant w.tree = .ok (c, v)) :
    build compiler environ overrides s variant w = conclude c v
      ((Builder.of c none overrides none environ).deliver
        ((Builder.of c none overrides none environ).invoke compiler (.text v.text) w)) := by
  rw [← build_deliver]
  unfold build
  simp only [prepared]
  generalize (Builder.of c none overrides none environ).build compiler (.text v.text) w = built
  rcases built with ⟨cause | i, w'⟩ <;> rfl

theorem invoked_commanded (prepared : prepare s variant w.tree = .ok (c, v)) :
    Commanded compiler environ overrides s variant w
      (some ((Builder.of c none overrides none environ).invoke compiler (.text v.text) w))
      (build compiler environ overrides s variant w) := by
  obtain ⟨ended, ran⟩ := invoke_invokes (Builder.of c none overrides none environ) compiler (.text v.text) w
  rw [build_conclude prepared]
  generalize (Builder.of c none overrides none environ).invoke compiler (.text v.text) w = invoked at ran ⊢
  obtain ⟨outcome, w'⟩ := invoked
  exact .invoked prepared ran

theorem build_commanded (compiler : Compiler) (environ overrides : Table String) (s : Source) (variant : Value)
    (w : Workshop) : ∃ came, Commanded compiler environ overrides s variant w came
      (build compiler environ overrides s variant w) := by
  cases prepared : prepare s variant w.tree with
  | error cause =>
    have refused : Commanded compiler environ overrides s variant w none (.fail [] cause w) := .unprepared prepared
    unfold build
    simp only [prepared]
    exact ⟨none, refused⟩
  | ok known => exact ⟨_, invoked_commanded prepared⟩

theorem report_tagged (ofBuild : cause.isOfBuild = true) : ∃ line ∈ cause.report, Tagged line := by
  obtain ⟨stage, known⟩ := Option.isSome_iff_exists.mp ofBuild
  refine ⟨_, List.mem_cons_self, .inl ⟨stage, cause.message, ?_⟩⟩
  unfold Failure.text
  rw [known]
  simp only [toString, String.append_assoc, show "❌ [" = "❌ " ++ "[" from rfl]

theorem fail_reported (ofBuild : cause.isOfBuild = true) : Reported (.fail output cause w) := by
  rw [fail_ofBuild ofBuild]
  exact .inr ⟨rfl, report_tagged ofBuild⟩

theorem fail_spoilt (file : OfFile cause) : Spoilt (.fail output cause w) := by
  obtain ⟨fault, rfl⟩ := file
  exact ⟨fault, rfl⟩

theorem conclude_reported (fails : Fails (·.isOfBuild = true) outcome) : Reported (conclude c v (outcome, w)) := by
  cases outcome with
  | error cause => exact fail_reported (fails cause rfl)
  | ok i => exact .inl rfl

theorem conclude_ends (fails : Fails (fun cause => cause.isOfBuild = true ∨ OfFile cause) outcome) :
    Reported (conclude c v (outcome, w)) ∨ Spoilt (conclude c v (outcome, w)) := by
  cases outcome with
  | error cause => exact (fails cause rfl).imp fail_reported fail_spoilt
  | ok i => exact .inl (.inl rfl)

theorem prepare_accepted (variant : Value) (loaded : s.load w.tree = .ok c) :
    (∃ v, Variant.parse variant = .ok v ∧ prepare s variant w.tree = .ok (c, v)) ∨
      ∃ fault, prepare s variant w.tree = .error (.variant fault) := by
  unfold prepare
  rw [loaded]
  cases parsed : Variant.parse variant with
  | ok v => exact .inl ⟨v, rfl, rfl⟩
  | error fault => exact .inr ⟨fault, rfl⟩

theorem missingLine_tagged (v : Variant) (pair : String × Abi) : Tagged (missingLine v pair) := by
  refine .inr ⟨v, pair.2, s!"missing {pair.1}", ?_⟩
  simp only [missingLine, toString, String.append_assoc, show ": missing " = ": " ++ "missing " from rfl]

theorem mismatchLine_tagged (v : Variant) (m : Mismatch) : Tagged (mismatchLine v m) :=
  .inr ⟨v, m.abi, s!"{m.library} is built for ELF machine {m.machine}", by
    simp only [mismatchLine, toString, String.append_assoc]⟩

theorem faultLines_tagged (failed : report.passed ≠ true) : ∃ line ∈ faultLines v report, Tagged line := by
  unfold Report.passed at failed
  unfold faultLines
  cases missing : report.missing with
  | cons pair rest => exact ⟨_, List.mem_append_left _ List.mem_cons_self, missingLine_tagged v pair⟩
  | nil =>
    cases mismatched : report.mismatched with
    | cons m rest => exact ⟨_, List.mem_append_right _ List.mem_cons_self, mismatchLine_tagged v m⟩
    | nil => simp [missing, mismatched] at failed

theorem validate_ended (prepared : prepare s variant w.tree = .ok (c, v)) : validate s variant w =
    match check w.tree c.jniLibsDir v c.architectures c.libraries with
    | .error fault => ⟨.broken (.file fault), ⟨[], []⟩, w⟩
    | .ok report =>
      if report.passed then .finish 0 (c.architectures.map (completeLine c.libraries.length)) [] w
      else .finish 1 [] (faultLines v report) w := by
  unfold validate
  simp only [prepared]
  cases check w.tree c.jniLibsDir v c.architectures c.libraries <;> rfl

theorem validate_reported (checked : check w.tree c.jniLibsDir v c.architectures c.libraries = .ok report)
    (prepared : prepare s variant w.tree = .ok (c, v)) : Reported (validate s variant w) := by
  rw [validate_ended prepared, checked]
  simp only
  split
  · exact .inl rfl
  · rename_i failed
    exact .inr ⟨rfl, faultLines_tagged failed⟩

-- Once an invocation has come back or failed as a build, a command ends or says where it failed, unless a file
-- spoils the placing; and none does where names fit and nothing is in the way.
theorem commanded_ends (loaded : s.load w.tree = .ok c) (commanded : Commanded compiler environ overrides s variant w came run)
    (heeded : ∀ outcome w', came = some (outcome, w') → Fails (·.isOfBuild = true) outcome) :
    (Reported run ∨ Spoilt run) ∧
      (c.Short → (∀ outcome w' v, came = some (outcome, w') → Variant.parse variant = .ok v →
        Unobstructed w'.tree (c.jniLibsDir.child v.text) c.architectures) → Reported run) := by
  cases commanded with
  | @unprepared cause refused =>
    have ofBuild : cause.isOfBuild = true := by
      rcases prepare_accepted variant loaded with ⟨v, _, prepared⟩ | ⟨fault, prepared⟩ <;>
        cases refused.symm.trans prepared
      rfl
    exact ⟨.inl (fail_reported ofBuild), fun _ _ => fail_reported ofBuild⟩
  | @invoked c' v outcome w' ended prepared ran =>
    have heeded := heeded outcome w' rfl
    refine ⟨conclude_ends (deliver_fails heeded), fun short clear => ?_⟩
    rcases prepare_accepted variant loaded with ⟨v', parsed, known⟩ | ⟨fault, known⟩
    · cases prepared.symm.trans known
      have clear := clear outcome w' v rfl parsed
      exact conclude_reported (deliver_clear rfl (Config.load_accepted loaded) short (parse_text v) ran heeded clear)
    · cases prepared.symm.trans known

theorem validate_ends (loaded : s.load w.tree = .ok c) (variant : Value) :
    (Reported (validate s variant w) ∨ Spoilt (validate s variant w)) ∧
      (c.Short → LinksFit w.tree → Reported (validate s variant w)) := by
  rcases prepare_accepted variant loaded with ⟨v, _, prepared⟩ | ⟨fault, prepared⟩
  · refine ⟨?_, fun short linked => ?_⟩
    · cases checked : check w.tree c.jniLibsDir v c.architectures c.libraries with
      | ok report => exact .inl (validate_reported checked prepared)
      | error fault =>
        refine .inr ⟨fault, ?_⟩
        rw [validate_ended prepared, checked]
    · have fits : ∀ abi ∈ c.architectures, ∀ library ∈ c.libraries, Fits ((abiDir c.jniLibsDir v abi).child library).names :=
        fun abi _ library member => placed_fits short (Config.load_accepted loaded) v abi member
      obtain ⟨report, checked⟩ := check_fits linked c.architectures fits
      exact validate_reported checked prepared
  · have told : Reported (validate s variant w) := by
      unfold validate
      rw [prepared]
      exact fail_reported rfl
    exact ⟨.inl told, fun _ _ => told⟩

-- The commands that build and check report what fails in the build itself. What breaks them off is a file that the
-- placing or the check cannot deal with, and nothing does where names fit and nothing is in the way.
theorem commands_reported (loaded : s.load w.tree = .ok c) (name : String) :
    (∀ came run, Commanded compiler environ overrides s (.text name) w came run →
      (∀ outcome w', came = some (outcome, w') → Fails (·.isOfBuild = true) outcome) →
      (Reported run ∨ Spoilt run) ∧
        (c.Short → (∀ outcome w' v, came = some (outcome, w') → Variant.parse (.text name) = .ok v →
          Unobstructed w'.tree (c.jniLibsDir.child v.text) c.architectures) → Reported run)) ∧
    (Reported (validate s (.text name) w) ∨ Spoilt (validate s (.text name) w)) ∧
      (c.Short → LinksFit w.tree → Reported (validate s (.text name) w)) :=
  ⟨fun _ _ commanded heeded => commanded_ends loaded commanded heeded, validate_ends loaded _⟩

def Sample.obstructed : FileTree := ⟨[], Sample.tree.entries ++ [
  (["m", "abi.yaml"], .file (Text.encode "libraries: [liba.so]\ntargets: [x86]\n") false),
  (["m", "build"], .directory), (["m", "build", "rustJniLibs"], .directory),
  (["m", "build", "rustJniLibs", "debug"], .directory),
  (["m", "build", "rustJniLibs", "debug", "x86"], .file [] false)]⟩

def Sample.declared : Config where
  modulePath := ⟨.single, ["m"]⟩
  architectures := [.x86]
  libraries := ["liba.so"]
  targetDir := ⟨.single, ["m", "build", "rust-target"]⟩
  jniLibsDir := ⟨.single, ["m", "build", "rustJniLibs"]⟩
  platform := 24
  ndkDir := none
  ndkVersion := none
  cargoBin := none
  environment := []
  arguments := []
  verbose := false
  jobs := none
  buildTypes := [("debug", "debug"), ("release", "release")]

def Sample.invoked (v : Variant) : Except Failure Invocation × Workshop :=
  (Builder.of Sample.declared none [] none Sample.surroundings).invoke (sampleCompiler 7 0) (.text v.text)
    (.opened Sample.obstructed)

theorem obstructed_loaded : Sample.source.load Sample.obstructed = .ok Sample.declared :=
  ok_of_toOption (by decide +kernel)

theorem obstructed_prepared (v : Variant) :
    prepare Sample.source (.text v.text) Sample.obstructed = .ok (Sample.declared, v) := by
  unfold prepare
  rw [obstructed_loaded, parse_text]
  rfl

theorem obstructed_invoked (v : Variant) : ∃ i, (Sample.invoked v).1 = .ok i := by
  have fine : (Sample.invoked v).1.toOption.isSome = true := by
    cases v <;> decide +kernel
  obtain ⟨i, is⟩ := Option.isSome_iff_exists.mp fine
  exact ⟨i, ok_of_toOption is⟩

instance (run : Run) : Decidable (Spoilt run) :=
  match ending : run.ending with
  | .broken (.file fault) => isTrue ⟨fault, ending⟩
  | .over | .status _ | .broken (.value _) | .broken (.key _) | .broken (.type _) | .broken (.overflow _)
  | .broken (.index _) | .broken (.noAttribute _) | .broken (.runtime _) | .broken (.leaving _) =>
    isFalse fun ⟨_, spoilt⟩ => by rw [ending] at spoilt; cases spoilt

-- Every architecture compiles, and then the file breaks the command off.
theorem obstacle_breaks_command : (∃ c, Sample.source.load Sample.obstructed = .ok c) ∧
    (∃ i, (Sample.invoked .debug).1 = .ok i) ∧
    Spoilt (build (sampleCompiler 7 0) Sample.surroundings [] Sample.source (.text Variant.debug.text)
      (.opened Sample.obstructed)) := by
  have prepared := obstructed_prepared .debug
  refine ⟨⟨_, obstructed_loaded⟩, obstructed_invoked .debug, ?_⟩
  rw [build_conclude prepared]
  decide +kernel

theorem release_unobstructed :
    Unobstructed (Sample.invoked .release).2.tree (Sample.declared.jniLibsDir.child "release") [.x86] := by
  obtain ⟨parents, plain, walked, there, absent⟩ :
      let t := (Sample.invoked .release).2.tree
      let place : Location := ["m", "build", "rustJniLibs"]
      (∀ e ∈ t.entries, t.node? e.1.dropLast = some .directory) ∧
        (∀ e ∈ t.entries, (e.2.isFile || e.2.isDirectory) = true) ∧
        (t.walk true maxLinks [] place).toOption = some place ∧ t.node? place = some .directory ∧
        t.node? (place ++ ["release"]) = none := by decide +kernel
  exact .missing (.of_entries parents) (.of_clear (.of_entries plain)) ⟨by decide, rfl,
    route_of_walk (ok_of_toOption walked) there, absent, by decide, by decide⟩

theorem obstructed_commanded (v : Variant) :
    Commanded (sampleCompiler 7 0) Sample.surroundings [] Sample.source (.text v.text) (.opened Sample.obstructed)
      (some (Sample.invoked v)) (build (sampleCompiler 7 0) Sample.surroundings [] Sample.source (.text v.text)
        (.opened Sample.obstructed)) :=
  invoked_commanded (w := .opened Sample.obstructed) (obstructed_prepared v)

theorem release_reported :
    let run := build (sampleCompiler 7 0) Sample.surroundings [] Sample.source (.text Variant.release.text)
      (.opened Sample.obstructed)
    Sample.source.load Sample.obstructed = .ok Sample.declared ∧
    Commanded (sampleCompiler 7 0) Sample.surroundings [] Sample.source (.text Variant.release.text) (.opened Sample.obstructed)
      (some (Sample.invoked .release)) run ∧
    Fails (·.isOfBuild = true) (Sample.invoked .release).1 ∧ Sample.declared.Short ∧
    Unobstructed (Sample.invoked .release).2.tree (Sample.declared.jniLibsDir.child "release") [.x86] ∧
    LinksFit Sample.obstructed ∧ Reported run ∧
      Reported (validate Sample.source (.text Variant.release.text) (.opened Sample.obstructed)) := by
  intro run
  have loaded := obstructed_loaded
  have commanded := obstructed_commanded .release
  have heeded : Fails (·.isOfBuild = true) (Sample.invoked .release).1 := by
    obtain ⟨i, fine⟩ := obstructed_invoked .release
    exact fine ▸ .ok i
  have short : Sample.declared.Short := ⟨by decide, by decide, by decide⟩
  have linked : LinksFit Sample.obstructed := .of_clear (.of_entries (by decide))
  have clear := release_unobstructed
  obtain ⟨built, checked⟩ := commands_reported (w := .opened Sample.obstructed) loaded Variant.release.text
  refine ⟨loaded, commanded, heeded, short, clear, linked, (built _ _ commanded ?_).2 short ?_, checked.2 short linked⟩
  · rintro outcome w' same
    rw [Option.some.inj same] at heeded
    exact heeded
  · rintro outcome w' v same parsed
    obtain rfl : Variant.release = v := Except.ok.inj ((parse_text .release).symm.trans parsed)
    rw [Option.some.inj same] at clear
    exact clear

end Console

end AbiBuild
