import AbiBuild.Proofs.Build.Upkeep
import AbiBuild.Proofs.Console.Reports

namespace AbiBuild.Console
open AbiBuild.Text Build FileTree Placement

-- A library of a variant, where it belongs and for the machine that it belongs to.
structure Filed (k : Location) (v : Variant) (t : FileTree) (abi : Abi) (library : String) : Prop where
  nameable : Nameable [library]
  file : ∃ content executable, t.node? (k ++ [v.text, abi.text, library]) = some (.file content executable) ∧
    ∀ machine, Elf.machine? content = some machine → machine = abi.machine

def Racked (k m : Location) : Prop := ∃ v, Rack k v m

-- The builds of a project, one after another, each in surroundings of its own: which variant it was and how it
-- ended. Nothing else changes the tree between them, and the compilers put files only where they are told to.
inductive Session (s : Source) (t : FileTree) : List (Variant × Ending) → FileTree → Prop
  | opened : Session s t [] t
  | built {log : List (Variant × Ending)} {u : FileTree} {compiler : Compiler} {environ overrides : Table String}
      {variant : Value} {v : Variant} {came : Option (Except Failure Invocation × Workshop)} {run : Run}
      (earlier : Session s t log u) (named : Variant.parse variant = .ok v)
      (outputs : ∀ c, s.load u = .ok c →
        ∀ j ∈ (Builder.of c none overrides none environ).planned u (.text v.text), j.Outputs compiler)
      (ran : Commanded compiler environ overrides s variant (.opened u) came run) :
      Session s t (log ++ [(v, run.ending)]) run.workshop.tree

def lastEnding (v : Variant) (log : List (Variant × Ending)) : Option Ending :=
  (log.reverse.find? fun entry => entry.1 = v).map Prod.snd

-- A project as it is found at first. There are no links in the directories that it builds in, and its configuration
-- lies in none of them.
structure Source.Laid (s : Source) (t : FileTree) (c : Config) : Prop where
  loaded : s.load t = .ok c
  wellFormed : t.WellFormed
  clear : ∀ l, LeadsTo t c.targetDir l ∨ LeadsTo t c.jniLibsDir l → Clear t l
  outside : ∀ m, LeadsTo t s.file m → ∀ l, LeadsTo t c.targetDir l ∨ LeadsTo t c.jniLibsDir l → ¬ l <+: m

-- The same, with the places where it compiles and where it places libraries.
structure Project (s : Source) (t : FileTree) (c : Config) (l k : Location) : Prop where
  loaded : s.load t = .ok c
  wellFormed : t.WellFormed
  target : Hosts t c.targetDir l
  jniLibs : Hosts t c.jniLibsDir k
  outside : ∀ m, LeadsTo t s.file m → ∀ names, names ≠ [] → ¬ l ++ names <+: m ∧ ¬ k ++ names <+: m

-- Inside the places of libraries, those directories are there that the paths to the configuration file and to the
-- places themselves go over.
def Source.Passable (s : Source) (c : Config) (t u : FileTree) : Prop :=
  ∀ k, LeadsTo t c.jniLibsDir k → ∀ m, GoesOver t s.file m ∨ GoesOver t c.jniLibsDir m → Racked k m →
    u.node? m = some .directory

-- A variant lasts from a moment at which its libraries were found in their places. They still lie there, and what has
-- happened since has touched directories in the places of libraries alone.
def Lasting (c : Config) (l k : Location) (v : Variant) (u : FileTree) : Prop :=
  ∃ x, Touches (Scratch l) (Racked k) x u ∧ Stands x c.jniLibsDir k ∧
    ∀ abi ∈ c.architectures, ∀ library ∈ c.libraries, Filed k v u abi library

variable {compiler : Compiler} {environ overrides : Table String} {s : Source} {variant : Value} {w w' : Workshop}
  {c : Config} {v other : Variant} {cause : Failure} {run : Run} {outcome : Except Failure Invocation} {r : Invocation}
  {came : Option (Except Failure Invocation × Workshop)} {b : Builder} {ended : List (Job × Phase)} {t u : FileTree}
  {l k : Location} {log : List (Variant × Ending)} {abi : Abi} {library : String} {files : Location → Prop}

@[simp] theorem lastEnding_snoc (v other : Variant) (log : List (Variant × Ending)) (ending : Ending) :
    lastEnding v (log ++ [(other, ending)]) = if other = v then some ending else lastEnding v log := by
  unfold lastEnding
  by_cases same : other = v
  · simp [same]
  · simp [same]

section Filing
variable (accepted : Accepted c) (member : library ∈ c.libraries)
include accepted member

theorem placed_path : (abiDir c.jniLibsDir v abi).child library = c.jniLibsDir.under [v.text, abi.text, library] := by
  rw [abiDir_child (accepted.plain library member)]
  rfl

theorem placed_notUp (v : Variant) (abi : Abi) : ∀ name ∈ [v.text, abi.text, library], name ≠ ".." :=
  notUp_of_plain (by simp [variant_plain, abi_plain, accepted.plain library member])

theorem filed_of_right (hosts : Hosts t c.jniLibsDir k)
    (right : Right t ((abiDir c.jniLibsDir v abi).child library) abi) :
    Stands t c.jniLibsDir k ∧ Filed k v t abi library := by
  obtain ⟨asked, content, read, own⟩ := right
  have notUp := placed_notUp accepted member v abi
  rw [placed_path accepted member] at asked read
  obtain ⟨stands, -⟩ := isFile_true hosts notUp (by simp) asked
  obtain ⟨-, executable, there⟩ := read_under hosts notUp (by simp) read
  obtain ⟨m, _, _, found, _⟩ := isFile_located asked
  have clear := (hosts.stands stands).2
  have nameable := locate_nameable stands clear notUp (by simp) found
  have last : Nameable [library] :=
    ⟨by simpa [FilePath.anyNul] using (List.any_eq_false.mp nameable.noNul) library (by simp),
      fun name is => nameable.fits name (by simp [List.mem_singleton.mp is])⟩
  exact ⟨stands, last, content, executable, there, own⟩

theorem right_of_filed (wellFormed : t.WellFormed) (stands : Stands t c.jniLibsDir k) (clear : Clear t k)
    (filed : Filed k v t abi library) : Right t ((abiDir c.jniLibsDir v abi).child library) abi := by
  obtain ⟨last, content, executable, there, own⟩ := filed
  have notUp := placed_notUp accepted member v abi
  have variant : Nameable [v.text] := by
    cases v <;> exact ⟨by decide, by decide⟩
  have nameable : Nameable [v.text, abi.text, library] :=
    nameable_append variant (nameable_append (abi_nameable abi) last)
  rw [placed_path accepted member]
  exact ⟨isFile_there stands clear wellFormed notUp (by simp) nameable there,
    content, read_there stands clear wellFormed notUp (by simp) nameable there, own⟩

end Filing

theorem Filed.touches (filed : Filed k v t abi library) (unmarked : library ≠ Config.markerName) (differ : other ≠ v)
    (touches : Touches (Scratch l) (Rack k other) t u) : Filed k v u abi library := by
  obtain ⟨nameable, content, executable, there, own⟩ := filed
  have still := touches.file there (placed_not_scratch unmarked) (placed_beside differ)
  exact ⟨nameable, content, executable, still.trans there, own⟩

theorem prepare_parts (prepared : prepare s variant t = .ok (c, v)) :
    s.load t = .ok c ∧ Variant.parse variant = .ok v := by
  obtain ⟨c', loaded, rest⟩ := bind_ok prepared
  obtain ⟨v', parsed, same⟩ := bind_ok rest
  cases same
  exact ⟨loaded, mapError_ok parsed⟩

theorem conclude_workshop (c : Config) (v : Variant) (outcome : Except Failure Invocation) (w : Workshop) :
    (conclude c v (outcome, w)).workshop = w := by
  cases outcome with
  | error cause => exact fail_workshop _ _ _
  | ok i => rfl

theorem conclude_fine (fine : (conclude c v (outcome, w)).ending = .status 0) : ∃ r, outcome = .ok r := by
  cases outcome with
  | error cause => exact absurd fine (fail_ending _ _ _)
  | ok i => exact ⟨i, rfl⟩

theorem deliver_touch (accepted : Accepted b.config) (wellFormed : w'.tree.WellFormed)
    (hosts : Hosts w'.tree b.config.jniLibsDir k) (parsed : Variant.parse variant = .ok v)
    (ran : b.Invokes compiler variant w outcome w' ended) :
    Touches files (Rack k v) w'.tree (b.deliver (outcome, w')).2.tree := by
  cases outcome with
  | error cause => exact .refl _ _ _
  | ok i =>
    cases checked : i.check with
    | error cause =>
      simp only [Builder.deliver, checked]
      exact .refl _ _ _
    | ok done =>
      simp only [Builder.deliver, checked]
      obtain ⟨own, -⟩ := invokes_collected ran checked
      obtain rfl : v = i.variant := Except.ok.inj (parsed.symm.trans own)
      rw [install_tree]
      exact place_touch wellFormed accepted.jniLibs hosts accepted.plain

theorem deliver_right (requested : b.requested = b.config.architectures.map fun abi => .text abi.text)
    (accepted : Accepted b.config) (parsed : Variant.parse variant = .ok v)
    (ran : b.Invokes compiler variant w outcome w' ended) (fine : (b.deliver (outcome, w')).1 = .ok r) :
    ∀ abi ∈ b.config.architectures, ∀ library ∈ b.config.libraries,
      Right (b.deliver (outcome, w')).2.tree ((abiDir b.config.jniLibsDir v abi).child library) abi := by
  cases outcome with
  | error cause => cases fine
  | ok i =>
    cases checked : i.check with
    | error cause =>
      simp only [Builder.deliver, checked] at fine
      cases fine
    | ok done =>
      simp only [Builder.deliver, checked] at fine ⊢
      obtain ⟨own, resolved, -⟩ := invokes_collected ran checked
      obtain rfl : v = i.variant := Except.ok.inj (parsed.symm.trans own)
      rw [requested] at resolved
      obtain ⟨-, -, -, report, required⟩ := install_parts fine
      rw [← Abi.resolve_own accepted.distinct resolved]
      exact require_right required

section Running
variable (only : ∀ c', s.load w.tree = .ok c' → c' = c) (named : Variant.parse variant = .ok v) (accepted : Accepted c)
  (wellFormed : w.tree.WellFormed) (target : Hosts w.tree c.targetDir l) (jniLibs : Hosts w.tree c.jniLibsDir k)
  (outputs : ∀ c, s.load w.tree = .ok c →
    ∀ j ∈ (Builder.of c none overrides none environ).planned w.tree (.text v.text), j.Outputs compiler)
  (commanded : Commanded compiler environ overrides s variant w came run)
include only named accepted commanded

-- However a command ends, it touches files where it compiles, and all that is in the places of its variant.
include wellFormed target jniLibs outputs in
theorem commanded_touch : Touches (Scratch l) (Rack k v) w.tree run.workshop.tree := by
  cases commanded with
  | unprepared refused =>
    rw [fail_workshop]
    exact .refl _ _ _
  | invoked prepared ran =>
    obtain ⟨loaded, parsed⟩ := prepare_parts prepared
    obtain rfl := only _ loaded
    obtain rfl := Except.ok.inj (named.symm.trans parsed)
    rw [conclude_workshop]
    have compiled : Touches (Scratch l) (Rack k v) w.tree _ :=
      invokes_touch accepted wellFormed target (outputs _ loaded) ran
    have steady := compiled.steady wellFormed
    exact compiled.trans (deliver_touch accepted steady.wellFormed (steady.hosts jniLibs) (parse_text v) ran)

theorem commanded_right (fine : run.ending = .status 0) : ∀ abi ∈ c.architectures, ∀ library ∈ c.libraries,
    Right run.workshop.tree ((abiDir c.jniLibsDir v abi).child library) abi := by
  cases commanded with
  | unprepared refused => exact absurd fine (fail_ending _ _ _)
  | invoked prepared ran =>
    obtain ⟨loaded, parsed⟩ := prepare_parts prepared
    obtain rfl := only _ loaded
    obtain rfl := Except.ok.inj (named.symm.trans parsed)
    obtain ⟨r, good⟩ := conclude_fine fine
    rw [conclude_workshop]
    exact deliver_right rfl accepted (parse_text v) ran good

end Running

-- The state in which a session has left a project: nothing has been touched but files in the places of either kind
-- and what is in the places of libraries, and what was built well last lasts.
structure Kept (c : Config) (l k : Location) (t : FileTree) (log : List (Variant × Ending)) (u : FileTree) : Prop where
  touches : Touches (Scratch l) (Racked k) t u
  lasting : ∀ v, lastEnding v log = some (.status 0) → Lasting c l k v u

theorem Project.still (project : Project s t c l k) (touches : Touches (Scratch l) (Racked k) t u) :
    ∀ m, LeadsTo t s.file m → u.node? m = t.node? m := by
  intro m leads
  obtain ⟨asked, -⟩ := Config.load_parts project.loaded
  obtain ⟨n, leads', -, content, executable, there⟩ := isFile_leads rfl (.refl t) asked
  obtain rfl := Leads.deterministic leads leads'
  have outside := project.outside m leads
  refine touches.file there ?_ ?_
  · rintro ⟨abi, same | ⟨p, name, same⟩⟩
    · exact (outside (markerNames abi) (markerNames_ne_nil abi)).1 (same ▸ List.prefix_refl _)
    · exact (outside (libraryNames abi p name) (by simp [libraryNames])).1 (same ▸ List.prefix_refl _)
  · rintro ⟨v, abi, inside⟩
    exact (outside [v.text, abi.text] (by simp)).2 inside

theorem Project.only (project : Project s t c l k) (touches : Touches (Scratch l) (Racked k) t u) :
    ∀ c', s.load u = .ok c' → c' = c :=
  fun _ again => Config.load_again touches.here touches.links project.loaded (project.still touches) again

theorem racked_touches (touches : Touches files (Rack k v) t u) : Touches files (Racked k) t u :=
  touches.mono (fun _ => id) fun _ inside => ⟨v, inside⟩

theorem Lasting.touches (lasting : Lasting c l k v u) (unmarked : ∀ library ∈ c.libraries, library ≠ Config.markerName)
    (differ : other ≠ v) {u' : FileTree} (touches : Touches (Scratch l) (Rack k other) u u') : Lasting c l k v u' := by
  obtain ⟨x, since, stands, filed⟩ := lasting
  exact ⟨x, since.trans (racked_touches touches), stands, fun abi among library member =>
    (filed abi among library member).touches (unmarked library member) differ touches⟩

theorem Source.Laid.project (laid : s.Laid t c) : ∃ l k, Project s t c l k := by
  obtain ⟨asked, -⟩ := Config.load_parts laid.loaded
  obtain ⟨m, leads, -⟩ := isFile_leads rfl (.refl t) asked
  obtain ⟨l, target, below⟩ := exists_hosts_beside (m := m) (fun l leadsTo => laid.clear l (.inl leadsTo))
    fun l leadsTo => laid.outside m leads l (.inl leadsTo)
  obtain ⟨k, jniLibs, below'⟩ := exists_hosts_beside (m := m) (fun k leadsTo => laid.clear k (.inr leadsTo))
    fun k leadsTo => laid.outside m leads k (.inr leadsTo)
  refine ⟨l, k, laid.loaded, laid.wellFormed, target, jniLibs, fun n leads' names some_ => ?_⟩
  obtain rfl := Leads.deterministic leads leads'
  exact ⟨below names some_, below' names some_⟩

-- One build keeps the state.
theorem kept_built (project : Project s t c l k) (kept : Kept c l k t log w.tree)
    (named : Variant.parse variant = .ok v)
    (outputs : ∀ c, s.load w.tree = .ok c →
      ∀ j ∈ (Builder.of c none overrides none environ).planned w.tree (.text v.text), j.Outputs compiler)
    (commanded : Commanded compiler environ overrides s variant w came run) :
    Kept c l k t (log ++ [(v, run.ending)]) run.workshop.tree := by
  have only := project.only kept.touches
  have accepted := Config.load_accepted project.loaded
  have steady := kept.touches.steady project.wellFormed
  have touches := commanded_touch only named accepted steady.wellFormed (steady.hosts project.target)
    (steady.hosts project.jniLibs) outputs commanded
  refine ⟨kept.touches.trans (racked_touches touches), fun other fine => ?_⟩
  rw [lastEnding_snoc] at fine
  split at fine
  · rename_i same
    subst same
    have hosts := (steady.trans (touches.steady steady.wellFormed)).hosts project.jniLibs
    have right := commanded_right only named accepted commanded (Option.some.inj fine)
    have filed := fun abi among library member => filed_of_right accepted member hosts (right abi among library member)
    obtain ⟨abi, among⟩ := List.exists_mem_of_ne_nil _ (Config.load_architectures project.loaded)
    obtain ⟨library, member⟩ := List.exists_mem_of_ne_nil _ accepted.nonempty
    exact ⟨run.workshop.tree, .refl _ _ _, (filed abi among library member).1,
      fun abi among library member => (filed abi among library member).2⟩
  · rename_i differ
    exact (kept.lasting other fine).touches (Config.load_unmarked project.loaded) differ touches

theorem session_kept (project : Project s t c l k) (session : Session s t log u) : Kept c l k t log u := by
  -- Induction on the builds.
  induction session with
  | opened => exact ⟨.refl _ _ _, fun v fine => by cases fine⟩
  | built earlier named outputs ran ih => exact kept_built project ih named outputs ran

-- The way to the places is there again if the directories are that it leads over inside them. What lasts is found
-- right then.
theorem lasting_right (project : Project s t c l k) (kept : Kept c l k t log u) (lasting : Lasting c l k v u)
    (way : LeadsTo t c.jniLibsDir k → ∀ m, GoesOver t c.jniLibsDir m → Racked k m → u.node? m = some .directory) :
    LeadsTo t c.jniLibsDir k ∧ ∀ abi ∈ c.architectures, ∀ library ∈ c.libraries,
      Right u ((abiDir c.jniLibsDir v abi).child library) abi := by
  obtain ⟨x, since, stands, filed⟩ := lasting
  have steady := kept.touches.steady project.wellFormed
  have here : t.here = x.here := kept.touches.here.symm.trans since.here
  have same : SameLinks x t := since.links.trans kept.touches.links.symm
  have leads := stands.leadsTo.congr here same
  have there : ∀ m, GoesOver x c.jniLibsDir m → u.node? m = some .directory := by
    intro m passes
    rcases since.directory (stands.passes passes) with directory | racked
    · exact directory
    · refine way leads m ?_ racked
      unfold GoesOver at passes ⊢
      rw [here]
      exact passes.congr same
  obtain ⟨stays, -⟩ := stands.stays since.here there fun m name target _ link => (since.links _ _).mp link
  have clear := ((steady.hosts project.jniLibs).stands stays).2
  exact ⟨leads, fun abi among library member => right_of_filed (Config.load_accepted project.loaded) member
    steady.wellFormed stays clear (filed abi among library member)⟩

-- A build that ended well stays valid through whatever builds follow, until its variant is built again: the check of
-- the variant passes as long as those directories are there that the ways to the configuration file and to the
-- places of the libraries lead over inside these places.
theorem builds_stay_valid (laid : s.Laid t c) (session : Session s t log u)
    (last : lastEnding v log = some (.status 0)) (passable : s.Passable c t u)
    (named : Variant.parse variant = .ok v) : (validate s variant (.opened u)).ending = .status 0 := by
  obtain ⟨l, k, project⟩ := laid.project
  have kept := session_kept project session
  obtain ⟨leads, right⟩ := lasting_right project kept (kept.lasting v last)
    fun leads m passes => passable k leads m (.inr passes)
  have again : s.load u = .ok c := by
    refine Config.load_stays kept.touches.here kept.touches.links laid.loaded (project.still kept.touches) ?_
    intro m passes directory
    exact (kept.touches.directory directory).elim id (passable k leads m (.inl passes))
  have prepared : prepare s variant (Workshop.opened u).tree = .ok (c, v) := by
    unfold prepare Workshop.opened
    rw [again, named]
    rfl
  have checked : check (Workshop.opened u).tree c.jniLibsDir v c.architectures c.libraries = .ok .empty :=
    check_right right
  rw [validate_ended prepared, checked]
  rfl

def Sample.around : List String := ["j", "release", "x86", "sub", "..", "..", "..", ".."]

def Sample.projectWith (jniLibs : String) : FileTree := ⟨[], Sample.tree.entries ++ [
  (["m", "abi.yaml"], .file (Text.encode s!"targets: x86\nlibraries: liba.so\njni_libs_dir: {jniLibs}") false),
  (["j"], .directory), (["j", "release"], .directory), (["j", "release", "x86"], .directory),
  (["j", "release", "x86", "sub"], .directory)]⟩

def Sample.roundabout : FileTree := Sample.projectWith "/j/release/x86/sub/../../../../j"

def Sample.declaredAt (jniLibs : List String) : Config := { Sample.declared with jniLibsDir := ⟨.single, jniLibs⟩ }

def Sample.windingSource : Source := ⟨⟨.single, Sample.around ++ ["m", "abi.yaml"]⟩, some ⟨.single, ["m"]⟩, Markup.read⟩

def Sample.buildOf (s : Source) (v : Variant) (t : FileTree) : Run :=
  build (sampleCompiler 7 0) Sample.surroundings [] s (.text v.text) (.opened t)

def Sample.twice (s : Source) (t : FileTree) : Run × Run :=
  let first := Sample.buildOf s .debug t
  (first, Sample.buildOf s .release first.workshop.tree)

def Sample.obeys (s : Source) (v : Variant) (t : FileTree) : Bool :=
  (s.load t).toOption.all fun c => ((Builder.of c none [] none Sample.surroundings).planned t (.text v.text)).all
    fun j => j.command.outputDir = j.outputDir j.profile

theorem sample_outputs {j : Job} (own : j.command.outputDir = j.outputDir j.profile) (byte : UInt8) (exit : Int) :
    j.Outputs (sampleCompiler byte exit) := by
  rintro process started item member
  rw [ofBehaviours_started started, behaviour_items] at member
  have only : item = (j.command.outputDir.child "liba.so", .file [byte] false) := List.mem_singleton.mp member
  exact ⟨j.profile, "liba.so", [byte], false, by decide, by rw [only, own]⟩

theorem session_built (earlier : Session s t log u) (v : Variant) (obeys : Sample.obeys s v u = true) :
    Session s t (log ++ [(v, (Sample.buildOf s v u).ending)]) (Sample.buildOf s v u).workshop.tree := by
  obtain ⟨came, ran⟩ := build_commanded (sampleCompiler 7 0) Sample.surroundings [] s (.text v.text) (.opened u)
  refine .built earlier (parse_text v) (fun c loaded j member => ?_) ran
  rw [Sample.obeys, loaded, Except.toOption, Option.all_some] at obeys
  exact sample_outputs (of_decide_eq_true (List.all_eq_true.mp obeys j member)) 7 0

def Sample.Starts (s : Source) (t : FileTree) (c : Config) : Prop :=
  (s.load t).toOption = some c ∧ Sample.obeys s .debug t = true ∧
    Sample.obeys s .release (Sample.twice s t).1.workshop.tree = true ∧ (Sample.twice s t).1.ending = .status 0

instance (s : Source) (t : FileTree) (c : Config) : Decidable (Sample.Starts s t c) :=
  inferInstanceAs (Decidable (_ ∧ _ ∧ _ ∧ _))

theorem session_twice (starts : Sample.Starts s t c) :
    Session s t [(.debug, (Sample.twice s t).1.ending), (.release, (Sample.twice s t).2.ending)]
      (Sample.twice s t).2.workshop.tree :=
  session_built (session_built .opened .debug starts.2.1) .release starts.2.2.1

theorem twice_last (starts : Sample.Starts s t c) :
    lastEnding .debug [(.debug, (Sample.twice s t).1.ending), (.release, (Sample.twice s t).2.ending)] =
      some (.status 0) := congrArg some starts.2.2.2

theorem around_leads (clear : Clear t []) : Leads t [] Sample.around [] := by
  have down : ∀ m : Location, m ≠ [] → ∀ target, t.node? m ≠ some (.link target) := fun m some_ => clear m some_
  refine .down (by decide) (down _ (by decide)) (.down (by decide) (down _ (by decide)) ?_)
  refine .down (by decide) (down _ (by decide)) (.down (by decide) (down _ (by decide)) ?_)
  exact .up (.up (.up (.up .nil)))

theorem sample_clear (jniLibs : String) (l : Location) : Clear (Sample.projectWith jniLibs) l :=
  .of_entries fun e member => by
    simp only [Sample.projectWith, Sample.tree, List.cons_append, List.nil_append, List.mem_cons, List.not_mem_nil,
      or_false] at member
    rcases member with rfl | rfl | rfl | rfl | rfl | rfl | rfl | rfl | rfl | rfl <;> rfl

theorem sample_laid {jniLibs : String} {names : List String}
    (starts : Sample.Starts s (Sample.projectWith jniLibs) (Sample.declaredAt names))
    (wellFormed : (Sample.projectWith jniLibs).WellFormed)
    (file : LeadsTo (Sample.projectWith jniLibs) s.file ["m", "abi.yaml"])
    (places : Leads (Sample.projectWith jniLibs) [] names ["j"]) :
    s.Laid (Sample.projectWith jniLibs) (Sample.declaredAt names) := by
  have free := sample_clear jniLibs
  have target : LeadsTo (Sample.projectWith jniLibs) (Sample.declaredAt names).targetDir
      ["m", "build", "rust-target"] :=
    leads_plain (free []) (show ∀ name ∈ ["m", "build", "rust-target"], name ≠ ".." by decide)
  refine ⟨ok_of_toOption starts.1, wellFormed, fun l _ => free l, fun m leads l either => ?_⟩
  obtain rfl := Leads.deterministic leads file
  rcases either with leads' | leads'
  · obtain rfl := Leads.deterministic leads' target
    decide
  · obtain rfl := Leads.deterministic leads' places
    decide

theorem release_leaves_debug_valid :
    let t := Sample.projectWith "/j"
    let after := Sample.twice Sample.source t
    let log := [(Variant.debug, after.1.ending), (.release, after.2.ending)]
    Sample.source.Laid t (Sample.declaredAt ["j"]) ∧ Session Sample.source t log after.2.workshop.tree ∧
    lastEnding .debug log = some (.status 0) ∧
    Sample.source.Passable (Sample.declaredAt ["j"]) t after.2.workshop.tree ∧
    Variant.parse (.text "debug") = .ok .debug ∧
    (validate Sample.source (.text "debug") (.opened after.2.workshop.tree)).ending = .status 0 := by
  intro t after log
  have starts : Sample.Starts Sample.source t (Sample.declaredAt ["j"]) := by decide +kernel
  have free := sample_clear "/j" []
  have places : Leads t [] ["j"] ["j"] := leads_plain free (by decide)
  have laid : Sample.source.Laid t (Sample.declaredAt ["j"]) :=
    sample_laid starts (.of_entries (by decide)) (leads_plain free (by decide)) places
  have session := session_twice starts
  have last := twice_last starts
  -- Neither path goes as deep as the places of libraries are.
  have passable : Sample.source.Passable (Sample.declaredAt ["j"]) t after.2.workshop.tree := by
    rintro k leads m passes ⟨v, abi, inside⟩
    obtain rfl := Leads.deterministic leads places
    have deep : 3 ≤ m.length := inside.length_le
    have short : m.length ≤ 2 := by
      rcases passes with passes | passes
      · obtain ⟨front, begins, rfl⟩ := passes_plain free (by decide) passes
        exact begins.length_le
      · obtain ⟨front, begins, rfl⟩ := passes_plain free (by decide) passes
        exact Nat.le_trans begins.length_le (by decide)
    omega
  exact ⟨laid, session, last, passable, parse_text .debug,
    builds_stay_valid laid session last passable (parse_text .debug)⟩

-- What a session would never do if no path turned back inside the places of libraries.
def Source.StaysValid (s : Source) (t : FileTree) : Prop :=
  ∀ log u v, Session s t log u → lastEnding v log = some (.status 0) →
    (validate s (.text v.text) (.opened u)).ending = .status 0

theorem not_staysValid (starts : Sample.Starts s t c)
    (invalid : (validate s (.text "debug") (.opened (Sample.twice s t).2.workshop.tree)).ending ≠ .status 0) :
    ¬ s.StaysValid t :=
  fun stays => invalid (stays _ _ .debug (session_twice starts) (twice_last starts))

-- The path to the places of libraries, or that to the configuration, turns back in a directory that goes with the
-- release build, and with it goes the way to what the debug build has placed.
theorem turning_back_loses_builds :
    (Sample.source.Laid Sample.roundabout (Sample.declaredAt (Sample.around ++ ["j"])) ∧
      ¬ Sample.source.StaysValid Sample.roundabout) ∧
    (Sample.windingSource.Laid (Sample.projectWith "/j") (Sample.declaredAt ["j"]) ∧
      ¬ Sample.windingSource.StaysValid (Sample.projectWith "/j")) := by
  constructor
  · have free : Clear Sample.roundabout [] := sample_clear _ []
    obtain ⟨starts, invalid⟩ :
        Sample.Starts Sample.source Sample.roundabout (Sample.declaredAt (Sample.around ++ ["j"])) ∧
        (validate Sample.source (.text "debug")
          (.opened (Sample.twice Sample.source Sample.roundabout).2.workshop.tree)).ending ≠ .status 0 := by
      decide +kernel
    exact ⟨sample_laid starts (.of_entries (by decide)) (leads_plain free (by decide))
      ((around_leads free).append (leads_plain free (by decide))), not_staysValid starts invalid⟩
  · have free := sample_clear "/j" []
    obtain ⟨starts, invalid⟩ :
        Sample.Starts Sample.windingSource (Sample.projectWith "/j") (Sample.declaredAt ["j"]) ∧
        (validate Sample.windingSource (.text "debug")
          (.opened (Sample.twice Sample.windingSource (Sample.projectWith "/j")).2.workshop.tree)).ending ≠
            .status 0 := by
      decide +kernel
    exact ⟨sample_laid starts (.of_entries (by decide)) ((around_leads free).append (leads_plain free (by decide)))
      (leads_plain free (by decide)), not_staysValid starts invalid⟩

end AbiBuild.Console
