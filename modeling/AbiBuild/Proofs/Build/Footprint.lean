import AbiBuild.Proofs.Build.Outcomes
import AbiBuild.Proofs.Placement.Bounds

namespace AbiBuild.Build
open AbiBuild.Text FileTree Placement

-- All that the process puts down, undisturbed or stopped, is files and directories in the job's own directory.
def Job.Penned (j : Job) (compiler : Compiler) (root : FilePath) : Prop :=
  ∀ process, compiler j.command = .started process →
    ∀ item ∈ process.writes ++ process.left, Inside root j.abi.text item

-- A job that has made its directory has one to work in.
def Housed (root : FilePath) (t : FileTree) (phase : Phase) : Prop :=
  3 ≤ stage phase → phase.isOver = false → ∃ k, Stands t root k

def Builder.works (b : Builder) (t : FileTree) (variant : Value) : List FilePath :=
  match b.plan t variant with
  | .ok plan => plan.invocation.architectures.map b.config.abiDir
  | .error _ => []

def Builder.places (b : Builder) (t : FileTree) (variant : Value) : List FilePath :=
  match b.plan t variant with
  | .ok plan => plan.invocation.architectures.map (abiDir b.config.jniLibsDir plan.invocation.variant)
  | .error _ => []

def brokenAt : Except Failure Invocation → Option Stage
  | .error cause => cause.stage?
  | .ok _ => none

structure Builder.Enclosed (b : Builder) (compiler : Compiler) (variant : Value) (t : FileTree) : Prop where
  resolved : ∃ s base data, Config.resolve s base data = .ok b.config
  wellFormed : t.WellFormed
  target : ∀ l, LeadsTo t b.config.targetDir l → Clear t l
  jniLibs : ∀ l, LeadsTo t b.config.jniLibsDir l → Clear t l
  penned : ∀ j ∈ b.planned t variant, j.Penned compiler b.config.targetDir

variable {b : Builder} {compiler : Compiler} {variant : Value} {t u : FileTree} {root : FilePath} {l k : Location}
  {j : Job} {jobs : List Job} {phase next : Phase} {w w' : Workshop} {made : Location → Prop} {region : Location}
  {p last : Pool} {moves : List Move} {workers : Nat} {cause : Failure} {i : Invocation} {phases : List Phase}
  {outcome : Except Failure Invocation} {ended : List (Job × Phase)} {plan : Builder.Plan}

theorem Housed.changes (housed : Housed root t phase) (changes : Changes region made t u) : Housed root u phase := by
  intro late notOver
  obtain ⟨k, stands⟩ := housed late notOver
  exact ⟨k, changes.stands stands⟩

theorem acts_penned (wellFormed : t.WellFormed) (absolute : root.root ≠ .relative) (hosts : Hosts t root l)
    (homed : j.Homed root) (penned : j.Penned compiler root) (started : j.Started compiler phase)
    (housed : Housed root t phase) (acts : j.Acts compiler phase t next u) :
    Changes (l ++ [j.abi.text]) (Along t j.home.root j.home.names) t u := by
  rcases acts_leaves wellFormed absolute hosts homed acts with changes | ⟨process, own, items, among, rfl⟩
  · exact changes
  · have there : ∃ k, Stands t root k := by
      cases phase with
      | running => exact housed (by simp [stage]) rfl
      | stopping => exact housed (by simp [stage]) rfl
      | exited => exact housed (by simp [stage]) rfl
      | unmarking => exact housed (by simp [stage]) rfl
      | _ => cases own
    obtain ⟨k, stands⟩ := there
    obtain ⟨stands, clear⟩ := hosts.stands stands
    have put := depositAll_parallel (.refl stands clear) (abi_notUp j.abi _ (by simp)) fun item member =>
      penned process (started process own) item (among item member)
    exact put.changes.mono fun _ impossible => impossible.elim

theorem acts_housed (wellFormed : t.WellFormed) (absolute : root.root ≠ .relative) (hosts : Hosts t root l)
    (homed : j.Homed root) (changes : Changes region made t u) (housed : Housed root t phase)
    (acts : j.Acts compiler phase t next u) : Housed root u next := by
  intro late notOver
  have lost : j.Lost next → ∃ k, Stands u root k := fun lost => by
    rw [Lost.isOver lost] at notOver
    cases notOver
  have earlier : 3 ≤ stage phase → phase.isOver = false → ∃ k, Stands u root k := housed.changes changes
  cases acts with
  | begun => simp [stage] at late
  | discarded => simp [stage] at late
  | housed fine =>
    rw [homed.home] at fine ⊢
    exact ⟨l, stands_of_made wellFormed absolute hosts (abi_notUp j.abi) (by simp) fine⟩
  | finished done =>
    rw [done] at notOver
    cases notOver
  | built => cases notOver
  | cancelled gone => exact lost gone
  | undiscarded _ gone => exact lost gone
  | unhoused _ gone => exact lost gone
  | uncleared _ gone => exact lost gone
  | unmarked _ gone => exact lost gone
  | unlaunched gone => exact lost gone
  | stopped gone => exact lost gone
  | failed gone => exact lost gone
  | kept _ gone => exact lost gone
  | cleared => exact earlier (by simp [stage]) rfl
  | marked => exact earlier (by simp [stage]) rfl
  | launched => exact earlier (by simp [stage]) rfl
  | waited => exact earlier (by simp [stage]) rfl
  | called => exact earlier (by simp [stage]) rfl
  | exited => exact earlier (by simp [stage]) rfl
  | collected => exact earlier (by simp [stage]) rfl

theorem step_penned (wellFormed : w.tree.WellFormed) (absolute : root.root ≠ .relative)
    (hosts : Hosts w.tree root l) (homed : j.Homed root) (penned : j.Penned compiler root)
    (started : j.Started compiler phase) (housed : Housed root w.tree phase) :
    Within [j.home] w.tree (j.step compiler phase w).2.tree := by
  rw [homed.home]
  refine .of_hosted hosts (abi_notUp j.abi) (by simp) (by simp) fun k hosts => ?_
  have changes := acts_penned wellFormed absolute hosts homed penned started housed (step_acts ..)
  rw [homed.home] at changes
  exact changes.alters

theorem penned_compatible (wellFormed : t.WellFormed) (absolute : root.root ≠ .relative) (hosts : Hosts t root l)
    (homed : ∀ j ∈ jobs, j.Homed root) (penned : ∀ j ∈ jobs, j.Penned compiler root) :
    Compatible compiler jobs (fun w => Within (jobs.map Job.home) t w.tree)
      (fun j phase w => j.Started compiler phase ∧ Housed root w.tree phase) := by
  have changes : ∀ j ∈ jobs, ∀ phase (w : Workshop), Within (jobs.map Job.home) t w.tree →
      j.Started compiler phase ∧ Housed root w.tree phase →
      Changes (l ++ [j.abi.text]) (Along w.tree j.home.root j.home.names) w.tree
        (j.step compiler phase w).2.tree := by
    intro j member phase w common own
    have steady := common.steady wellFormed
    exact acts_penned steady.wellFormed absolute (steady.hosts hosts) (homed j member) (penned j member) own.1
      own.2 (step_acts ..)
  constructor
  case common =>
    intro j member phase w common own
    have steady := common.steady wellFormed
    refine common.trans wellFormed (Within.mono (step_penned steady.wellFormed absolute (steady.hosts hosts)
      (homed j member) (penned j member) own.1 own.2) fun path among => ?_)
    rw [List.mem_singleton.mp among]
    exact List.mem_map_of_mem member
  case own =>
    intro j member phase w common own
    have steady := common.steady wellFormed
    exact ⟨acts_started own.1 (step_acts ..), acts_housed steady.wellFormed absolute (steady.hosts hosts)
      (homed j member) (changes j member phase w common own) own.2 (step_acts ..)⟩
  case others =>
    intro j member phase w common own k _ _ other theirs
    exact ⟨theirs.1, theirs.2.changes (changes j member phase w common own)⟩
  case cancel => exact fun w common => common
  case ownCancel => exact fun j _ phase w _ own => own

theorem step_broken (broke : (j.step compiler phase w).1 = .broken cause) :
    phase = .broken cause ∨ ∃ mishap, cause = .mishap mishap := by
  have prepared : ∀ r next v, next.isOver = false → (j.afterPreparing r next v).1 = .broken cause →
      ∃ mishap, cause = .mishap mishap := by
    intro r next v notOver broke
    rcases afterPreparing_cases j r next v with further | ⟨fault, _, failed | mishap⟩
    · rw [← further, broke] at notOver
      cases notOver
    · cases broke.symm.trans failed
    · cases broke.symm.trans mishap
      exact ⟨.file fault, rfl⟩
  cases phase with
  | ready =>
    simp only [Job.step] at broke
    split at broke <;> cases broke
  | discarding => exact .inr (prepared _ .makingHome _ rfl broke)
  | makingHome => exact .inr (prepared _ .clearing _ rfl broke)
  | clearing => exact .inr (prepared _ .marking _ rfl broke)
  | marking => exact .inr (prepared _ .starting _ rfl broke)
  | starting =>
    simp only [Job.step] at broke
    generalize taken : j.launch compiler w = r at broke
    cases launches taken with
    | unfit =>
      cases broke
      exact .inr ⟨_, rfl⟩
    | _ => cases broke
  | running process polls =>
    simp only [Job.step, Job.poll] at broke
    split at broke
    · split at broke <;> cases broke
    · cases broke
  | stopping process =>
    simp only [Job.step] at broke
    generalize taken : j.stop process w = r at broke
    cases stops taken with
    | unread =>
      cases broke
      exact .inr ⟨_, rfl⟩
    | called => cases broke
  | exited process =>
    simp only [Job.step] at broke
    generalize taken : j.judge process w = r at broke
    cases judges taken with
    | unread =>
      cases broke
      exact .inr ⟨_, rfl⟩
    | uncollected =>
      cases broke
      exact .inr ⟨_, rfl⟩
    | _ => cases broke
  | unmarking process artifacts =>
    simp only [Job.step, Job.unmark] at broke
    split at broke
    · cases broke
      exact .inr ⟨_, rfl⟩
    · cases broke
  | ended => cases broke
  | broken => exact .inl broke

theorem breakage_broken (broke : Pool.breakage phases = some cause) : .broken cause ∈ phases := by
  induction phases with
  | nil => cases broke
  | cons phase rest ih =>
    cases phase with
    | broken own =>
      cases broke
      exact List.mem_cons_self
    | _ => exact List.mem_cons_of_mem _ (ih broke)

theorem gather_failure (distinct : (jobs.map Job.abi).Nodup)
    (reached : Pool.Reaches compiler workers (Pool.start jobs w) moves last)
    (failed : Pool.gather i (last.jobs.map Prod.snd) = .error cause) :
    ∃ mishap, cause = .mishap mishap := by
  have compatible : Compatible compiler jobs (fun _ => True)
      (fun _ phase _ => ∀ cause, phase = .broken cause → ∃ mishap, cause = .mishap mishap) := by
    refine ⟨fun _ _ _ _ _ _ => trivial, fun j _ phase w _ own cause broke => ?_,
      fun _ _ _ _ _ _ _ _ _ _ theirs => theirs, fun _ _ => trivial, fun _ _ _ _ _ own => own⟩
    rcases step_broken broke with before | mishap
    · exact own cause before
    · exact mishap
  have sound := reaches_sound compatible distinct (start_sound trivial fun _ _ _ broke => by cases broke) reached
  obtain ⟨s, member, phase⟩ := List.mem_map.mp (breakage_broken (gather_error failed))
  exact sound.own s member cause phase

theorem check_failure (failed : i.check = .error cause) : cause.stage? = some .invocation := by
  unfold Invocation.check at failed
  split at failed <;> cases failed <;> rfl

theorem install_broken (checked : i.check = .ok ()) :
    brokenAt (b.install i w).1 = none ∨ brokenAt (b.install i w).1 = some .placement := by
  have onFile : ∀ cause : Failure, (∃ fault, cause = .mishap (.file fault)) → cause.stage? = none := by
    rintro _ ⟨fault, rfl⟩
    rfl
  generalize installed : (b.install i w).1 = outcome
  cases install_cases installed with
  | unplaced failed => exact .inl (onFile _ (place_failure checked failed))
  | unmet _ required =>
    rcases require_failure required with file | placement
    · exact .inl (onFile _ file)
    · exact .inr placement
  | installed _ _ => exact .inl rfl

theorem plan_homes (planned : b.plan t variant = .ok plan) : plan.jobs.map Job.home = b.works t variant := by
  obtain ⟨v, p, architectures, cargo, ndk, _, _, _, _, invocation, jobs⟩ := plan_parts planned
  unfold Builder.works
  rw [planned]
  simp only [invocation, Invocation.start, jobs, List.map_map]
  rfl

theorem runs_within (accepted : Accepted b.config) (wellFormed : w.tree.WellFormed)
    (clear : ∀ l, LeadsTo w.tree b.config.targetDir l → Clear w.tree l)
    (penned : ∀ j ∈ plan.jobs, j.Penned compiler b.config.targetDir)
    (runs : b.Runs compiler variant w plan moves last) :
    Within (b.works w.tree variant) w.tree last.workshop.tree := by
  obtain ⟨l, hosts⟩ := exists_hosts clear
  have homed := fun j member => (plan_homed accepted runs.planned j member).1
  have sound := reaches_sound (penned_compatible wellFormed accepted.target hosts homed penned)
    (plan_distinct runs.planned) (start_sound (w := w.noting _) (.refl _ _) fun j member =>
      ⟨fun process found => (by cases found), fun late _ => (by simp [stage] at late)⟩) runs.reached
  rw [← plan_homes runs.planned]
  exact sound.common

-- However an invocation ends, and whatever it says, it stays within the directories it compiles in.
theorem invokes_within (enclosed : b.Enclosed compiler variant w.tree)
    (ran : b.Invokes compiler variant w outcome w' ended) : Within (b.works w.tree variant) w.tree w'.tree ∧
      ∀ cause, outcome = .error cause →
        w'.calls = w.calls ∧ w'.tree = w.tree ∨ ∃ mishap, cause = .mishap mishap := by
  cases ran with
  | unplanned => exact ⟨.refl _ _, fun _ _ => .inl ⟨rfl, rfl⟩⟩
  | unworkable => exact ⟨.refl _ _, fun _ _ => .inl ⟨rfl, rfl⟩⟩
  | ran planned workable reached finished =>
    obtain ⟨_, _, _, resolved⟩ := enclosed.resolved
    have penned := enclosed.penned
    rw [planned_jobs planned] at penned
    exact ⟨runs_within (Config.resolve_accepted resolved) enclosed.wellFormed enclosed.target penned
      ⟨planned, workable, reached⟩, fun cause failed => .inr (gather_failure (plan_distinct planned) reached failed)⟩

theorem invokes_kept (ran : b.Invokes compiler variant w (.ok i) w' ended) :
    ∃ plan, b.plan w.tree variant = .ok plan ∧ i.variant = plan.invocation.variant ∧
      i.architectures = plan.invocation.architectures := by
  generalize made : (Except.ok i : Except Failure Invocation) = outcome at ran
  cases ran with
  | unplanned => cases made
  | unworkable => cases made
  | @ran plan moves last planned workable reached finished =>
    obtain ⟨_, rfl⟩ := gather_ok made.symm
    exact ⟨plan, planned, record_kept.1, record_kept.2.2⟩

theorem install_within {v : Workshop} (enclosed : b.Enclosed compiler variant w.tree)
    (ran : b.Invokes compiler variant w (.ok i) v ended) :
    Within (b.places w.tree variant) v.tree (b.install i v).2.tree := by
  obtain ⟨_, _, _, resolved⟩ := enclosed.resolved
  have accepted := Config.resolve_accepted resolved
  have steady := (invokes_within enclosed ran).1.steady enclosed.wellFormed
  obtain ⟨k, hosts⟩ := exists_hosts enclosed.jniLibs
  obtain ⟨plan, planned, variant, architectures⟩ := invokes_kept ran
  rw [install_tree]
  refine place_within steady.wellFormed accepted.jniLibs (steady.hosts hosts) accepted.plain fun abi member => ?_
  unfold Builder.places
  rw [planned, variant]
  exact List.mem_map_of_mem (architectures ▸ member)

theorem works_apart (clear : ∀ l, LeadsTo t b.config.targetDir l → Clear t l)
    (apart : Apart t b.config.targetDir k) :
    ∀ path ∈ b.works t variant, Apart t path k := by
  intro path member
  unfold Builder.works at member
  split at member
  · obtain ⟨abi, _, rfl⟩ := List.mem_map.mp member
    unfold Config.abiDir
    rw [FilePath.child_plain (abi_plain abi)]
    exact apart.under clear (abi_notUp abi)
  · cases member

theorem places_apart {v other : Variant} (enclosed : b.Enclosed compiler variant t)
    (parsed : Variant.parse variant = .ok v) (differ : other ≠ v) (leads : LeadsTo t b.config.jniLibsDir k)
    (way : ∀ m, Along t b.config.jniLibsDir.root b.config.jniLibsDir.names m → ¬ k ++ [other.text] <+: m) :
    ∀ path ∈ b.places t variant, Apart t path (k ++ [other.text]) := by
  obtain ⟨l, hosts⟩ := exists_hosts enclosed.jniLibs
  obtain ⟨rfl, clear⟩ := hosts k leads
  have notUp : ∀ name ∈ [v.text], name ≠ ".." := @notUp_of_plain [v.text] (by simpa using variant_plain v)
  have away : ¬ k ++ [v.text] <+: k ++ [other.text] := by
    intro inside
    have equal := List.singleton_inj.mp (((List.prefix_append_right_inj k).mp inside).eq_of_length rfl)
    have same := parse_text v
    rw [equal, parse_text] at same
    cases same
    exact differ rfl
  have own : Apart t (b.config.jniLibsDir.under [v.text]) (k ++ [other.text]) := by
    constructor
    · intro m leads
      rw [leadsTo_under hosts notUp leads]
      exact away
    · intro m along inside
      rcases @along_last _ _ _ _ [] _ hosts notUp along with before | rfl
      · rw [FilePath.under_nil] at before
        exact way m before inside
      · exact away (inside.eq_of_length (by simp) ▸ List.prefix_refl _)
  have below : ∀ m, LeadsTo t (b.config.jniLibsDir.under [v.text]) m → Clear t m := by
    intro m leads
    rw [leadsTo_under hosts notUp leads]
    exact clear.under _
  intro path member
  unfold Builder.places at member
  split at member
  · rename_i plan planned
    obtain ⟨abi, _, rfl⟩ := List.mem_map.mp member
    obtain ⟨found, p, architectures, cargo, ndk, asked, _, _, _, invocation, _⟩ := plan_parts planned
    rw [parsed] at asked
    cases asked
    rw [invocation, abiDir_eq]
    simp only [Invocation.start]
    rw [← FilePath.under_under]
    exact own.under below (abi_notUp abi)
  · cases member

theorem builds_broken (enclosed : b.Enclosed compiler variant w.tree)
    (ran : b.Builds compiler variant w outcome w' ended) :
    brokenAt outcome = none ∨ brokenAt outcome = some .placement ∨
      Within (b.works w.tree variant) w.tree w'.tree ∧
        (brokenAt outcome = some .invocation ∨ w'.calls = w.calls ∧ w'.tree = w.tree) := by
  cases ran with
  | uncompiled ran =>
    obtain ⟨within, causes⟩ := invokes_within enclosed ran
    rcases causes _ rfl with same | ⟨fault, rfl⟩
    · exact .inr (.inr ⟨within, .inr same⟩)
    · exact .inl rfl
  | unfinished ran failed =>
    exact .inr (.inr ⟨(invokes_within enclosed ran).1, .inl (check_failure failed)⟩)
  | compiled ran checked =>
    rcases install_broken checked with none_ | placement
    · exact .inl none_
    · exact .inr (.inl placement)

-- Whatever happens, a build stays within the directories it compiles in and those it places libraries in.
theorem builds_within (enclosed : b.Enclosed compiler variant w.tree)
    (ran : b.Builds compiler variant w outcome w' ended) :
    Within (b.works w.tree variant ++ b.places w.tree variant) w.tree w'.tree := by
  have works : ∀ {u}, Within (b.works w.tree variant) w.tree u →
      Within (b.works w.tree variant ++ b.places w.tree variant) w.tree u :=
    fun within => within.mono fun path member => List.mem_append_left _ member
  cases ran with
  | uncompiled ran => exact works (invokes_within enclosed ran).1
  | unfinished ran failed => exact works (invokes_within enclosed ran).1
  | compiled ran checked =>
    refine (works (invokes_within enclosed ran).1).trans enclosed.wellFormed ?_
    exact (install_within enclosed ran).mono fun path member => List.mem_append_right _ member

theorem build_stays_within (enclosed : b.Enclosed compiler variant w.tree)
    (ran : b.Builds compiler variant w outcome w' ended) :
    (brokenAt outcome = some .resolution ∨ brokenAt outcome = some .configuration →
      w'.calls = w.calls ∧ w'.tree = w.tree) ∧
    (brokenAt outcome = some .invocation → Within (b.works w.tree variant) w.tree w'.tree ∧
      ∀ k, Apart w.tree b.config.targetDir k → SameAt k w.tree w'.tree) ∧
    Within (b.works w.tree variant ++ b.places w.tree variant) w.tree w'.tree ∧
    ∀ v other k, Variant.parse variant = .ok v → other ≠ v → LeadsTo w.tree b.config.jniLibsDir k →
      Apart w.tree b.config.targetDir (k ++ [other.text]) →
      (∀ m, Along w.tree b.config.jniLibsDir.root b.config.jniLibsDir.names m → ¬ k ++ [other.text] <+: m) →
      SameAt (k ++ [other.text]) w.tree w'.tree := by
  have all := builds_within enclosed ran
  refine ⟨fun early => ?_, fun stage => ?_, all, fun v other k parsed differ leads target way => ?_⟩
  · rcases builds_broken enclosed ran with stage | stage | ⟨_, stage | same⟩
    · simp [stage] at early
    · simp [stage] at early
    · simp [stage] at early
    · exact same
  · rcases builds_broken enclosed ran with other | other | ⟨within, _⟩
    · simp [stage] at other
    · simp [stage] at other
    · exact ⟨within, fun k apart => within.untouched (works_apart enclosed.target apart)⟩
  · refine all.untouched fun path member => ?_
    rcases List.mem_append.mp member with works | places
    · exact works_apart enclosed.target target path works
    · exact places_apart enclosed parsed differ leads way path places

theorem sample_enclosed (resolved : ∃ s base data, Config.resolve s base data = .ok b.config)
    (wellFormed : t.WellFormed) (clear : ∀ l, Clear t l) (byte : UInt8) (exit : Int)
    (own : ∀ j ∈ b.planned t variant, j.command.outputDir = j.outputDir j.profile) :
    b.Enclosed (sampleCompiler byte exit) variant t := by
  have proper := sample_proper resolved wellFormed clear byte exit own
  exact ⟨resolved, wellFormed, proper.clear, fun l _ => clear l,
    fun j member => (proper.secluded j member).inside⟩

-- A debug build that fails to compile leaves the libraries of the last one where they were placed.
theorem failed_build_keeps_placed : ∃ cause w' ended,
    sampleBuilder.Builds (sampleCompiler 1 1) (.text "debug") (.opened Sample.used) (.error cause) w' ended ∧
      cause.stage? = some .invocation ∧
      w'.tree.node? ["j", "debug", "arm64-v8a", "old.so"] = some (.file [9] false) := by
  have broke : brokenAt (sampleBuilder.build (sampleCompiler 1 1) (.text "debug") (.opened Sample.used)).1 =
      some .invocation := by decide +kernel
  obtain ⟨ended, ran⟩ := build_builds sampleBuilder (sampleCompiler 1 1) (.text "debug") (.opened Sample.used)
  have free : ∀ l, Clear Sample.used l := fun l => Clear.of_entries (by decide)
  have enclosed : sampleBuilder.Enclosed (sampleCompiler 1 1) (.text "debug") Sample.used :=
    sample_enclosed ⟨_, _, _, Sample.resolved⟩ (WellFormed.of_entries (by decide)) free 1 1 (by decide +kernel)
  have apart : Apart Sample.used sampleBuilder.config.targetDir ["j"] :=
    apart_of_names (free []) (by decide) (by decide) (by decide) (by decide)
  have kept := ((build_stays_within enclosed ran).2.1 broke).2 ["j"] apart ["debug", "arm64-v8a", "old.so"]
  cases outcome : (sampleBuilder.build (sampleCompiler 1 1) (.text "debug") (.opened Sample.used)).1 with
  | ok i =>
    rw [outcome] at broke
    cases broke
  | error cause =>
    rw [outcome] at broke ran
    exact ⟨cause, _, ended, ran, broke, kept.symm.trans (by decide)⟩

-- What a build would leave alone if paths never met: a failed one the directory of placed libraries, where it
-- lies apart from the one compiled in; any one the other variants, and all that no path of its own leads to.
def Builder.Framed (b : Builder) (compiler : Compiler) (variant : Value) (t : FileTree) : Prop :=
  ∀ outcome w' ended, b.Builds compiler variant (.opened t) outcome w' ended →
    (brokenAt outcome = some .invocation → ∀ l k, LeadsTo t b.config.targetDir l →
      LeadsTo t b.config.jniLibsDir k → ¬ l <+: k → ¬ k <+: l → SameAt k t w'.tree) ∧
    (∀ v other k, Variant.parse variant = .ok v → other ≠ v → LeadsTo t b.config.jniLibsDir k →
      SameAt (k ++ [other.text]) t w'.tree) ∧
    ∀ m, w'.tree.node? m = t.node? m ∨ ∃ path ∈ b.works t variant ++ b.places t variant,
      (∃ l, LeadsTo t path l ∧ l <+: m) ∨ Along t path.root path.names m

-- The libraries are to be placed where the second process leaves a link.
def Sample.sharing : Builder :=
  .of { Sample.config with jniLibsDir := .ofText "/t/x86/i686-linux-android/debug/j" } none [] none []

def leavingLink : Compiler := .ofBehaviours fun triple =>
  if triple = Abi.x86.triple then
    { sampleBehaviour [1] 0 with libraries := [("liba.so", .file [1] false), ("j", .link "/m")] }
  else sampleBehaviour [1] 0

-- On the way to the directory to compile in, a directory is made below that of the placed libraries; or
-- the one is where the other variant's libraries are; or a link leads out of both.
theorem paths_meet :
    ((Sample.builderWith "/j/a/../../t" "liba.so").Enclosed (sampleCompiler 1 1) (.text "debug") Sample.used ∧
      ¬ (Sample.builderWith "/j/a/../../t" "liba.so").Framed (sampleCompiler 1 1) (.text "debug") Sample.used) ∧
    ((Sample.builderWith "/j/release" "liba.so").Enclosed (sampleCompiler 1 0) (.text "debug") Sample.used ∧
      ¬ (Sample.builderWith "/j/release" "liba.so").Framed (sampleCompiler 1 0) (.text "debug") Sample.used) ∧
    ((∃ data, Config.resolve Sample.tree none data = .ok Sample.sharing.config) ∧
      ¬ Sample.sharing.Framed leavingLink (.text "debug") Sample.tree) := by
  have roundabout : Config.resolve Sample.tree none (Sample.settingsWith "/j/a/../../t" "liba.so") =
      .ok (Sample.configWith "/j/a/../../t" "liba.so") := ok_of_toOption (by decide +kernel)
  have within : Config.resolve Sample.tree none (Sample.settingsWith "/j/release" "liba.so") =
      .ok (Sample.configWith "/j/release" "liba.so") := ok_of_toOption (by decide +kernel)
  have wellFormed : Sample.used.WellFormed := WellFormed.of_entries (by decide)
  have free : ∀ l, Clear Sample.used l := fun l => Clear.of_entries (by decide)
  have placed : LeadsTo Sample.used ⟨.single, ["j"]⟩ ["j"] := leads_plain (free []) (by decide)
  have shared : Config.resolve Sample.tree none [(.text "module", .text "/m"),
      (.text "targets", .list [.text "arm64", .text "x86"]), (.text "libraries", .list [.text "liba.so"]),
      (.text "target_dir", .text "/t"), (.text "jni_libs_dir", .text "/t/x86/i686-linux-android/debug/j"),
      (.text "ndk_dir", .text "/ndk"), (.text "cargo_bin", .text "/bin/cargo")] =
      .ok Sample.sharing.config := ok_of_toOption (by decide +kernel)
  refine ⟨⟨?_, fun framed => ?_⟩, ⟨?_, fun framed => ?_⟩, ⟨_, shared⟩, fun framed => ?_⟩
  · exact sample_enclosed ⟨_, _, _, roundabout⟩ wellFormed free 1 1 (by decide +kernel)
  · obtain ⟨ended, ran⟩ := build_builds (Sample.builderWith "/j/a/../../t" "liba.so") (sampleCompiler 1 1)
      (.text "debug") (.opened Sample.used)
    have target : LeadsTo Sample.used ⟨.single, ["j", "a", "..", "..", "t"]⟩ ["t"] := by
      refine .down (by decide) ?_ (.down (by decide) ?_ (.up (.up (.down (by decide) ?_ .nil)))) <;>
        exact fun target => free [] _ (by decide) target
    have same := (framed _ _ ended ran).1 (by decide +kernel) ["t"] ["j"] target placed (by decide) (by decide)
      ["a"]
    exact absurd same (by decide +kernel)
  · exact sample_enclosed ⟨_, _, _, within⟩ wellFormed free 1 0 (by decide +kernel)
  · obtain ⟨ended, ran⟩ := build_builds (Sample.builderWith "/j/release" "liba.so") (sampleCompiler 1 0)
      (.text "debug") (.opened Sample.used)
    have same := (framed _ _ ended ran).2.1 .debug .release ["j"] (parse_text .debug) (by decide) placed ["x86"]
    exact absurd same (by decide +kernel)
  · obtain ⟨ended, ran⟩ := build_builds Sample.sharing leavingLink (.text "debug") (.opened Sample.tree)
    have free : Clear Sample.tree [] := Clear.of_entries (by decide)
    rcases (framed _ _ ended ran).2.2 ["m", "debug"] with same | ⟨path, member, near⟩
    · exact absurd same (by decide +kernel)
    · have apart : ∀ path ∈ Sample.sharing.works Sample.tree (.text "debug") ++
          Sample.sharing.places Sample.tree (.text "debug"), path.root ≠ .relative ∧
          (∀ name ∈ path.names, name ≠ "..") ∧ ¬ path.names <+: ["m", "debug"] ∧
          ¬ ["m", "debug"] <+: path.names := by decide +kernel
      obtain ⟨absolute, plain, outside, inside⟩ := apart path member
      have away := apart_of_names free absolute plain outside inside
      rcases near with ⟨l, leads, above⟩ | along
      · exact away.outside l leads above
      · exact away.way _ along (List.prefix_refl _)

end AbiBuild.Build
