import AbiBuild.Proofs.Build.Footprint
import AbiBuild.Proofs.Placement.Stock

namespace AbiBuild.Build
open AbiBuild.Text FileTree Placement

-- No process of the job puts a link anywhere, or anything at the place or below it.
def Job.KeepsOff (j : Job) (compiler : Compiler) (t : FileTree) (k : Location) : Prop :=
  ∀ process, compiler j.command = .started process → ∀ item ∈ process.writes ++ process.left,
    Solid item ∧ ∀ m, LeadsTo t item.1 m → ¬ k <+: m

-- A build of all the architectures of its configuration that places libraries below `k`, and compiles elsewhere.
structure Builder.Confined (b : Builder) (compiler : Compiler) (variant : Value) (t : FileTree)
    (root : FilePath) (k : Location) : Prop where
  resolved : ∃ s base data, Config.resolve s base data = .ok b.config
  own : b.requested = b.config.architectures.map fun abi => .text abi.text
  shared : b.config.jniLibsDir = root
  wellFormed : t.WellFormed
  place : ∀ m, LeadsTo t root m → m = k
  target : ∀ l, LeadsTo t b.config.targetDir l → Clear t l ∧ ¬ l <+: k ∧ ¬ k <+: l
  off : ∀ j ∈ b.planned t variant, j.KeepsOff compiler t k

structure Asked where
  config : Config
  variant : Value

-- Builds one after the other, however each of them ends. Whoever else writes between them does so elsewhere.
inductive Campaign (root : FilePath) (k : Location) : List Asked → FileTree → Prop
  | start {t : FileTree} (empty : ∀ names, names ≠ [] → t.node? (k ++ names) = none) : Campaign root k [] t
  | aside {past : List Asked} {t u : FileTree} (before : Campaign root k past t) (same : SameAt k t u) :
      Campaign root k past u
  | build {past : List Asked} {b : Builder} {compiler : Compiler} {variant : Value} {w w' : Workshop}
      {outcome : Except Failure Invocation} {ended : List (Job × Phase)} (before : Campaign root k past w.tree)
      (confined : b.Confined compiler variant w.tree root k)
      (ran : b.Builds compiler variant w outcome w' ended) :
      Campaign root k (past ++ [⟨b.config, variant⟩]) w'.tree

def Places (c : Config) (names : List String) : Prop :=
  ∃ abi ∈ c.architectures, ∃ library ∈ c.libraries, names = [abi.text, library]

def Holds (t : FileTree) (m : Location) : Prop := ∃ content executable, t.node? m = some (.file content executable)

variable {b : Builder} {compiler : Compiler} {variant : Value} {t u : FileTree} {root : FilePath}
  {l k m : Location} {j : Job} {jobs : List Job} {phase next : Phase} {w w' : Workshop} {i : Invocation}
  {outcome : Except Failure Invocation} {ended : List (Job × Phase)} {past : List Asked} {c : Config}

theorem Builder.Confined.accepted (confined : b.Confined compiler variant t root k) : Accepted b.config := by
  obtain ⟨s, base, data, resolved⟩ := confined.resolved
  exact Config.resolve_accepted resolved

theorem Builder.Confined.jniLibs (confined : b.Confined compiler variant t root k) (clear : Clear t k) :
    Hosts t b.config.jniLibsDir k := by
  intro m leads
  rw [confined.shared] at leads
  exact ⟨confined.place m leads, clear⟩

theorem acts_file (wellFormed : t.WellFormed) (absolute : root.root ≠ .relative) (hosts : Hosts t root l)
    (homed : j.Homed root) (off : j.KeepsOff compiler t k) (inside : k <+: m) (outside : ¬ l ++ [j.abi.text] <+: m)
    (started : j.Started compiler phase) (acts : j.Acts compiler phase t next u) :
    Steady t u ∧ ∀ content executable, u.node? m = some (.file content executable) ↔
      t.node? m = some (.file content executable) := by
  have steady := Steady.refl wellFormed
  rcases acts_leaves wellFormed absolute hosts homed acts with changes | ⟨process, own, items, among, rfl⟩
  · exact ⟨steady.changes changes, fun content executable => changes.file outside⟩
  · have put := off process (started process own)
    have strews := depositAll_strews wellFormed fun item member => (put item (among item member)).1
    refine ⟨steady.changes strews.changes, fun content executable => strews.file fun item member leads => ?_⟩
    exact (put item (among item member)).2 m leads inside

theorem file_compatible (absolute : root.root ≠ .relative) (hosts : Hosts t root l)
    (homed : ∀ j ∈ jobs, j.Homed root) (off : ∀ j ∈ jobs, j.KeepsOff compiler t k) (inside : k <+: m)
    (outside : ∀ j ∈ jobs, ¬ l ++ [j.abi.text] <+: m) :
    Compatible compiler jobs (fun w => Steady t w.tree ∧ ∀ content executable,
        w.tree.node? m = some (.file content executable) ↔ t.node? m = some (.file content executable))
      (fun j phase _ => j.Started compiler phase) := by
  constructor
  case common =>
    intro j member phase w common started
    obtain ⟨steady, same⟩ := common
    have keeps : j.KeepsOff compiler w.tree k := fun process answer item among =>
      ⟨(off j member process answer item among).1, fun m leads =>
        (off j member process answer item among).2 m (steady.leadsTo.mp leads)⟩
    obtain ⟨further, kept⟩ := acts_file steady.wellFormed absolute (steady.hosts hosts) (homed j member) keeps
      inside (outside j member) started (step_acts j compiler phase w)
    exact ⟨steady.trans further, fun content executable => (kept content executable).trans (same content executable)⟩
  case own => exact fun j _ phase w _ started => acts_started started (step_acts ..)
  case others => exact fun _ _ _ _ _ _ _ _ _ _ theirs => theirs
  case cancel => exact fun _ common => common
  case ownCancel => exact fun _ _ _ _ _ own => own

-- Compiling brings no file to the directory of the placed libraries, and takes none away.
theorem invokes_files (confined : b.Confined compiler variant w.tree root k)
    (ran : b.Invokes compiler variant w outcome w' ended) :
    Steady w.tree w'.tree ∧ ∀ m, k <+: m → ∀ content executable,
      w'.tree.node? m = some (.file content executable) ↔ w.tree.node? m = some (.file content executable) := by
  cases ran with
  | unplanned => exact ⟨.refl confined.wellFormed, fun _ _ _ _ => .rfl⟩
  | unworkable => exact ⟨.refl confined.wellFormed, fun _ _ _ _ => .rfl⟩
  | @ran plan moves last planned workable reached finished =>
    have accepted := confined.accepted
    have off := confined.off
    rw [planned_jobs planned] at off
    have file : ∀ m, k <+: m → Steady w.tree last.workshop.tree ∧ ∀ content executable,
        last.workshop.tree.node? m = some (.file content executable) ↔
          w.tree.node? m = some (.file content executable) := by
      intro m inside
      have beside : ∀ l, LeadsTo w.tree b.config.targetDir l → ¬ l <+: m := fun l leads above =>
        (List.prefix_or_prefix_of_prefix above inside).elim (confined.target l leads).2.1
          (confined.target l leads).2.2
      obtain ⟨l, hosts, outside⟩ := exists_hosts_beside (fun l leads => (confined.target l leads).1) beside
      have compatible := file_compatible accepted.target hosts
        (fun j member => (plan_homed accepted planned j member).1) off inside fun j _ => outside _ (by simp)
      exact (reaches_sound compatible (plan_distinct planned) (start_sound (w := w.noting plan.notices)
        ⟨.refl confined.wellFormed, fun _ _ => .rfl⟩ fun _ _ process own => by cases own) reached).common
    exact ⟨(file k (List.prefix_refl k)).1, fun m inside => (file m inside).2⟩

theorem confined_stocked (confined : b.Confined compiler variant w.tree root k) (clear : Clear w.tree k)
    (ran : b.Invokes compiler variant w (.ok i) w' ended) (checked : i.check = .ok ()) :
    Variant.parse variant = .ok i.variant ∧ i.architectures = b.config.architectures ∧
      ∃ l, (b.site w'.tree i l k).Valid ∧ (b.site w'.tree i l k).Stocked b.config.architectures
        b.config.architectures (place w'.tree i b.config.libraries b.config.jniLibsDir) := by
  have accepted := confined.accepted
  have steady := (invokes_files confined ran).1
  obtain ⟨v, p, architectures, cargo, ndk, parsed, resolved, gathered, _⟩ := invokes_ok ran rfl
  obtain ⟨rfl, _, rfl, _⟩ := gather_parts gathered
  rw [confined.own] at resolved
  have own := Abi.resolve_own accepted.distinct resolved
  obtain ⟨l, target⟩ := exists_hosts fun l leads => (confined.target l leads).1
  have valid := site_valid accepted steady.wellFormed (steady.hosts target)
    (steady.hosts (confined.jniLibs clear)) i
  exact ⟨parsed, own, l, valid, own ▸ place_stocked valid rfl checked⟩

theorem builds_files (confined : b.Confined compiler variant w.tree root k) (clear : Clear w.tree k)
    (ran : b.Builds compiler variant w outcome w' ended) :
    Steady w.tree w'.tree ∧ ∀ names, Fewer (k ++ names) w.tree w'.tree ∨
      ∃ v rest, Variant.parse variant = .ok v ∧ Places b.config rest ∧ names = v.text :: rest := by
  have compiled : ∀ {outcome u}, b.Invokes compiler variant w outcome u ended →
      ∀ names, Fewer (k ++ names) w.tree u.tree := fun ran names content executable there =>
    ((invokes_files confined ran).2 _ (List.prefix_append k names) content executable).mp there
  cases ran with
  | uncompiled ran => exact ⟨(invokes_files confined ran).1, fun names => .inl (compiled ran names)⟩
  | unfinished ran failed => exact ⟨(invokes_files confined ran).1, fun names => .inl (compiled ran names)⟩
  | @compiled i _ u ran checked =>
    obtain ⟨parsed, own, l, valid, stocked⟩ := confined_stocked confined clear ran checked
    rw [install_tree]
    refine ⟨(invokes_files confined ran).1.trans stocked.steady, fun names => ?_⟩
    rcases stocked.files (k ++ names) with fewer | ⟨abi, member, library, inside, place⟩
    · exact .inl ((compiled ran names).trans fewer)
    · refine .inr ⟨i.variant, [abi.text, library], parsed, ⟨abi, member, library, inside, rfl⟩, ?_⟩
      unfold Site.place Site.names at place
      exact List.append_cancel_left (place.trans (List.append_assoc ..))

theorem place_elsewhere (accepted : Accepted b.config) (wellFormed : t.WellFormed)
    (jniLibs : Hosts t b.config.jniLibsDir k) {names : List String}
    (outside : ∀ abi ∈ i.architectures, ¬ [i.variant.text, abi.text] <+: names) :
    ∀ content executable,
      (place t i b.config.libraries b.config.jniLibsDir).tree.node? (k ++ names) = some (.file content executable) ↔
        t.node? (k ++ names) = some (.file content executable) := by
  intro content executable
  have within : Within (i.architectures.map (abiDir b.config.jniLibsDir i.variant)) t
      (place t i b.config.libraries b.config.jniLibsDir).tree :=
    place_within wellFormed accepted.jniLibs jniLibs accepted.plain fun abi member => List.mem_map_of_mem member
  refine within.file fun path member m leads inside => ?_
  obtain ⟨abi, known, rfl⟩ := List.mem_map.mp member
  rw [abiDir_eq] at leads
  have notUp : ∀ name ∈ [i.variant.text] ++ [abi.text], name ≠ ".." :=
    notUp_append (@notUp_of_plain [i.variant.text] (by simpa using variant_plain i.variant)) (abi_notUp abi)
  rw [leadsTo_under jniLibs notUp leads] at inside
  exact outside abi known ((List.prefix_append_right_inj k).mp inside)

-- After a build that goes well its own libraries are there, and in the directories of its architectures nothing
-- else; other files below the directory for placed libraries are as they were.
theorem builds_places (confined : b.Confined compiler variant w.tree root k) (clear : Clear w.tree k)
    (ran : b.Builds compiler variant w outcome w' ended) (good : outcome = .ok i) :
    Variant.parse variant = .ok i.variant ∧
    (∀ rest, Places b.config rest → Holds w'.tree (k ++ [i.variant.text] ++ rest)) ∧
    (∀ abi ∈ b.config.architectures, ∀ rest, Holds w'.tree (k ++ [i.variant.text] ++ abi.text :: rest) →
      Places b.config (abi.text :: rest)) ∧
    ∀ names, (∀ abi ∈ b.config.architectures, ¬ [abi.text] <+: names) → ∀ content executable,
      w'.tree.node? (k ++ [i.variant.text] ++ names) = some (.file content executable) ↔
        w.tree.node? (k ++ [i.variant.text] ++ names) = some (.file content executable) := by
  cases ran with
  | uncompiled => cases good
  | unfinished => cases good
  | @compiled _ _ u ran checked =>
    obtain ⟨rfl, placed, after, report, required⟩ := install_parts good
    obtain ⟨parsed, own, l, valid, stocked⟩ := confined_stocked confined clear ran checked
    obtain ⟨steady, compiled⟩ := invokes_files confined ran
    have right := require_right required
    rw [after, own] at right
    rw [after]
    refine ⟨parsed, ?_, ?_, ?_⟩
    · rintro _ ⟨abi, member, library, inside, rfl⟩
      have goal := stocked.steady.hosts valid.goal
      have file := (right abi member library inside).file
      rw [abiDir_child (confined.accepted.plain library inside)] at file
      have plain : ∀ name ∈ (b.site u.tree i l k).names abi ++ [library], name ≠ ".." :=
        notUp_append (names_notUp _ abi) (by simpa using (confined.accepted.plain library inside).2.2.1)
      obtain ⟨_, content, executable, there⟩ := isFile_true goal plain (by simp) file
      refine ⟨content, executable, ?_⟩
      rw [List.append_assoc]
      exact there
    · rintro abi member rest ⟨content, executable, there⟩
      have place : k ++ [i.variant.text] ++ abi.text :: rest = (b.site u.tree i l k).place abi ++ rest := by
        simp [Builder.site, Site.place, Site.names]
      rw [place] at there
      obtain ⟨library, inside, rfl⟩ := stocked.swept placed abi member rest content executable there
      exact ⟨abi, member, library, inside, rfl⟩
    · intro names outside content executable
      rw [List.append_assoc]
      refine Iff.trans ?_ (compiled _ (List.prefix_append k _) content executable)
      refine place_elsewhere confined.accepted steady.wellFormed (steady.hosts (confined.jniLibs clear))
        (fun abi member inside => ?_) content executable
      exact outside abi (own ▸ member) ((List.cons_prefix_cons.mp inside).2)

-- Below where libraries are placed there are no links, and each file was placed by one of the builds.
structure Traced (k : Location) (past : List Asked) (t : FileTree) : Prop where
  clear : Clear t k
  files : ∀ names, names ≠ [] → Holds t (k ++ names) → ∃ earlier ∈ past, ∃ v rest,
    Variant.parse earlier.variant = .ok v ∧ Places earlier.config rest ∧ names = v.text :: rest

theorem campaign_traced (campaign : Campaign root k past t) : Traced k past t := by
  -- Induction on the builds.
  induction campaign with
  | start empty =>
    refine ⟨fun names nonempty target there => ?_, fun names nonempty held => ?_⟩
    · rw [empty names nonempty] at there
      cases there
    · obtain ⟨content, executable, there⟩ := held
      rw [empty names nonempty] at there
      cases there
  | aside _ same ih =>
    refine ⟨fun names nonempty target there => ih.clear names nonempty target ((same names).trans there),
      fun names nonempty held => ih.files names nonempty ?_⟩
    obtain ⟨content, executable, there⟩ := held
    exact ⟨content, executable, (same names).trans there⟩
  | @build past b compiler variant w w' outcome ended before confined ran ih =>
    obtain ⟨steady, files⟩ := builds_files confined ih.clear ran
    refine ⟨ih.clear.congr steady.links, fun names nonempty held => ?_⟩
    rcases files names with fewer | ⟨v, rest, parsed, places, same⟩
    · obtain ⟨content, executable, there⟩ := held
      obtain ⟨earlier, member, known⟩ :=
        ih.files names nonempty ⟨content, executable, fewer content executable there⟩
      exact ⟨earlier, List.mem_append_left _ member, known⟩
    · exact ⟨⟨b.config, variant⟩, by simp, v, rest, parsed, places, same⟩

theorem variant_injective {v other : Variant} (same : v.text = other.text) : v = other := by
  cases v <;> cases other <;> first | rfl | exact absurd same (by decide)

theorem leftovers_are_of_other_architectures (campaign : Campaign root k past w.tree)
    (confined : b.Confined compiler variant w.tree root k)
    (ran : b.Builds compiler variant w (.ok i) w' ended) :
    Variant.parse variant = .ok i.variant ∧
    (∀ names, Holds w'.tree (k ++ [i.variant.text] ++ names) ↔ Places b.config names ∨
      Holds w.tree (k ++ [i.variant.text] ++ names) ∧ ∀ abi ∈ b.config.architectures, ¬ [abi.text] <+: names) ∧
    (∀ names, Holds w'.tree (k ++ [i.variant.text] ++ names) → ¬ Places b.config names →
      (∃ earlier ∈ past, Variant.parse earlier.variant = .ok i.variant ∧ Places earlier.config names) ∧
      ∀ content executable, w'.tree.node? (k ++ [i.variant.text] ++ names) = some (.file content executable) ↔
        w.tree.node? (k ++ [i.variant.text] ++ names) = some (.file content executable)) ∧
    ((∀ earlier ∈ past, Variant.parse earlier.variant = .ok i.variant →
        ∀ abi ∈ earlier.config.architectures, abi ∈ b.config.architectures) →
      ∀ names, Holds w'.tree (k ++ [i.variant.text] ++ names) ↔ Places b.config names) := by
  have traced := campaign_traced campaign
  obtain ⟨parsed, own, swept, elsewhere⟩ := builds_places confined traced.clear ran rfl
  have found : ∀ names, Holds w'.tree (k ++ [i.variant.text] ++ names) → Places b.config names ∨
      Holds w.tree (k ++ [i.variant.text] ++ names) ∧ ∀ abi ∈ b.config.architectures, ¬ [abi.text] <+: names := by
    intro names held
    by_cases among : ∃ abi ∈ b.config.architectures, [abi.text] <+: names
    · obtain ⟨abi, member, rest, rfl⟩ := among
      exact .inl (swept abi member rest held)
    · have outside : ∀ abi ∈ b.config.architectures, ¬ [abi.text] <+: names :=
        fun abi member inside => among ⟨abi, member, inside⟩
      obtain ⟨content, executable, there⟩ := held
      exact .inr ⟨⟨content, executable, (elsewhere names outside content executable).mp there⟩, outside⟩
  -- What was there before is of an earlier build.
  have earlier : ∀ names, Holds w.tree (k ++ [i.variant.text] ++ names) →
      ∃ earlier ∈ past, Variant.parse earlier.variant = .ok i.variant ∧ Places earlier.config names := by
    intro names held
    rw [List.append_assoc] at held
    obtain ⟨earlier, member, v, rest, known, places, same⟩ := traced.files _ (by simp) held
    obtain ⟨text, rfl⟩ := List.cons_eq_cons.mp same
    rw [← variant_injective text] at known
    exact ⟨earlier, member, known, places⟩
  refine ⟨parsed, fun names => ⟨found names, ?_⟩, fun names held notOwn => ?_, fun covered names => ⟨fun held => ?_, own names⟩⟩
  · rintro (places | ⟨⟨content, executable, there⟩, outside⟩)
    · exact own names places
    · exact ⟨content, executable, (elsewhere names outside content executable).mpr there⟩
  · obtain ⟨before, outside⟩ := (found names held).resolve_left notOwn
    exact ⟨earlier names before, elsewhere names outside⟩
  · rcases found names held with places | ⟨before, outside⟩
    · exact places
    · obtain ⟨other, member, known, abi, listed, library, _, rfl⟩ := earlier names before
      exact absurd (List.prefix_append [abi.text] [library]) (outside abi (covered other member known abi listed))

theorem keepsOff_of_tidy {home : FilePath} (clear : Clear t []) (tidy : j.Tidy compiler home)
    (absolute : home.root ≠ .relative) (plain : ∀ name ∈ home.names, name ≠ "..")
    (outside : ¬ home.names <+: k) (inside : ¬ k <+: home.names) : j.KeepsOff compiler t k := by
  intro process started item member
  obtain ⟨names, content, executable, rfl, _, own⟩ := tidy process started item member
  refine ⟨⟨absolute, by simp⟩, fun m leads above => ?_⟩
  have start : base t.here (home.under names) = [] := base_absolute absolute t.here
  unfold LeadsTo at leads
  rw [start] at leads
  have place := leads_down clear (notUp_append plain (notUp_of_plain own)) leads
  rw [List.nil_append] at place
  rw [place] at above
  exact (List.prefix_or_prefix_of_prefix (List.prefix_append _ _) above).elim outside inside

theorem sample_confined (resolved : ∃ s base data, Config.resolve s base data = .ok b.config)
    (own : b.requested = b.config.architectures.map fun abi => .text abi.text)
    (target : b.config.targetDir = ⟨.single, ["t"]⟩) (jniLibs : b.config.jniLibsDir = ⟨.single, ["j"]⟩)
    (wellFormed : t.WellFormed) (clear : Clear t []) (byte : UInt8) (exit : Int)
    (out : ∀ j ∈ b.planned t variant, j.command.outputDir = j.outputDir j.profile) :
    b.Confined (sampleCompiler byte exit) variant t ⟨.single, ["j"]⟩ ["j"] := by
  have place : ∀ name, name ≠ ".." → ∀ m, LeadsTo t ⟨.single, [name]⟩ m → m = [name] :=
    fun name notUp m leads => leads_down clear (by simpa using notUp) leads
  refine ⟨resolved, own, jniLibs, wellFormed, place "j" (by decide), fun l leads => ?_, fun j member => ?_⟩
  · rw [target] at leads
    rw [place "t" (by decide) l leads]
    exact ⟨clear.under ["t"], by decide, by decide⟩
  · have tidy := Tidy.home (ofBehaviours_tidy (out j member) fun _ => sampleBehaviour_plain [byte] exit)
    obtain ⟨s, base, data, accepted⟩ := resolved
    have home : j.home = ⟨.single, ["t", j.abi.text]⟩ := by
      unfold Builder.planned at member
      split at member
      · rename_i plan planned
        rw [((plan_homed (Config.resolve_accepted accepted) planned) j member).1.home, target]
        rfl
      · cases member
    rw [home] at tidy
    refine keepsOff_of_tidy clear tidy (by simp) ?_ ?_ ?_
    · simpa using (abi_plain j.abi).2.2.1
    · simp
    · simp

def Sample.narrowed : Builder := .of { Sample.config with architectures := [.x86] } none [] none []

def Sample.widely : Workshop := (sampleBuilder.build (sampleCompiler 1 0) (.text "debug") (.opened Sample.tree)).2

theorem narrowed_resolved : Config.resolve Sample.tree none [
    (.text "module", .text "/m"), (.text "targets", .list [.text "x86"]),
    (.text "libraries", .list [.text "liba.so"]), (.text "target_dir", .text "/t"),
    (.text "jni_libs_dir", .text "/j"), (.text "ndk_dir", .text "/ndk"),
    (.text "cargo_bin", .text "/bin/cargo")] = .ok Sample.narrowed.config :=
  ok_of_toOption (by decide +kernel)

theorem widely_campaign : Campaign ⟨.single, ["j"]⟩ ["j"] [⟨Sample.config, .text "debug"⟩] Sample.widely.tree := by
  obtain ⟨ended, ran⟩ := build_builds sampleBuilder (sampleCompiler 1 0) (.text "debug") (.opened Sample.tree)
  have confined : sampleBuilder.Confined (sampleCompiler 1 0) (.text "debug") Sample.tree ⟨.single, ["j"]⟩ ["j"] :=
    sample_confined ⟨_, _, _, Sample.resolved⟩ rfl rfl rfl sample_wellFormed (Clear.of_entries (by decide)) 1 0
      (by decide +kernel)
  have empty : Campaign ⟨.single, ["j"]⟩ ["j"] [] (Workshop.opened Sample.tree).tree :=
    .start fun _ nonempty => sample_wellFormed.missing (by decide) nonempty
  exact .build empty confined ran

theorem narrowed_confined : Sample.narrowed.Confined (sampleCompiler 1 0) (.text "debug") Sample.widely.tree
    ⟨.single, ["j"]⟩ ["j"] :=
  sample_confined ⟨_, _, _, narrowed_resolved⟩ rfl rfl rfl (WellFormed.of_entries (by decide +kernel))
    (Clear.of_entries (by decide +kernel)) 1 0 (by decide +kernel)

theorem narrowed_builds : ∃ i w' ended, Sample.narrowed.Builds (sampleCompiler 1 0) (.text "debug") Sample.widely
    (.ok i) w' ended ∧ i.variant = .debug ∧
      w'.tree.node? ["j", "debug", "arm64-v8a", "liba.so"] = some (.file [1] false) := by
  obtain ⟨ended, ran⟩ := build_builds Sample.narrowed (sampleCompiler 1 0) (.text "debug") Sample.widely
  have good : (Sample.narrowed.build (sampleCompiler 1 0) (.text "debug") Sample.widely).1.toOption.map
      (fun i => i.variant) = some .debug := by decide +kernel
  obtain ⟨i, built, variant⟩ := Option.map_eq_some_iff.mp good
  rw [ok_of_toOption built] at ran
  exact ⟨i, _, ended, ran, variant, by decide +kernel⟩

-- The library of the architecture that is gone is there still, and it is that of the first build.
theorem narrowed_build_accounts_for_leftover : ∃ w' : Workshop,
    w'.tree.node? ["j", "debug", "arm64-v8a", "liba.so"] = some (.file [1] false) ∧
      Sample.widely.tree.node? ["j", "debug", "arm64-v8a", "liba.so"] = some (.file [1] false) ∧
      Places Sample.config ["arm64-v8a", "liba.so"] := by
  obtain ⟨i, w', ended, ran, variant, there⟩ := narrowed_builds
  have accounts := (leftovers_are_of_other_architectures widely_campaign narrowed_confined ran).2.2.1
    ["arm64-v8a", "liba.so"]
  rw [variant] at accounts
  have notOwn : ¬ Places Sample.narrowed.config ["arm64-v8a", "liba.so"] := by
    rintro ⟨abi, member, library, _, same⟩
    rw [List.mem_singleton.mp member] at same
    exact absurd (List.cons_eq_cons.mp same).1 (by decide)
  obtain ⟨⟨earlier, member, _, places⟩, unchanged⟩ := accounts ⟨_, _, there⟩ notOwn
  rw [List.mem_singleton.mp member] at places
  exact ⟨w', there, (unchanged _ _).mp there, places⟩

-- So the files below the variant's directory are not those of the latest build alone.
theorem narrowed_build_leaves_library : ∃ (past : List Asked) (b : Builder) (w w' : Workshop) (i : Invocation)
    (ended : List (Job × Phase)), Campaign ⟨.single, ["j"]⟩ ["j"] past w.tree ∧
      b.Confined (sampleCompiler 1 0) (.text "debug") w.tree ⟨.single, ["j"]⟩ ["j"] ∧
      b.Builds (sampleCompiler 1 0) (.text "debug") w (.ok i) w' ended ∧
      ¬ ∀ names, Holds w'.tree (["j"] ++ [i.variant.text] ++ names) ↔ Places b.config names := by
  obtain ⟨i, w', ended, ran, variant, there⟩ := narrowed_builds
  refine ⟨_, _, _, w', i, ended, widely_campaign, narrowed_confined, ran, fun exactly_ => ?_⟩
  have held : Holds w'.tree (["j"] ++ [i.variant.text] ++ ["arm64-v8a", "liba.so"]) := by
    rw [variant]
    exact ⟨_, _, there⟩
  obtain ⟨abi, member, library, _, same⟩ := (exactly_ _).mp held
  rw [List.mem_singleton.mp member] at same
  exact absurd (List.cons_eq_cons.mp same).1 (by decide)

end AbiBuild.Build
