import AbiBuild.Proofs.Build.Invocations
import AbiBuild.Proofs.Config.Overrides
import AbiBuild.Proofs.Ndk.Finding

namespace AbiBuild.Build
open ProfileTable (Fits Holds Reported)
open Variant (Spells)

-- The failures of what is looked for behind the names: of settings, of tools, and of the files.
def Outer (cause : Failure) : Prop := cause.stage? = some .configuration ∨ cause.stage? = none

variable {b : Builder} {t : FileTree} {c : Config} {v : Variant} {p : Profile} {name : Value} {plan : Builder.Plan}
  {architectures : List Abi}

theorem manifest_outer (b : Builder) (t : FileTree) : Fails Outer (b.checkManifest t) := by
  unfold Builder.checkManifest
  refine Fails.bind (.mapError fun fault _ => .inr rfl) fun there _ => ?_
  split
  · exact .ok _
  · exact .error (.inl rfl)

theorem cargo_outer (b : Builder) (t : FileTree) : Fails Outer (b.findCargo t) := by
  unfold Builder.findCargo
  split
  · exact .ok _
  · exact .error (.inl rfl)

theorem find_outer (t : FileTree) (configured : Option FilePath) (pinned : Option String)
    (environ : Ndk.Environment) : Fails Outer (Ndk.find t configured pinned environ) := by
  refine (Ndk.find_fails t configured pinned environ).mono fun cause missed => ?_
  obtain ⟨⟨fault, rfl⟩, _⟩ | ⟨mishap, rfl, _⟩ := missed
  · exact .inl rfl
  · exact .inr rfl

theorem writing_outer (v : Value) : Fails Outer (Failure.ofWriting v) := by
  unfold Failure.ofWriting
  split
  · exact .ok _
  · exact .error (.inr rfl)

theorem plan_outer (parsed : Variant.parse name = .ok v)
    (profiled : Variant.profile (.text v.text) b.config.overrides = .ok p)
    (resolved : Abi.resolve b.requested = .ok architectures) : Fails Outer (b.plan t name) := by
  unfold Builder.plan
  refine Fails.behind (by rw [parsed]; rfl) (.behind (by rw [profiled]; rfl) (.behind (by rw [resolved]; rfl) ?_))
  refine (manifest_outer b t).bind fun _ _ => (cargo_outer b t).bind fun _ _ => ?_
  exact (find_outer _ _ _ _).bind fun _ _ => (writing_outer _).bind fun _ _ => .ok _

theorem plan_resolved (parsed : Variant.parse name = .ok v)
    (profiled : Variant.profile (.text v.text) b.config.overrides = .ok p)
    (resolved : Abi.resolve b.requested = .ok architectures) (planned : b.plan t name = .ok plan) :
    plan.invocation = .start v p architectures := by
  obtain ⟨w, q, others, _, _, parsed', profiled', resolved', _, same, _⟩ := plan_parts planned
  obtain rfl := Except.ok.inj (parsed.symm.trans parsed')
  obtain rfl := Except.ok.inj (profiled.symm.trans profiled')
  obtain rfl := Except.ok.inj (resolved.symm.trans resolved')
  exact same

-- All that a build resolves of a configuration is what the configuration says.
structure Resolves (c : Config) (b : Builder) (name : Value) (v : Variant) (p : Profile) : Prop where
  holds : Holds v (ProfileTable.standard.get v) c.buildTypes p
  profile : Variant.profile (.text v.text) b.config.overrides = .ok p
  architectures : Abi.resolve b.requested = .ok c.architectures
  outer : ∀ t, Fails Outer (b.plan t name)
  planned : ∀ t plan, b.plan t name = .ok plan → plan.invocation = .start v p c.architectures

theorem resolves_accepted {s : FileTree} {base : Option FilePath} {data : Config.Entries}
    (ran : Config.resolve s base data = .ok c) (parsed : Variant.parse name = .ok v) (cargo : Option String)
    (overrides : Table String) (workers : Option Int) (environ : Table String) :
    ∃ p, Resolves c (.of c cargo overrides workers environ) name v p := by
  obtain ⟨_, _, derives⟩ := Config.resolve_derives ran
  obtain ⟨table, overridden⟩ := derives.profiles
  obtain ⟨_, _, declared⟩ := derives.architectures
  obtain ⟨profile, holds⟩ := ProfileTable.profile_of_override overridden v
  have resolved := Abi.resolve_named (Abi.resolve_nonempty declared) (Abi.resolve_nodup declared)
  exact ⟨table.get v, holds, profile, resolved, fun t => plan_outer parsed profile resolved,
    fun t plan => plan_resolved parsed profile resolved⟩

-- A variant is refused exactly where its name or an entry is none, and the first of these is reported. Otherwise it
-- builds with the profile that holds for it. What was accepted once is resolved by every build, as it was declared.
theorem overrides_settled :
    (∀ (name : String) (entries : Table String),
      (∃ fault, Variant.profile (.text name) (Config.textEntries entries) = .error fault) ↔
        (∀ v, ¬ Spells name v) ∨ ∃ entry ∈ entries, ¬ Fits entry) ∧
    (∀ name entries fault, Variant.profile (.text name) (Config.textEntries entries) = .error fault →
      Reported name entries fault ∧ Failure.ofVariant fault = .variant fault) ∧
    (∀ name entries p, Variant.profile (.text name) (Config.textEntries entries) = .ok p →
      ∃ v, Spells name v ∧ Holds v (ProfileTable.standard.get v) entries p) ∧
    ∀ s base data c, Config.resolve s base data = .ok c → ∀ name v, Variant.parse name = .ok v →
      ∀ cargo overrides workers environ, ∃ p, Resolves c (.of c cargo overrides workers environ) name v p := by
  refine ⟨fun _ _ => ProfileTable.profile_refused_iff, fun name entries fault ran => ?_, fun name entries p ran => ?_,
    fun _ _ _ _ ran _ _ parsed => resolves_accepted ran parsed⟩
  · have reported := ProfileTable.profile_error ran
    exact ⟨reported, reported.ofVariant⟩
  · obtain ⟨v, spells, _, holds⟩ := ProfileTable.profile_ok ran
    exact ⟨v, spells, holds⟩

def spelledTwice : Table String := [("Debug", "debug"), (" debug", "release"), ("RELEASE", "release")]

def misspelled : Table String := spelledTwice ++ [("staging", "fast"), ("debug", "fast")]

def overriddenSettings : Config.Entries :=
  Sample.settings ++ [(.text "build_types", .map (Config.textEntries spelledTwice))]

def overriddenConfig : Config := { Sample.config with buildTypes := spelledTwice }

theorem last_override_settles :
    (∃ fault, Variant.profile (.text "debug") (Config.textEntries misspelled) = .error fault ∧
      Reported "debug" misspelled fault ∧ fault.name = "staging") ∧
    Variant.profile (.text "DEBUG\n") (Config.textEntries spelledTwice) = .ok .release ∧
    (∃ v, Spells "DEBUG\n" v ∧ Holds v (ProfileTable.standard.get v) spelledTwice .release) ∧
    ∃ p, Resolves overriddenConfig (.of overriddenConfig none [] none []) (.text "Debug") .debug p := by
  have named : (match Variant.profile (.text "debug") (Config.textEntries misspelled) with
      | .error fault => fault.name
      | .ok _ => "") = "staging" := by decide +kernel
  have chosen : Variant.profile (.text "DEBUG\n") (Config.textEntries spelledTwice) = .ok .release :=
    ok_of_toOption (by decide +kernel)
  have resolved : Config.resolve Sample.tree none overriddenSettings = .ok overriddenConfig :=
    ok_of_toOption (by decide +kernel)
  have parsed : Variant.parse (.text "Debug") = .ok .debug := ok_of_toOption (by decide +kernel)
  refine ⟨?_, chosen, overrides_settled.2.2.1 _ _ _ chosen,
    overrides_settled.2.2.2 _ _ _ _ resolved _ _ parsed none [] none []⟩
  cases refused : Variant.profile (.text "debug") (Config.textEntries misspelled) with
  | ok p => simp [refused] at named
  | error fault => exact ⟨fault, rfl, (overrides_settled.2.1 _ _ _ refused).1, by simpa [refused] using named⟩

end AbiBuild.Build
