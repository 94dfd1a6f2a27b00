import AbiBuild.Proofs.Config.WrittenBack
import AbiBuild.Proofs.Placement.Checking

namespace AbiBuild

namespace Variant

-- A text that a variant is meant by. Neither blanks around it nor its case count.
def Spells (s : String) (v : Variant) : Prop := Text.lower (Text.strip s) = v.text

variable {s : String} {v w : Variant} {fault : Fault}

theorem text_injective (same : v.text = w.text) : v = w := by
  cases v <;> cases w <;> simp_all [text]

theorem Spells.unique (first : Spells s v) (second : Spells s w) : v = w :=
  text_injective (first.symm.trans second)

theorem named?_iff : named? s = some v ↔ s = v.text := by
  constructor
  · intro found
    have named := List.find?_some found
    exact (of_decide_eq_true named).symm
  · rintro rfl
    cases v <;> rfl

theorem parse_iff : parse (.text s) = .ok v ↔ Spells s v := by
  refine Iff.trans ?_ named?_iff
  unfold parse
  rw [Value.display]
  cases named? (Text.lower (Text.strip s)) <;> simp

theorem parse_error (failed : parse (.text s) = .error fault) : fault = .unmapped s ∧ ∀ v, ¬ Spells s v := by
  refine ⟨?_, fun v spells => ?_⟩
  · unfold parse at failed
    split at failed
    · cases failed
    · cases failed
      rfl
  · rw [parse_iff.mpr spells] at failed
    cases failed

end Variant

namespace Profile

variable {key : Value} {s : String} {p : Profile} {fault : Variant.Fault}

theorem named?_iff : named? s = some p ↔ p.key = s := by
  constructor
  · intro found
    simpa using List.find?_some found
  · rintro rfl
    cases p <;> rfl

theorem ofValue_iff : ofValue key (.text s) = .ok p ↔ p.key = s := by
  rw [← named?_iff, ofValue]
  cases named? s <;> simp

theorem ofValue_error (failed : ofValue key (.text s) = .error fault) :
    fault = .badProfile key (.text s) ∧ ∀ p : Profile, p.key ≠ s := by
  refine ⟨?_, fun p named => ?_⟩
  · unfold ofValue at failed
    simp only at failed
    split at failed
    · cases failed
    · cases failed
      rfl
  · rw [ofValue_iff.mpr named] at failed
    cases failed

end Profile

namespace ProfileTable
open Variant (Spells)

-- An entry that says which profile some variant is to build with.
def Fits (entry : String × String) : Prop := (∃ v, Spells entry.1 v) ∧ ∃ p : Profile, p.key = entry.2

-- What is wrong with an entry. Its variant is looked at before its profile.
inductive Offence : String × String → Variant.Fault → Prop
  | variant {key profile : String} (unknown : ∀ v, ¬ Spells key v) : Offence (key, profile) (.unmapped key)
  | profile {key profile : String} {v : Variant} (known : Spells key v) (unknown : ∀ p : Profile, p.key ≠ profile) :
      Offence (key, profile) (.badProfile (.text key) (.text profile))

-- The profile that holds for a variant: that of the last entry for it, or its own.
inductive Holds (v : Variant) (own : Profile) : Table String → Profile → Prop
  | own {entries : Table String} (none_ : ∀ entry ∈ entries, ¬ Spells entry.1 v) : Holds v own entries own
  | entry {before after : Table String} {key : String} {p : Profile} (spells : Spells key v)
      (last : ∀ later ∈ after, ¬ Spells later.1 v) : Holds v own (before ++ (key, p.key) :: after) p

-- What is reported of a variant's name and of the entries: the name, or the first entry that is none.
inductive Reported (name : String) : Table String → Variant.Fault → Prop
  | name {entries : Table String} (unknown : ∀ v, ¬ Spells name v) : Reported name entries (.unmapped name)
  | entry {before after : Table String} {entry : String × String} {v : Variant} {fault : Variant.Fault}
      (known : Spells name v) (fits : ∀ earlier ∈ before, Fits earlier) (offence : Offence entry fault) :
      Reported name (before ++ entry :: after) fault

variable {t u : ProfileTable} {v w : Variant} {p q : Profile} {entries : Table String} {entry : String × String}
  {key name : String} {fault : Variant.Fault}

theorem get_set (t : ProfileTable) (v w : Variant) (p : Profile) :
    (t.set v p).get w = if v = w then p else t.get w := by
  cases v <;> cases w <;> rfl

-- An entry before the others holds for its own variant, unless one of them is for it too.
theorem Holds.behind (spells : Spells key v) (holds : Holds w ((t.set v p).get w) entries q) :
    Holds w (t.get w) ((key, p.key) :: entries) q := by
  cases holds with
  | @entry before after _ _ own last => exact @Holds.entry w (t.get w) ((key, p.key) :: before) after _ _ own last
  | own none_ =>
    rw [get_set]
    split
    · rename_i same
      subst same
      exact @Holds.entry v (t.get v) [] entries key p spells none_
    · rename_i other
      refine .own fun entry member => ?_
      rcases List.mem_cons.mp member with rfl | later
      · exact fun own => other (spells.unique own)
      · exact none_ entry later

theorem override_cons (t : ProfileTable) (key profile : String) (rest : Table String) :
    t.override (Config.textEntries ((key, profile) :: rest)) = Variant.parse (.text key) >>= fun v =>
      Profile.ofValue (.text key) (.text profile) >>= fun p => override (t.set v p) (Config.textEntries rest) := rfl

theorem override_ok (ran : t.override (Config.textEntries entries) = .ok u) :
    (∀ entry ∈ entries, Fits entry) ∧ ∀ v, Holds v (t.get v) entries (u.get v) := by
  induction entries generalizing t with
  | nil =>
    cases ran
    exact ⟨by simp, fun v => .own (by simp)⟩
  | cons entry rest ih =>
    obtain ⟨key, profile⟩ := entry
    rw [override_cons] at ran
    obtain ⟨v, parsed, profiled⟩ := bind_ok ran
    obtain ⟨p, named, onward⟩ := bind_ok profiled
    have spells := Variant.parse_iff.mp parsed
    obtain ⟨fits, holds⟩ := ih onward
    rw [← Profile.ofValue_iff.mp named]
    refine ⟨fun entry member => ?_, fun w => (holds w).behind spells⟩
    rcases List.mem_cons.mp member with rfl | later
    · exact ⟨⟨v, spells⟩, p, rfl⟩
    · exact fits entry later

theorem override_error (ran : t.override (Config.textEntries entries) = .error fault) :
    ∃ before entry after, entries = before ++ entry :: after ∧ (∀ earlier ∈ before, Fits earlier) ∧
      Offence entry fault := by
  induction entries generalizing t with
  | nil => cases ran
  | cons entry rest ih =>
    obtain ⟨key, profile⟩ := entry
    rw [override_cons] at ran
    cases parsed : Variant.parse (.text key) with
    | error own =>
      rw [parsed] at ran
      cases ran
      obtain ⟨rfl, unknown⟩ := Variant.parse_error parsed
      exact ⟨[], (key, profile), rest, rfl, by simp, .variant unknown⟩
    | ok v =>
      have spells := Variant.parse_iff.mp parsed
      cases named : Profile.ofValue (.text key) (.text profile) with
      | error own =>
        rw [parsed, named] at ran
        cases ran
        obtain ⟨rfl, unknown⟩ := Profile.ofValue_error named
        exact ⟨[], (key, profile), rest, rfl, by simp, .profile spells unknown⟩
      | ok p =>
        rw [parsed, named] at ran
        obtain ⟨before, entry, after, rfl, fits, offence⟩ := ih ran
        refine ⟨(key, profile) :: before, entry, after, rfl, fun earlier member => ?_, offence⟩
        rcases List.mem_cons.mp member with rfl | later
        · exact ⟨⟨v, spells⟩, p, Profile.ofValue_iff.mp named⟩
        · exact fits earlier later

theorem Offence.unfit (offence : Offence entry fault) : ¬ Fits entry := by
  rintro ⟨⟨v, spells⟩, p, named⟩
  cases offence with
  | variant unknown => exact unknown v spells
  | profile known unknown => exact unknown p named

theorem profile_ok (ran : Variant.profile (.text name) (Config.textEntries entries) = .ok p) :
    ∃ v, Spells name v ∧ (∀ entry ∈ entries, Fits entry) ∧ Holds v (standard.get v) entries p := by
  obtain ⟨v, parsed, ran⟩ := bind_ok ran
  obtain ⟨table, overridden, ran⟩ := bind_ok ran
  cases ran
  obtain ⟨fits, holds⟩ := override_ok overridden
  exact ⟨v, Variant.parse_iff.mp parsed, fits, holds v⟩

theorem profile_error (ran : Variant.profile (.text name) (Config.textEntries entries) = .error fault) :
    Reported name entries fault := by
  unfold Variant.profile at ran
  cases parsed : Variant.parse (.text name) with
  | error own =>
    rw [parsed] at ran
    cases ran
    obtain ⟨rfl, unknown⟩ := Variant.parse_error parsed
    exact .name unknown
  | ok v =>
    rw [parsed] at ran
    cases overridden : standard.override (Config.textEntries entries) with
    | ok table =>
      change (standard.override (Config.textEntries entries) >>= fun table => pure (table.get v)) = _ at ran
      rw [overridden] at ran
      cases ran
    | error own =>
      change (standard.override (Config.textEntries entries) >>= fun table => pure (table.get v)) = _ at ran
      rw [overridden] at ran
      cases ran
      obtain ⟨before, entry, after, rfl, fits, offence⟩ := override_error overridden
      exact .entry (Variant.parse_iff.mp parsed) fits offence

theorem profile_refused_iff : (∃ fault, Variant.profile (.text name) (Config.textEntries entries) = .error fault) ↔
    (∀ v, ¬ Spells name v) ∨ ∃ entry ∈ entries, ¬ Fits entry := by
  constructor
  · rintro ⟨fault, ran⟩
    cases profile_error ran with
    | name unknown => exact .inl unknown
    | entry known fits offence => exact .inr ⟨_, by simp, offence.unfit⟩
  · intro refused
    cases ran : Variant.profile (.text name) (Config.textEntries entries) with
    | error fault => exact ⟨fault, rfl⟩
    | ok p =>
      obtain ⟨v, spells, fits, _⟩ := profile_ok ran
      rcases refused with unknown | ⟨entry, member, unfit⟩
      · exact absurd spells (unknown v)
      · exact absurd (fits entry member) unfit

theorem Reported.ofVariant (reported : Reported name entries fault) : Failure.ofVariant fault = .variant fault := by
  cases reported with
  | name => rfl
  | entry known fits offence => cases offence <;> rfl

theorem profile_of_override (overridden : standard.override (Config.textEntries entries) = .ok u) (v : Variant) :
    Variant.profile (.text v.text) (Config.textEntries entries) = .ok (u.get v) ∧
      Holds v (standard.get v) entries (u.get v) := by
  refine ⟨?_, (override_ok overridden).2 v⟩
  show (Variant.parse (.text v.text) >>= fun v => standard.override (Config.textEntries entries) >>= fun table =>
    pure (table.get v)) = _
  rw [Placement.parse_text, overridden]
  rfl

end ProfileTable

end AbiBuild
