import AbiBuild.Config.Load
import AbiBuild.Proofs.Config.Accepted
import AbiBuild.Proofs.Files.Resolving

namespace AbiBuild.Config
open FileTree

variable {reader : Markup.Reader} {t u : FileTree} {path : FilePath} {base : Option FilePath} {c c' : Config} {m : Location}

theorem load_parts (ran : load reader t path base = .ok c) : t.isFile path = .ok true ∧ ∃ data,
    readDocument reader t path = .ok (.map data) ∧ resolve t (some (base.getD path.parent)) data = .ok c := by
  obtain ⟨there, asked, ran⟩ := bind_ok ran
  have asked : t.isFile path = .ok there := mapError_ok asked
  cases there with
  | false => cases ran
  | true =>
    obtain ⟨document, read, ran⟩ := bind_ok ran
    have read := mapError_ok read
    cases document with
    | map data => exact ⟨asked, data, read, ran⟩
    | _ => cases ran

theorem load_accepted (ran : load reader t path base = .ok c) : Accepted c := by
  obtain ⟨_, _, _, resolved⟩ := load_parts ran
  exact resolve_accepted resolved

theorem load_unmarked (ran : load reader t path base = .ok c) : ∀ library ∈ c.libraries, library ≠ markerName := by
  obtain ⟨_, _, _, resolved⟩ := load_parts ran
  exact resolve_unmarked resolved

theorem load_architectures (ran : load reader t path base = .ok c) : c.architectures ≠ [] := by
  obtain ⟨_, _, _, resolved⟩ := load_parts ran
  exact resolve_architectures resolved

theorem resolve_settings_congr (resolved : ∀ p, u.resolve p = t.resolve p) (base : Option FilePath) (data : Entries) :
    resolve u base data = resolve t base data := by
  have locations : location u = location t := by
    funext base v
    unfold location
    simp only [resolved]
  have optional : optionalLocation u = optionalLocation t := by
    funext base v
    unfold optionalLocation
    rw [locations]
  unfold resolve
  simp only [resolved, locations, optional]

theorem load_congr (there : t.isFile path = .ok true) (again : u.isFile path = .ok true)
    (read : u.readText path = t.readText path) (resolved : ∀ p, u.resolve p = t.resolve p) :
    load reader u path base = load reader t path base := by
  unfold load readDocument
  simp only [there, again, read, resolve_settings_congr resolved]

-- Whatever has become of the tree, what is loaded from a file that has stayed as it was is the same.
theorem load_again (here : u.here = t.here) (same : SameLinks t u) (loaded : load reader t path base = .ok c)
    (still : ∀ m, LeadsTo t path m → u.node? m = t.node? m) (again : load reader u path base = .ok c') : c' = c := by
  obtain ⟨there, _⟩ := load_parts loaded
  obtain ⟨here', _⟩ := load_parts again
  obtain ⟨m, leads, before, _⟩ := isFile_leads rfl (.refl t) there
  obtain ⟨k, leads', after, _⟩ := isFile_leads here same here'
  obtain rfl : m = k := Leads.deterministic leads leads'
  have equal : load reader u path base = load reader t path base :=
    load_congr there here' (readText_same before after (still m leads)) (resolve_congr here same)
  exact Except.ok.inj (again.symm.trans (equal.trans loaded))

theorem load_stays (here : u.here = t.here) (same : SameLinks t u) (loaded : load reader t path base = .ok c)
    (still : ∀ m, LeadsTo t path m → u.node? m = t.node? m)
    (kept : ∀ k, GoesOver t path k → t.node? k = some .directory → u.node? k = some .directory) :
    load reader u path base = .ok c := by
  obtain ⟨asked, _⟩ := load_parts loaded
  obtain ⟨m, leads, before, content, executable, there⟩ := isFile_leads rfl (.refl t) asked
  have stays := (still m leads).trans there
  have after := locate_stays here same before there stays kept
  rw [load_congr asked (isFile_of_located after stays) (readText_same before after (still m leads))
    (resolve_congr here same), loaded]

end AbiBuild.Config
