import AbiBuild.Proofs.Build.Invocations

namespace AbiBuild.Build
open AbiBuild.Text FileTree

structure Shelf where
  root : FilePath
  place : Location
  libraries : List String
  abi : Abi
  counts : Profile → String → Node → Prop

namespace Shelf

def Sure (s : Shelf) (t : FileTree) (p : Profile) : Prop :=
  ∀ library ∈ s.libraries, ∀ content executable,
    t.node? (s.place ++ libraryNames s.abi p library) = some (.file content executable) →
    s.counts p library (.file content executable)

def Unmarked (s : Shelf) (t : FileTree) : Prop :=
  ∀ content executable, t.node? (s.place ++ markerNames s.abi) ≠ some (.file content executable)

structure Marked (s : Shelf) (t : FileTree) (p : Profile) : Prop where
  stands : Stands t s.root s.place
  marker : ∃ executable, t.node? (s.place ++ markerNames s.abi) =
    some (.file (encode (p.outputDir ++ "\n")) executable)
  others : ∀ q, q ≠ p → s.Sure t q

-- What holds between any two runs.
def Settled (s : Shelf) (t : FileTree) : Prop :=
  s.Unmarked t ∧ (∀ p, s.Sure t p) ∨ ∃ p, s.Marked t p

end Shelf

def Job.shelf (j : Job) (root : FilePath) (l : Location)
    (counts : Abi → Profile → String → Node → Prop) : Shelf :=
  ⟨root, l, j.libraries, j.abi, counts j.abi⟩

-- What holds of a job's shelf in each phase. Nothing is left to discard once the old marker has been
-- heeded; from the new marker on, the profile's own libraries are in doubt until the job ends.
def Kept (j : Job) (s : Shelf) (t : FileTree) : Phase → Prop
  | .makingHome | .clearing | .marking => s.Settled t ∧ ∀ p, s.Sure t p
  | .starting | .running .. | .stopping _ | .exited _ | .unmarking .. => s.Marked t j.profile
  | .ended result => (result.ok = false → s.Settled t) ∧
    (result.ok = true → s.Unmarked t ∧ ∀ q, q ≠ j.profile → s.Sure t q)
  | _ => s.Settled t

variable {j : Job} {compiler : Compiler} {root : FilePath} {t u : FileTree} {l m region : Location}
  {phase next : Phase} {s : Shelf} {p q : Profile} {made : Location → Prop} {r : Trail}
  {targets : List (Profile × String)} {counts more : Abi → Profile → String → Node → Prop}
  {libraries : List String}

namespace Shelf

theorem Sure.fewer (sure : s.Sure t p)
    (fewer : ∀ library, Fewer (s.place ++ libraryNames s.abi p library) t u) : s.Sure u p :=
  fun library member content executable there =>
    sure library member content executable (fewer library content executable there)

theorem Unmarked.fewer (unmarked : s.Unmarked t)
    (fewer : Fewer (s.place ++ markerNames s.abi) t u) : s.Unmarked u :=
  fun content executable there => unmarked content executable (fewer content executable there)

theorem Marked.fewer (marked : s.Marked t p) (stands : Stands u s.root s.place)
    (marker : Fewer (s.place ++ markerNames s.abi) u t)
    (fewer : ∀ q, q ≠ p → ∀ library, Fewer (s.place ++ libraryNames s.abi q library) t u) :
    s.Marked u p := by
  obtain ⟨executable, there⟩ := marked.marker
  exact ⟨stands, ⟨executable, marker _ _ there⟩, fun q other => (marked.others q other).fewer (fewer q other)⟩

theorem Settled.fewer (settled : s.Settled t) (stands : Stands t s.root s.place → Stands u s.root s.place)
    (gone : Fewer (s.place ++ markerNames s.abi) t u)
    (marker : Fewer (s.place ++ markerNames s.abi) u t)
    (fewer : ∀ q library, Fewer (s.place ++ libraryNames s.abi q library) t u) : s.Settled u := by
  rcases settled with ⟨unmarked, sure⟩ | ⟨p, marked⟩
  · exact .inl ⟨unmarked.fewer gone, fun p => (sure p).fewer (fewer p)⟩
  · exact .inr ⟨p, marked.fewer (stands marked.stands) marker fun q _ => fewer q⟩

end Shelf

theorem kept_lost (lost : j.Lost phase) (settled : s.Settled t) : Kept j s t phase := by
  obtain ⟨cause, rfl⟩ | ⟨diagnostic, status, duration, rfl⟩ := lost
  · exact settled
  · exact ⟨fun _ => settled, fun good => by cases good⟩

theorem settled_elsewhere (changes : Changes region made t u)
    (outside : ∀ names, ¬ region <+: s.place ++ s.abi.text :: names) (settled : s.Settled t) :
    s.Settled u :=
  settled.fewer changes.stands (.elsewhere changes (outside _)) (.elsewhere' changes (outside _))
    fun _ _ => .elsewhere changes (outside _)

theorem kept_elsewhere (changes : Changes region made t u)
    (outside : ∀ names, ¬ region <+: s.place ++ s.abi.text :: names) (kept : Kept j s t phase) :
    Kept j s u phase := by
  have settles := @settled_elsewhere t u region s made changes outside
  have sure : ∀ {p}, s.Sure t p → s.Sure u p := fun sure =>
    sure.fewer fun _ => .elsewhere changes (outside _)
  have marks : ∀ {p}, s.Marked t p → s.Marked u p := fun marked =>
    marked.fewer (changes.stands marked.stands) (.elsewhere' changes (outside _))
      fun _ _ _ => .elsewhere changes (outside _)
  cases phase with
  | ready => exact settles kept
  | discarding => exact settles kept
  | broken => exact settles kept
  | makingHome => exact ⟨settles kept.1, fun p => sure (kept.2 p)⟩
  | clearing => exact ⟨settles kept.1, fun p => sure (kept.2 p)⟩
  | marking => exact ⟨settles kept.1, fun p => sure (kept.2 p)⟩
  | starting => exact marks kept
  | running => exact marks kept
  | stopping => exact marks kept
  | exited => exact marks kept
  | unmarking => exact marks kept
  | ended result =>
    refine ⟨fun bad => settles (kept.1 bad), fun good => ?_⟩
    obtain ⟨unmarked, others⟩ := kept.2 good
    exact ⟨unmarked.fewer (.elsewhere changes (outside _)), fun q other => sure (others q other)⟩

theorem staleProfiles_record (p : Profile) : Text.readText (encode (p.outputDir ++ "\n")) =
    .ok (p.outputDir ++ "\n") ∧ Job.staleProfiles (p.outputDir ++ "\n") = [p] := by
  cases p
  · exact ⟨by decide +kernel, by decide⟩
  · exact ⟨by decide +kernel, by decide⟩

theorem clearing_fewer (clearing : Clearing root l j.abi targets t r) (m : Location) :
    Fewer m t r.tree := by
  intro content executable there
  rcases clearing.only m with same | ⟨gone, _⟩
  · rwa [same] at there
  · rw [gone] at there
    cases there

theorem clearing_marker {other : Abi} (clearing : Clearing root l j.abi targets t r) :
    r.tree.node? (l ++ markerNames other) = t.node? (l ++ markerNames other) := by
  rcases clearing.only (l ++ markerNames other) with same | ⟨_, target, _, place⟩
  · exact same
  · exact absurd (List.append_cancel_left place).symm libraryNames_ne_marker

theorem clearing_settled (clearing : Clearing root l j.abi targets t r)
    (settled : (j.shelf root l counts).Settled t) : (j.shelf root l counts).Settled r.tree := by
  have marker : Fewer (l ++ markerNames j.abi) r.tree t := fun content executable there => by
    rwa [clearing_marker clearing]
  exact settled.fewer (clearing.changes nowhere).stands (clearing_fewer clearing _) marker
    fun _ _ => clearing_fewer clearing _

-- Once the marker has been heeded, every library that is left counts.
theorem discard_sure (hosts : Hosts t root l) (wellFormed : t.WellFormed) (homed : j.Homed root)
    (fine : (j.discard t).1.fault = none) (settled : (j.shelf root l counts).Settled t) (p : Profile) :
    (j.shelf root l counts).Sure (j.discard t).1.tree p := by
  have plain := markerNames_notUp j.abi
  have some_ := markerNames_ne_nil j.abi
  rcases discard_parts (j := j) (t := t) with ⟨fault, same⟩ | ⟨missing, same⟩ | ⟨record, _, recorded, same⟩
  · rw [same] at fine
    cases fine
  · rw [same]
    rcases settled with ⟨_, sure⟩ | ⟨q, marked⟩
    · exact sure p
    · obtain ⟨executable, there⟩ := marked.marker
      obtain ⟨stands, clear⟩ := hosts.stands marked.stands
      rw [marker_eq homed] at missing
      exact absurd there (isFile_false stands clear wellFormed plain some_ (markerNames_nameable _) missing)
  · rw [same] at fine ⊢
    have clearing := clearing_stale hosts homed (Job.staleProfiles record)
    have fewer : ∀ {q}, (j.shelf root l counts).Sure t q →
        (j.shelf root l counts).Sure (j.clearStale (Job.staleProfiles record) t).tree q :=
      fun sure => sure.fewer fun _ => clearing_fewer clearing _
    rcases settled with ⟨_, sure⟩ | ⟨q, marked⟩
    · exact fewer (sure p)
    · by_cases own : p = q
      · subst own
        obtain ⟨executable, there⟩ := marked.marker
        obtain ⟨stands, clear⟩ := hosts.stands marked.stands
        obtain ⟨read, stale⟩ := staleProfiles_record p
        rw [marker_eq homed, readText_under stands clear wellFormed plain some_ (markerNames_nameable _) there,
          read] at recorded
        cases recorded
        rw [stale] at clearing fine ⊢
        intro library member content executable left
        have gone := clearing.done fine stands wellFormed (p, library) (mem_targets.mpr ⟨by simp, member⟩)
        exact absurd (gone.symm.trans left) (by simp)
      · exact fewer (marked.others p own)

theorem marked_deposit (wellFormed : t.WellFormed) (absolute : root.root ≠ .relative)
    (hosts : Hosts t root l) (homed : j.Homed root) {items : List (FilePath × Node)}
    (below : ∀ item ∈ items, Below (j.outputDir j.profile) item)
    (marked : (j.shelf root l counts).Marked t j.profile) :
    (j.shelf root l counts).Marked (t.depositAll items) j.profile := by
  rw [outputDir_eq homed] at below
  have changes := depositAll_changes wellFormed absolute hosts (outputNames_notUp _ _) below
  exact marked.fewer (changes.stands marked.stands) (.elsewhere' changes (marker_outside_outputs _ _))
    fun q other library => .elsewhere changes (library_outside_outputs other)

theorem kept_acts (wellFormed : t.WellFormed) (absolute : root.root ≠ .relative)
    (hosts : Hosts t root l) (homed : j.Homed root) (tidy : j.Tidy compiler (j.outputDir j.profile))
    (own : Own j compiler root l t phase) (kept : Kept j (j.shelf root l counts) t phase)
    (acts : j.Acts compiler phase t next u) : Kept j (j.shelf root l counts) u next := by
  have discards : (j.shelf root l counts).Settled t →
      (j.shelf root l counts).Settled (j.discard t).1.tree := by
    intro settled
    rcases discard_parts (j := j) (t := t) with ⟨fault, same⟩ | ⟨_, same⟩ | ⟨record, _, _, same⟩
    · rwa [same]
    · rwa [same]
    · rw [same]
      exact clearing_settled (clearing_stale hosts homed _) settled
  have house : ∀ m, Fewer m t (t.ensureDirectory j.home).tree ∧
      Fewer m (t.ensureDirectory j.home).tree t := by
    have absolute' : j.home.root ≠ .relative := by
      rw [homed.home]
      exact absolute
    exact fun m => ⟨fun _ _ => (ensureDirectory_file wellFormed absolute').mp,
      fun _ _ => (ensureDirectory_file wellFormed absolute').mpr⟩
  have houses : (j.shelf root l counts).Settled t →
      (j.shelf root l counts).Settled (t.ensureDirectory j.home).tree := by
    intro settled
    have stands : Stands t root l → Stands (t.ensureDirectory j.home).tree root l := by
      rw [homed.home]
      exact (ensured_changes wellFormed absolute [j.abi.text] l).stands
    exact settled.fewer stands (house _).1 (house _).2 fun _ _ => (house _).1
  have clears := clearing_outputs hosts homed j.profile
  cases acts with
  | cancelled lost => exact kept_lost lost kept
  | begun => exact kept
  | discarded fine => exact ⟨discards kept, discard_sure hosts wellFormed homed fine kept⟩
  | undiscarded _ lost => exact kept_lost lost (discards kept)
  | housed => exact ⟨houses kept.1, fun p => (kept.2 p).fewer fun _ => (house _).1⟩
  | unhoused _ lost => exact kept_lost lost (houses kept.1)
  | cleared =>
    exact ⟨clearing_settled clears kept.1, fun p => (kept.2 p).fewer fun _ => clearing_fewer clears _⟩
  | uncleared _ lost => exact kept_lost lost (clearing_settled clears kept.1)
  | marked written =>
    obtain ⟨changes, stands, there⟩ := marker_written hosts homed written
    exact ⟨changes.stands stands, there,
      fun q _ => (kept.2 q).fewer fun _ => .elsewhere changes library_outside_marker⟩
  | unmarked _ lost => exact kept_lost lost kept.1
  | unlaunched lost => exact kept_lost lost (.inr ⟨_, kept⟩)
  | launched => exact kept
  | waited => exact kept
  | called => exact kept
  | exited =>
    exact marked_deposit wellFormed absolute hosts homed
      (fun item member => tidy _ own.1 item (List.mem_append_left _ member)) kept
  | stopped lost =>
    exact kept_lost lost (.inr ⟨_, marked_deposit wellFormed absolute hosts homed
      (fun item member => tidy _ own.1 item (List.mem_append_right _ member)) kept⟩)
  | failed lost => exact kept_lost lost (.inr ⟨_, kept⟩)
  | collected => exact kept
  | kept _ lost => exact kept_lost lost (.inr ⟨_, kept⟩)
  | built removed =>
    obtain ⟨changes, gone⟩ := marker_removed hosts homed removed
    refine ⟨fun bad => (by cases bad), fun _ => ⟨fun content executable there => ?_, fun q other => ?_⟩⟩
    · exact absurd ((gone wellFormed kept.stands).symm.trans there) (by simp)
    · exact (kept.others q other).fewer fun _ => .elsewhere changes library_outside_marker
  | finished => exact kept

end AbiBuild.Build
