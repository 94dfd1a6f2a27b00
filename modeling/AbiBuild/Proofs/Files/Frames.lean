import AbiBuild.Proofs.Files.Growth
import AbiBuild.Proofs.Files.Removal

namespace AbiBuild.FileTree
open AbiBuild.Text

structure Within (paths : List FilePath) (t u : FileTree) : Prop where
  here : u.here = t.here
  links : SameLinks t u
  wellFormed : t.WellFormed → u.WellFormed
  nodes : ∀ m, u.node? m = t.node? m ∨ (∃ p ∈ paths, ∃ l, LeadsTo t p l ∧ l <+: m) ∨
    (∃ p ∈ paths, Along t p.root p.names m) ∧ t.node? m = none ∧ u.node? m = some .directory

-- The place lies neither below what the path leads to nor above anything on the way there.
structure Apart (t : FileTree) (p : FilePath) (k : Location) : Prop where
  outside : ∀ l, LeadsTo t p l → ¬ l <+: k
  way : ∀ m, Along t p.root p.names m → ¬ k <+: m

variable {t u v : FileTree} {l m k : Location} {p q root : FilePath} {names front : List String}
  {paths more : List FilePath} {made : Location → Prop}

theorem Within.refl (paths : List FilePath) (t : FileTree) : Within paths t t :=
  ⟨rfl, .refl t, id, fun _ => .inl rfl⟩

theorem Within.mono (within : Within paths t u) (fewer : ∀ p ∈ paths, p ∈ more) : Within more t u := by
  refine ⟨within.here, within.links, within.wellFormed, fun m => ?_⟩
  rcases within.nodes m with same | ⟨p, member, inside⟩ | ⟨⟨p, member, along⟩, new⟩
  · exact .inl same
  · exact .inr (.inl ⟨p, fewer p member, inside⟩)
  · exact .inr (.inr ⟨⟨p, fewer p member, along⟩, new⟩)

theorem Within.steady (within : Within paths t u) (wellFormed : t.WellFormed) : Steady t u :=
  ⟨within.wellFormed wellFormed, within.here, within.links⟩

theorem Within.trans (wellFormed : t.WellFormed) (first : Within paths t u) (second : Within paths u v) :
    Within paths t v := by
  have steady := first.steady wellFormed
  refine ⟨second.here.trans first.here, first.links.trans second.links,
    fun wellFormed => second.wellFormed (first.wellFormed wellFormed), fun m => ?_⟩
  rcases second.nodes m with same | ⟨p, member, l, leads, inside⟩ | ⟨⟨p, member, along⟩, absent, present⟩
  · rw [same]
    exact first.nodes m
  · exact .inr (.inl ⟨p, member, l, steady.leadsTo.mp leads, inside⟩)
  · rcases first.nodes m with same | touched | ⟨_, _, there⟩
    · exact .inr (.inr ⟨⟨p, member, steady.along.mp along⟩, same ▸ absent, present⟩)
    · exact .inr (.inl touched)
    · rw [absent] at there
      cases there

-- Where the root leads nowhere, its place may be taken to be anywhere, and so away from any location.
theorem Within.of_hosted (hosts : Hosts t root l) (plain : ∀ name ∈ names, name ≠ "..") (nonempty : names ≠ [])
    (member : root.under names ∈ paths)
    (alters : ∀ l, Hosts t root l → Alters (l ++ names) (Along t root.root (root.under names).names) t u) :
    Within paths t u := by
  have own := alters l hosts
  refine ⟨own.here, own.links, own.wellFormed, fun m => ?_⟩
  by_cases somewhere : ∃ k, LeadsTo t root k
  · obtain ⟨k, leads⟩ := somewhere
    obtain ⟨rfl, clear⟩ := hosts k leads
    by_cases inside : k ++ names <+: m
    · exact .inr (.inl ⟨_, member, _, leads.under clear plain, inside⟩)
    · rcases own.elsewhere m inside with same | ⟨along, new⟩
      · exact .inl same
      · exact .inr (.inr ⟨⟨_, member, along⟩, new⟩)
  · have outside : ¬ m ++ names <+: m := by
      intro inside
      have := inside.length_le
      have := List.length_pos_iff.mpr nonempty
      simp only [List.length_append] at *
      omega
    rcases (alters m fun k leads => (somewhere ⟨k, leads⟩).elim).elsewhere m outside with same | ⟨along, new⟩
    · exact .inl same
    · exact .inr (.inr ⟨⟨_, member, along⟩, new⟩)

theorem Within.file (within : Within paths t u) (outside : ∀ p ∈ paths, ∀ l, LeadsTo t p l → ¬ l <+: m)
    {content : Bytes} {executable : Bool} :
    u.node? m = some (.file content executable) ↔ t.node? m = some (.file content executable) := by
  rcases within.nodes m with same | ⟨p, member, l, leads, inside⟩ | ⟨_, absent, present⟩
  · rw [same]
  · exact absurd inside (outside p member l leads)
  · rw [absent, present]
    simp

theorem Within.untouched (within : Within paths t u) (apart : ∀ p ∈ paths, Apart t p k) : SameAt k t u := by
  intro names
  rcases within.nodes (k ++ names) with same | ⟨p, member, l, leads, inside⟩ | ⟨⟨p, member, along⟩, _⟩
  · exact same.symm
  · -- What the path leads to is then above the place or below it.
    rcases List.prefix_or_prefix_of_prefix inside (List.prefix_append k names) with above | below
    · exact ((apart p member).outside l leads above).elim
    · refine ((apart p member).way l ⟨p.names.length, ?_⟩ below).elim
      rwa [List.take_length]
  · exact ((apart p member).way _ along (List.prefix_append k names)).elim

theorem Apart.under (apart : Apart t p k) (clear : ∀ l, LeadsTo t p l → Clear t l)
    (plain : ∀ name ∈ names, name ≠ "..") : Apart t (p.under names) k := by
  have beginning : ∀ m count, LeadsTo t ⟨p.root, (p.under names).names.take count⟩ m →
      Along t p.root p.names m ∨ ∃ l rest, LeadsTo t p l ∧ m = l ++ rest := by
    intro m count leads
    rw [FilePath.under, List.take_append] at leads
    by_cases short : count ≤ p.names.length
    · rw [Nat.sub_eq_zero_of_le short, List.take_zero, List.append_nil] at leads
      exact .inl ⟨count, leads⟩
    · rw [List.take_of_length_le (by omega)] at leads
      obtain ⟨l, first, second⟩ := Leads.split leads
      refine .inr ⟨l, _, first, leads_down (clear l first) (fun name member => ?_) second⟩
      exact plain name (List.mem_of_mem_take member)
  have away : ∀ l rest, LeadsTo t p l → ¬ k <+: l ++ rest := by
    intro l rest leads inside
    rcases List.prefix_or_prefix_of_prefix (List.prefix_append l rest) inside with above | below
    · exact apart.outside l leads above
    · refine apart.way l ⟨p.names.length, ?_⟩ below
      rwa [List.take_length]
  constructor
  · intro l leads inside
    obtain ⟨m, first, second⟩ := Leads.split leads
    rw [leads_down (clear m first) plain second] at inside
    exact apart.outside m first ((List.prefix_append _ _).trans inside)
  · rintro m ⟨count, leads⟩ inside
    rcases beginning m count leads with along | ⟨l, rest, place, rfl⟩
    · exact apart.way m along inside
    · exact away l rest place inside

theorem apart_of_names (clear : Clear t []) (absolute : p.root ≠ .relative) (plain : ∀ name ∈ p.names, name ≠ "..")
    (outside : ¬ p.names <+: k) (inside : ¬ k <+: p.names) : Apart t p k := by
  have place : ∀ count m, LeadsTo t ⟨p.root, p.names.take count⟩ m → m = p.names.take count := by
    intro count m leads
    unfold LeadsTo at leads
    rw [base_absolute absolute] at leads
    exact leads_down clear (fun name member => plain name (List.mem_of_mem_take member)) leads
  constructor
  · intro l leads above
    have whole := place p.names.length l (by rwa [List.take_length])
    rw [List.take_length] at whole
    exact outside (whole ▸ above)
  · rintro m ⟨count, leads⟩ below
    rw [place count m leads] at below
    exact inside (below.trans (List.take_prefix count p.names))

theorem copy_alters {origin : FilePath} (hosts : Hosts t root l) (plain : ∀ name ∈ names, name ≠ "..")
    (nonempty : names ≠ []) (inside : front <+: names)
    (ran : t.copy origin (root.under names) = .ok u) : Alters (l ++ front) made t u := by
  obtain ⟨_, _, _, _, _, place, free, rfl⟩ := copy_puts hosts plain nonempty ran
  refine (changes_put ?_ place.nonempty place.parent free (place.noLink nonempty) (by simp)).alters
  exact (List.prefix_append_right_inj l).mpr inside

end AbiBuild.FileTree
