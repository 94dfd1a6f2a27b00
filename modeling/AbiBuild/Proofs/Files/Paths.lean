import AbiBuild.FilePath

namespace AbiBuild
open AbiBuild.Text

def Plain (s : String) : Prop := s ≠ "" ∧ s ≠ "." ∧ s ≠ ".." ∧ '/' ∉ s.toList

instance (s : String) : Decidable (Plain s) :=
  inferInstanceAs (Decidable (s ≠ "" ∧ s ≠ "." ∧ s ≠ ".." ∧ '/' ∉ s.toList))

namespace FilePath

variable {p : FilePath} {s : String} {names more : List String}

def under (p : FilePath) (names : List String) : FilePath := ⟨p.root, p.names ++ names⟩

theorem rootOf_plain {cs : List Char} (plain : '/' ∉ cs) : rootOf cs = .relative := by
  unfold rootOf
  split <;> simp at plain ⊢

theorem ofText_plain (plain : Plain s) : ofText s = ⟨.relative, [s]⟩ := by
  obtain ⟨nonempty, notDot, _, noMark⟩ := plain
  unfold ofText
  rw [rootOf_plain noMark, pieces_eq_singleton noMark]
  simp [isName, nonempty, notDot]

theorem child_plain (plain : Plain s) : p.child s = p.under [s] := by
  unfold child
  rw [ofText_plain plain]
  rfl

theorem under_under : (p.under names).under more = p.under (names ++ more) := by
  simp [under]

theorem under_nil : p.under [] = p := by
  simp [under]

theorem parent_under {name : String} : (p.under (names ++ [name])).parent = p.under names := by
  simp [under, parent, ← List.append_assoc]

def anyNul (names : List String) : Bool := names.any fun name => name.toList.any fun c => c.toNat = 0

theorem hasNul_under : (p.under names).hasNul = (p.hasNul || anyNul names) := by
  simp [under, hasNul, anyNul]

theorem plain_replicate {c : Char} {count : Nat} (notMark : c ≠ '/') (more : 2 < count) :
    Plain (String.ofList (List.replicate count c)) := by
  have other : ∀ s : String, s.toList.length ≤ 2 → String.ofList (List.replicate count c) ≠ s := by
    rintro s few rfl
    rw [String.toList_ofList, List.length_replicate] at few
    omega
  refine ⟨other _ (by decide), other _ (by decide), other _ (by decide), ?_⟩
  rw [String.toList_ofList, List.mem_replicate]
  exact fun mark => notMark mark.2.symm

theorem noNul_replicate {c : Char} (notNul : c.toNat ≠ 0) (count : Nat) :
    anyNul [String.ofList (List.replicate count c)] = false := by
  simp [anyNul, notNul]

theorem under_inj (same : p.under names = p.under more) : names = more := by
  simpa [under] using same

end FilePath

end AbiBuild
