import AbiBuild.Text.Lines

namespace AbiBuild.Text

def Unbroken (cs : List Char) : Prop := ∀ c ∈ cs, isBreak c = false

instance (cs : List Char) : Decidable (Unbroken cs) := List.decidableBAll (isBreak · = false) cs

-- What separates lines: one character, or a carriage return with the line feed behind it.
def IsEnding (e : List Char) : Prop := e = ['\r', '\n'] ∨ ∃ c, isBreak c = true ∧ e = [c]

def fileLines (cs : List Char) : List (List Char) := linesFrom [] (unifyNewlines cs)

variable {c : Char} {cs e line rest : List Char}

theorem Unbroken.head (unbroken : Unbroken (c :: cs)) : isBreak c = false := unbroken c List.mem_cons_self

theorem Unbroken.tail (unbroken : Unbroken (c :: cs)) : Unbroken cs :=
  fun d member => unbroken d (List.mem_cons_of_mem _ member)

theorem Unbroken.append (first : Unbroken cs) (second : Unbroken rest) : Unbroken (cs ++ rest) := by
  intro c member
  rcases List.mem_append.mp member with front | back
  · exact first c front
  · exact second c back

theorem unbroken_singleton (inside : isBreak c = false) : Unbroken [c] := by
  intro d member
  rwa [List.mem_singleton.mp member]

theorem not_return (unbroken : isBreak c = false) : c ≠ '\r' := by
  rintro rfl
  exact absurd unbroken (by decide)

theorem linesFrom_inside (unbroken : isBreak c = false) : linesFrom line (c :: rest) = linesFrom (c :: line) rest := by
  rw [linesFrom, if_neg (by simp [unbroken])]
  exact fun _ same => absurd same (not_return unbroken)

theorem linesFrom_ending (ending : isBreak c = true) (alone : c ≠ '\r') :
    linesFrom line (c :: rest) = line.reverse :: linesFrom [] rest := by
  rw [linesFrom, if_pos ending]
  exact fun _ same => absurd same alone

theorem linesFrom_unbroken (unbroken : Unbroken cs) (rest : List Char) :
    linesFrom line (cs ++ rest) = linesFrom (cs.reverse ++ line) rest := by
  induction cs generalizing line with
  | nil => rfl
  | cons c more ih =>
    rw [List.cons_append, linesFrom_inside unbroken.head, ih unbroken.tail, List.reverse_cons, List.append_assoc,
      List.singleton_append]

theorem linesFrom_line (unbroken : Unbroken cs) (ending : isBreak c = true) (alone : c ≠ '\r') :
    linesFrom [] (cs ++ c :: rest) = cs :: linesFrom [] rest := by
  rw [linesFrom_unbroken unbroken, linesFrom_ending ending alone, List.append_nil, List.reverse_reverse]

theorem unifyNewlines_other (other : c ≠ '\r') : unifyNewlines (c :: rest) = c :: unifyNewlines rest := by
  rw [unifyNewlines]
  · exact fun _ same => absurd same other
  · exact other

theorem unifyNewlines_return (alone : rest.head? ≠ some '\n') :
    unifyNewlines ('\r' :: rest) = '\n' :: unifyNewlines rest := by
  rw [unifyNewlines]
  rintro more rfl
  exact alone rfl

theorem unifyNewlines_unbroken (unbroken : Unbroken cs) (rest : List Char) :
    unifyNewlines (cs ++ rest) = cs ++ unifyNewlines rest := by
  induction cs with
  | nil => rfl
  | cons c more ih =>
    rw [List.cons_append, unifyNewlines_other (not_return unbroken.head), ih unbroken.tail, List.cons_append]

theorem fileLines_line (unbroken : Unbroken cs) (ending : IsEnding e) (rest : List Char) :
    fileLines (cs ++ e ++ rest) = cs :: fileLines rest ∨
      ∃ later, fileLines rest = [] :: later ∧ fileLines (cs ++ e ++ rest) = cs :: later := by
  have feed : isBreak '\n' = true := by decide
  have alone : '\n' ≠ '\r' := by decide
  unfold fileLines
  rw [List.append_assoc, unifyNewlines_unbroken unbroken]
  obtain rfl | ⟨c, ending, rfl⟩ := ending
  · exact .inl (linesFrom_line unbroken feed alone)
  · rw [List.singleton_append]
    by_cases return_ : c = '\r'
    · subst return_
      by_cases joined : rest.head? = some '\n'
      · obtain ⟨more, rfl⟩ := List.head?_eq_some_iff.mp joined
        refine .inr ⟨fileLines more, ?_, linesFrom_line unbroken feed alone⟩
        rw [unifyNewlines_other alone]
        exact linesFrom_ending feed alone
      · rw [unifyNewlines_return joined]
        exact .inl (linesFrom_line unbroken feed alone)
    · rw [unifyNewlines_other return_]
      exact .inl (linesFrom_line unbroken ending return_)

theorem fileLines_last (unbroken : Unbroken cs) : fileLines cs = if cs.isEmpty then [] else [cs] := by
  have whole := @linesFrom_unbroken cs [] unbroken []
  have same := unifyNewlines_unbroken unbroken []
  rw [List.append_nil] at whole same
  unfold fileLines
  rw [same, show unifyNewlines [] = [] from rfl, List.append_nil, whole, linesFrom]
  simp

end AbiBuild.Text
