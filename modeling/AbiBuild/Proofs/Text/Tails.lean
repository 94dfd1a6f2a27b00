import AbiBuild.Proofs.Text.Lines

namespace AbiBuild.Text
variable {c d : Char} {cs line word : List Char} {words : List (List Char)} {s t x : String} {xs : List String}
  {n m : Int}

theorem Unbroken.reverse (unbroken : Unbroken cs) : Unbroken cs.reverse := fun c member =>
  unbroken c (List.mem_reverse.mp member)

theorem Unbroken.cons (inside : isBreak c = false) (unbroken : Unbroken cs) : Unbroken (c :: cs) :=
  List.forall_mem_cons.mpr ⟨inside, unbroken⟩

theorem unbroken_nil : Unbroken [] := fun _ member => by cases member

theorem isBlank_of_isBreak (ending : isBreak c = true) : isBlank c = true := by
  have among : ∀ point ∈ breakPoints, blankPoints.contains point = true := by decide
  exact among _ (List.contains_iff_mem.mp ending)

theorem linesFrom_pieces (under : Unbroken line) : ∀ word ∈ linesFrom line cs, Unbroken word := by
  fun_induction linesFrom line cs with
  | case1 => exact fun _ member => by cases member
  | case2 => exact fun word member => List.mem_singleton.mp member ▸ under.reverse
  | case3 line rest ih => exact List.forall_mem_cons.mpr ⟨under.reverse, ih unbroken_nil⟩
  | case4 line c rest _ ending ih => exact List.forall_mem_cons.mpr ⟨under.reverse, ih unbroken_nil⟩
  | case5 line c rest _ inside ih => exact ih (under.cons (Bool.not_eq_true _ ▸ inside))

theorem mem_linesFrom (inside : isBreak d = false) (member : d ∈ line ∨ d ∈ cs) :
    ∃ word ∈ linesFrom line cs, d ∈ word := by
  fun_induction linesFrom line cs with
  | case1 line empty => simp [List.isEmpty_iff.mp empty] at member
  | case2 line nonempty =>
    rcases member with under | none_
    · exact ⟨_, List.mem_singleton_self _, List.mem_reverse.mpr under⟩
    · cases none_
  | case3 line rest ih =>
    rcases member with under | later
    · exact ⟨_, List.mem_cons_self, List.mem_reverse.mpr under⟩
    · have apart : d ≠ '\r' ∧ d ≠ '\n' := by
        constructor <;> rintro rfl <;> exact absurd inside (by decide)
      obtain ⟨word, found, own⟩ := ih (.inr (by simpa [apart] using later))
      exact ⟨word, List.mem_cons_of_mem _ found, own⟩
  | case4 line c rest _ ending ih =>
    rcases member with under | later
    · exact ⟨_, List.mem_cons_self, List.mem_reverse.mpr under⟩
    · have apart : d ≠ c := by
        rintro rfl
        rw [ending] at inside
        cases inside
      obtain ⟨word, found, own⟩ := ih (.inr (by simpa [apart] using later))
      exact ⟨word, List.mem_cons_of_mem _ found, own⟩
  | case5 line c rest _ inside ih =>
    refine ih ?_
    rcases member with under | later
    · exact .inl (List.mem_cons_of_mem _ under)
    · rcases List.mem_cons.mp later with rfl | behind
      · exact .inl List.mem_cons_self
      · exact .inr behind

-- Lines without separators, none of them empty, are what a text falls into that joins them. Induction on the lines;
-- the last one has no separator behind it.
theorem linesFrom_intercalate (unbroken : ∀ word ∈ words, Unbroken word) (some_ : ∀ word ∈ words, word ≠ []) :
    linesFrom [] (['\n'].intercalate words) = words := by
  induction words with
  | nil => rfl
  | cons word others ih =>
    obtain ⟨own, theirs⟩ := List.forall_mem_cons.mp unbroken
    obtain ⟨full, fuller⟩ := List.forall_mem_cons.mp some_
    cases others with
    | nil =>
      have whole := @linesFrom_unbroken word [] own []
      rw [List.append_nil, List.append_nil] at whole
      rw [show ['\n'].intercalate [word] = word by simp [List.intercalate], whole, linesFrom]
      simp [full]
    | cons next more =>
      have joined : ['\n'].intercalate (word :: next :: more) = word ++ '\n' :: ['\n'].intercalate (next :: more) := by
        simp [List.intercalate, List.intersperse]
      rw [joined, linesFrom_line own (by decide) (by decide), ih theirs fuller]

theorem lines_pieces (s : String) : ∀ x ∈ lines s, Unbroken x.toList := by
  intro x member
  obtain ⟨word, inside, rfl⟩ := List.mem_map.mp member
  rw [String.toList_ofList]
  exact linesFrom_pieces unbroken_nil word inside

theorem lines_joinLines (unbroken : ∀ x ∈ xs, Unbroken x.toList) (some_ : ∀ x ∈ xs, x ≠ "") :
    lines (joinLines xs) = xs := by
  have words : linesFrom [] (['\n'].intercalate (xs.map String.toList)) = xs.map String.toList := by
    refine linesFrom_intercalate (List.forall_mem_map.mpr unbroken) (List.forall_mem_map.mpr fun x member => ?_)
    exact fun none_ => some_ x member (String.toList_eq_nil_iff.mp none_)
  unfold lines joinLines
  rw [String.toList_intercalate, show "\n".toList = ['\n'] from rfl, words]
  simp [Function.comp_def]

theorem exists_inked_line (inked : isBlankText s = false) : ∃ line ∈ lines s, isBlankText line = false := by
  obtain ⟨c, member, own⟩ := List.all_eq_false.mp inked
  have inside : isBreak c = false := Bool.eq_false_iff.mpr fun ending => own (isBlank_of_isBreak ending)
  obtain ⟨word, found, there⟩ : ∃ word ∈ linesFrom [] s.toList, c ∈ word := mem_linesFrom inside (.inr member)
  refine ⟨String.ofList word, List.mem_map_of_mem found, ?_⟩
  exact List.all_eq_false.mpr ⟨c, by rwa [String.toList_ofList], own⟩

theorem mem_inkedLines : x ∈ inkedLines s ↔ x ∈ lines s ∧ isBlankText x = false := by
  simp [inkedLines]

theorem ne_empty_of_inked (inked : isBlankText x = false) : x ≠ "" := by
  rintro rfl
  cases inked

theorem lastPart_suffix (n : Int) (xs : List String) : lastPart n xs <:+ xs := by
  unfold lastPart
  split <;> exact List.drop_suffix _ _

theorem lastPart_pos (positive : 1 ≤ n) (xs : List String) : lastPart n xs = xs.drop (xs.length - n.toNat) :=
  if_pos (by omega)

theorem length_lastPart (positive : 1 ≤ n) (xs : List String) : ((lastPart n xs).length : Int) = min n xs.length := by
  rw [lastPart_pos positive, List.length_drop]
  omega

theorem lastPart_lastPart (first : 1 ≤ m) (second : 1 ≤ n) (xs : List String) :
    lastPart n (lastPart m xs) = lastPart (min m n) xs := by
  have least : 1 ≤ min m n := by omega
  rw [lastPart_pos second, lastPart_pos first, lastPart_pos least, List.length_drop, List.drop_drop]
  congr 1
  omega

theorem lastPart_eq_nil (positive : 1 ≤ n) : lastPart n xs = [] ↔ xs = [] := by
  have length := length_lastPart positive xs
  rw [← List.length_eq_zero_iff, ← List.length_eq_zero_iff]
  omega

theorem inked_lastPart (n : Int) (s : String) : ∀ x ∈ lastPart n (inkedLines s), x ∈ lines s ∧ isBlankText x = false :=
  fun _ member => mem_inkedLines.mp ((lastPart_suffix n _).subset member)

theorem lines_tailLines (s : String) (n : Int) : lines (tailLines s n) = lastPart n (inkedLines s) :=
  lines_joinLines (fun x member => lines_pieces s x (inked_lastPart n s x member).1)
    fun x member => ne_empty_of_inked (inked_lastPart n s x member).2

theorem inkedLines_tailLines (s : String) (n : Int) : inkedLines (tailLines s n) = lastPart n (inkedLines s) := by
  unfold inkedLines
  rw [lines_tailLines]
  exact List.filter_eq_self.mpr fun x member => by simp [(inked_lastPart n s x member).2]

theorem tailLines_tailLines (first : 1 ≤ m) (second : 1 ≤ n) (s : String) :
    tailLines (tailLines s m) n = tailLines s (min m n) := by
  rw [tailLines, inkedLines_tailLines, lastPart_lastPart first second, tailLines]

theorem tailLines_eq_empty (positive : 1 ≤ n) :
    tailLines s n = "" ↔ inkedLines s = [] := by
  rw [← lastPart_eq_nil positive, ← lines_tailLines]
  constructor
  · intro none_
    rw [none_]
    rfl
  · intro none_
    rw [lines_tailLines] at none_
    rw [tailLines, none_]
    rfl

theorem isBlankText_append : isBlankText (s ++ t) = (isBlankText s && isBlankText t) := by
  simp [isBlankText]

theorem joinLines_inked (inked : ∀ x ∈ xs, isBlankText x = false) (some_ : xs ≠ []) :
    isBlankText (joinLines xs) = false := by
  obtain ⟨first, rest, rfl⟩ := List.exists_cons_of_ne_nil some_
  have own := inked first (by simp)
  unfold joinLines
  cases rest with
  | nil => simpa [String.intercalate_singleton] using own
  | cons second others => simp [String.intercalate_cons_cons, isBlankText_append, own]

theorem tailLines_inked : tailLines s n = "" ∨ isBlankText (tailLines s n) = false := by
  unfold tailLines
  by_cases none_ : lastPart n (inkedLines s) = []
  · rw [none_]
    exact .inl rfl
  · exact .inr (joinLines_inked (fun x member => (inked_lastPart n s x member).2) none_)

end AbiBuild.Text
