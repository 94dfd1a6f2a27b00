import AbiBuild.Text.Blank
import Mathlib.Data.List.DropRight

namespace AbiBuild.Text

variable {c : Char} {cs front blanks rest : List Char} {p : Char → Bool}

theorem dropWhile_append_stop (stop : p c = false) :
    (front ++ c :: rest).dropWhile p = front.dropWhile p ++ c :: rest := by
  rw [List.dropWhile_append, List.dropWhile_cons_of_neg (by simp [stop])]
  split
  · rename_i none_
    rw [List.isEmpty_iff.mp none_, List.nil_append]
  · rfl

theorem trimEnd_append_stop (stop : isBlank c = false) : trimEnd (front ++ c :: rest) = front ++ c :: trimEnd rest := by
  unfold trimEnd
  rw [List.reverse_append, List.reverse_cons, List.append_assoc, List.singleton_append, dropWhile_append_stop stop]
  simp

theorem trimStart_blanks (blank : blanks.all isBlank = true) : trimStart (blanks ++ cs) = trimStart cs :=
  List.dropWhile_append_of_pos (List.all_eq_true.mp blank)

theorem trimEnd_blanks (blank : blanks.all isBlank = true) : trimEnd (cs ++ blanks) = trimEnd cs := by
  have turned : ∀ b ∈ blanks.reverse, isBlank b = true := fun b member =>
    List.all_eq_true.mp blank b (List.mem_reverse.mp member)
  unfold trimEnd
  rw [List.reverse_append, List.dropWhile_append_of_pos turned]

theorem trimEnd_inked (inked : ∀ c ∈ cs, isBlank c = false) : trimEnd cs = cs :=
  List.rdropWhile_eq_self_iff.mpr fun nonempty => by simp [inked _ (List.getLast_mem nonempty)]

theorem trim_blanks {after : List Char} (before : blanks.all isBlank = true) (behind : after.all isBlank = true) :
    trim (blanks ++ cs ++ after) = trim cs := by
  unfold trim
  rw [List.append_assoc, trimStart_blanks before]
  unfold trimStart
  rw [List.dropWhile_append]
  split
  · rename_i none_
    rw [List.isEmpty_iff.mp none_, List.dropWhile_eq_nil_iff.mpr (List.all_eq_true.mp behind)]
  · exact trimEnd_blanks behind

theorem trimStart_append_stop (stop : isBlank c = false) :
    trimStart (front ++ c :: rest) = trimStart front ++ c :: rest := dropWhile_append_stop stop

theorem trim_trimStart (cs : List Char) : trim (trimStart cs) = trim cs := by
  have blank : (cs.takeWhile isBlank).all isBlank = true :=
    List.all_eq_true.mpr fun c member => List.mem_takeWhile_imp member
  have whole := @trim_blanks (trimStart cs) (cs.takeWhile isBlank) [] blank rfl
  rw [List.append_nil, trimStart, List.takeWhile_append_dropWhile] at whole
  exact whole.symm

theorem trim_trimEnd (cs : List Char) : trim (trimEnd cs) = trim cs := by
  have blank : (cs.rtakeWhile isBlank).all isBlank = true :=
    List.all_eq_true.mpr fun c member => List.mem_rtakeWhile_imp member
  have whole := @trim_blanks (trimEnd cs) [] (cs.rtakeWhile isBlank) rfl blank
  rw [List.nil_append, show trimEnd cs = cs.rdropWhile isBlank from rfl, List.rdropWhile_append_rtakeWhile] at whole
  exact whole.symm

end AbiBuild.Text
