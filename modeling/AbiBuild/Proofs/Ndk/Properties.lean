import AbiBuild.FileTree.Access
import AbiBuild.Properties
import AbiBuild.Proofs.Text.Encoding
import AbiBuild.Proofs.Text.Lines
import AbiBuild.Proofs.Text.Trimming
import Mathlib.Data.List.TakeDrop

namespace AbiBuild

namespace Table

variable {α : Type}

theorem ofList_concat (entries : List (String × α)) (key : String) (value : α) :
    ofList (entries ++ [(key, value)]) = put (ofList entries) key value := by
  unfold ofList update
  rw [List.foldl_append]
  rfl

theorem keys_ofList (entries : List (String × α)) : (ofList entries).keys = (entries.map Prod.fst).eraseDups := by
  -- Induction on the entries from the last one back: each is put on top of those before it.
  induction entries using List.reverseRecOn with
  | nil => rfl
  | append_singleton before entry ih =>
    obtain ⟨key, value⟩ := entry
    rw [ofList_concat, keys_put, ih, List.map_append, List.eraseDups_append]
    by_cases old : key ∈ before.map Prod.fst
    · rw [if_pos (List.mem_eraseDups.mpr old)]
      simp [List.removeAll, old]
    · rw [if_neg (mt List.mem_eraseDups.mp old)]
      simp [List.removeAll, old, List.eraseDups_cons]

theorem get?_ofList (entries : List (String × α)) (key : String) :
    (ofList entries).get? key = entries.reverse.lookup key := by
  induction entries using List.reverseRecOn with
  | nil => rfl
  | append_singleton before entry ih =>
    obtain ⟨last, value⟩ := entry
    rw [ofList_concat, List.reverse_append, List.reverse_singleton, List.singleton_append, List.lookup_cons]
    by_cases same : key = last
    · subst same
      rw [get?_put_self, beq_self_eq_true]
    · rw [get?_put_of_ne _ same, ih, beq_eq_false_iff_ne.mpr same]

end Table

namespace Properties
open AbiBuild.Text

def Gap (cs : List Char) : Prop := cs.all isBlank = true ∧ Unbroken cs

instance (cs : List Char) : Decidable (Gap cs) := inferInstanceAs (Decidable (cs.all isBlank = true ∧ Unbroken cs))

-- What can stand at either side of the equals sign: one line at most, and no blank at either end.
structure Part (cs : List Char) : Prop where
  unbroken : Unbroken cs
  first : cs.head?.any isBlank = false
  last : cs.getLast?.any isBlank = false

def isMark (c : Char) : Bool := c = '#' || c = '!'

structure IsKey (cs : List Char) : Prop extends Part cs where
  noEquals : '=' ∉ cs
  unmarked : cs.head?.any isMark = false

-- A line, with the setting that it makes. One that is blank makes none, as it has no equals sign.
inductive Line : List Char → Option (String × String) → Prop
  | setting {key value : String} {before behind front after : List Char} (known : IsKey key.toList)
      (clean : Part value.toList) (gaps : ∀ gap ∈ [before, behind, front, after], Gap gap) :
      Line (before ++ key.toList ++ behind ++ '=' :: (front ++ value.toList ++ after)) (some (key, value))
  | comment {gap cs : List Char} {mark : Char} (indent : Gap gap) (marked : isMark mark = true)
      (unbroken : Unbroken cs) : Line (gap ++ mark :: cs) none
  | other {cs : List Char} (unbroken : Unbroken cs) (noEquals : '=' ∉ cs) : Line cs none

-- A text of such lines, the last one of which may do without a separator.
inductive Layout : List Char → List (String × String) → Prop
  | last {cs : List Char} {pair : Option (String × String)} (line : Line cs pair) : Layout cs pair.toList
  | line {cs e text : List Char} {pair : Option (String × String)} {pairs : List (String × String)}
      (line : Line cs pair) (ending : IsEnding e) (onward : Layout text pairs) :
      Layout (cs ++ e ++ text) (pair.toList ++ pairs)

variable {cs e text key value before behind front after : List Char} {pair : Option (String × String)}
  {pairs : List (String × String)} {c mark : Char}

theorem Part.trim (part : Part cs) : Text.trim cs = cs :=
  trim_eq_self (fun c opens => by simpa [opens] using part.first) fun c closes => by simpa [closes] using part.last

theorem mark_cases (marked : isMark mark = true) : mark = '#' ∨ mark = '!' := by
  simpa [isMark] using marked

theorem mark_inked (marked : isMark mark = true) : isBlank mark = false := by
  rcases mark_cases marked with rfl | rfl <;> decide

theorem mark_unbroken (marked : isMark mark = true) : isBreak mark = false := by
  rcases mark_cases marked with rfl | rfl <;> decide

theorem equals_inked : isBlank '=' = false := by decide

theorem isComment_eq (cs : List Char) : isComment cs = cs.head?.any isMark := by
  cases cs with
  | nil => rfl
  | cons c rest => simp [isComment, isMark]

theorem not_equals (noEquals : '=' ∉ cs) : ∀ c ∈ cs, decide (c ≠ '=') = true := by
  rintro c member
  exact decide_eq_true fun same => noEquals (same ▸ member)

theorem span_equals (noEquals : '=' ∉ key) :
    (key ++ '=' :: value).span (fun c => decide (c ≠ '=')) = (key, '=' :: value) := by
  have before := not_equals noEquals
  rw [List.span_eq_takeWhile_dropWhile, List.takeWhile_append_of_pos before, List.dropWhile_append_of_pos before]
  simp

theorem span_other (noEquals : '=' ∉ cs) : cs.span (fun c => decide (c ≠ '=')) = (cs, []) := by
  have all := not_equals noEquals
  rw [List.span_eq_takeWhile_dropWhile, List.takeWhile_eq_self_iff.mpr all, List.dropWhile_eq_nil_iff.mpr all]

theorem Gap.noEquals (gap : Gap cs) : '=' ∉ cs := by
  intro member
  have blank := List.all_eq_true.mp gap.1 _ member
  rw [equals_inked] at blank
  cases blank

theorem trim_gaps (part : Part cs) (first : Gap before) (last : Gap after) : trim (before ++ cs ++ after) = cs := by
  rw [trim_blanks first.1 last.1, part.trim]

theorem trimStart_key (known : IsKey key) (first : Gap before) (last : Gap behind) :
    (trimStart (before ++ key ++ behind)).head?.any isMark = false := by
  rw [List.append_assoc, trimStart_blanks first.1]
  cases key with
  | nil =>
    rw [List.nil_append, trimStart, List.dropWhile_eq_nil_iff.mpr (List.all_eq_true.mp last.1)]
    rfl
  | cons c rest =>
    have inked : isBlank c = false := known.first
    rw [List.cons_append, trimStart, List.dropWhile_cons_of_neg (by simp [inked])]
    exact known.unmarked

theorem pair?_setting (known : IsKey key) (clean : Part value)
    (gaps : ∀ gap ∈ [before, behind, front, after], Gap gap) :
    pair? (before ++ key ++ behind ++ '=' :: (front ++ value ++ after)) =
      some (String.ofList key, String.ofList value) := by
  simp only [List.mem_cons, List.not_mem_nil, or_false, forall_eq_or_imp, forall_eq] at gaps
  obtain ⟨first, second, third, fourth⟩ := gaps
  have trimmed : trim (before ++ key ++ behind ++ '=' :: (front ++ value ++ after)) =
      trimStart (before ++ key ++ behind) ++ '=' :: trimEnd (front ++ value ++ after) := by
    unfold trim
    rw [trimStart_append_stop equals_inked, trimEnd_append_stop equals_inked]
  have noEquals : '=' ∉ trimStart (before ++ key ++ behind) := by
    intro member
    have inside := (List.dropWhile_sublist _).mem member
    simp [first.noEquals, known.noEquals, second.noEquals] at inside
  have noComment :
      isComment (trimStart (before ++ key ++ behind) ++ '=' :: trimEnd (front ++ value ++ after)) = false := by
    have opens := trimStart_key known first second
    rw [isComment_eq]
    cases own : trimStart (before ++ key ++ behind) with
    | nil => rfl
    | cons c rest => rwa [own] at opens
  unfold pair?
  rw [trimmed]
  simp only [noComment, span_equals noEquals]
  rw [trim_trimStart, trim_trimEnd, trim_gaps known.toPart first second, trim_gaps clean third fourth]
  rfl

theorem pair?_comment (indent : Gap before) (marked : isMark mark = true) : pair? (before ++ mark :: cs) = none := by
  have trimmed : trim (before ++ mark :: cs) = mark :: trimEnd cs := by
    unfold trim
    rw [trimStart_blanks indent.1, trimStart, List.dropWhile_cons_of_neg (by simp [mark_inked marked])]
    exact @trimEnd_append_stop mark [] cs (mark_inked marked)
  have comment : isComment (mark :: trimEnd cs) = true := by rwa [isComment_eq]
  unfold pair?
  rw [trimmed]
  simp only [comment, if_true]

theorem pair?_other (noEquals : '=' ∉ cs) : pair? cs = none := by
  have none_ : '=' ∉ trim cs := fun member =>
    noEquals ((List.dropWhile_sublist _).mem ((List.rdropWhile_prefix isBlank _).subset member))
  unfold pair?
  simp only [span_other none_, ite_self]

theorem pair?_line (line : Line cs pair) : pair? cs = pair := by
  cases line with
  | setting known clean gaps =>
    rw [pair?_setting known clean gaps, String.ofList_toList, String.ofList_toList]
  | comment indent marked unbroken => exact pair?_comment indent marked
  | other unbroken noEquals => exact pair?_other noEquals

theorem Line.unbroken (line : Line cs pair) : Unbroken cs := by
  cases line with
  | @setting key value before behind front after known clean gaps =>
    have equals : Unbroken ['='] := unbroken_singleton (by decide)
    have inside : ∀ gap ∈ [before, behind, front, after], Unbroken gap := fun gap member => (gaps gap member).2
    have left := ((inside before (by simp)).append known.unbroken).append (inside behind (by simp))
    have right := ((inside front (by simp)).append clean.unbroken).append (inside after (by simp))
    exact left.append (equals.append right)
  | comment indent marked unbroken =>
    exact indent.2.append ((unbroken_singleton (mark_unbroken marked)).append unbroken)
  | other unbroken noEquals => exact unbroken

theorem settings_layout (layout : Layout text pairs) : (fileLines text).filterMap pair? = pairs := by
  -- Induction on the layout. Where one separator is made of two, the line lost between them sets nothing.
  induction layout with
  | @last cs pair line =>
    rw [fileLines_last line.unbroken, ← pair?_line line]
    cases cs with
    | nil => rfl
    | cons c rest => cases found : pair? (c :: rest) <;> simp [found]
  | @line cs e text pair pairs line ending onward ih =>
    have first : ∀ others, (cs :: others).filterMap pair? = pair.toList ++ others.filterMap pair? := by
      intro others
      rw [List.filterMap_cons, pair?_line line]
      cases pair <;> rfl
    rcases fileLines_line line.unbroken ending text with separate | ⟨later, joined, whole⟩
    · rw [separate, first, ih]
    · rw [whole, first, ← ih, joined]
      rfl

theorem parse_layout (layout : Layout text pairs) :
    parse (String.ofList (unifyNewlines text)) = Table.ofList pairs := by
  unfold parse ofLines
  rw [String.toList_ofList, ← settings_layout layout]
  rfl

-- Whatever the layout of a file, all that it says is read of it.
theorem properties_recovered {t : FileTree} {path : FilePath} {s : String} (layout : Layout s.toList pairs)
    (there : t.read path = .ok (encode s)) : ∃ table, (t.readText path).map parse = .ok table ∧
      table.keys = (pairs.map Prod.fst).eraseDups ∧ ∀ key, table.get? key = pairs.reverse.lookup key := by
  refine ⟨Table.ofList pairs, ?_, Table.keys_ofList pairs, Table.get?_ofList pairs⟩
  have read : t.readText path = .ok (String.ofList (unifyNewlines s.toList)) := by
    simp only [FileTree.readText, there, bind, Except.bind, readText_encode]
  rw [read, ← parse_layout layout]
  rfl

def sampleComment : List Char := ['\t'] ++ '!' :: "kept=by hand".toList

def sampleSetting (value : String) : List Char :=
  [' '] ++ "Pkg.Revision".toList ++ [] ++ '=' :: ([' ', '\t'] ++ value.toList ++ [' '])

def sampleText : String :=
  String.ofList (sampleComment ++ ['\r', '\n'] ++
    (sampleSetting "21" ++ [Char.ofNat 0x2028] ++ sampleSetting "22 = r1 #"))

def sampleTree : FileTree := ⟨[], [(["source.properties"], .file (encode sampleText) false)]⟩

theorem sampleSetting_line {value : String} (clean : Part value.toList) :
    Line (sampleSetting value) (some ("Pkg.Revision", value)) := by
  refine .setting ⟨⟨?_, ?_, ?_⟩, ?_, ?_⟩ clean ?_
  all_goals decide +kernel

theorem repeated_revision_recovered :
    ∃ table, (sampleTree.readText ⟨.single, ["source.properties"]⟩).map parse = .ok table ∧
      table.keys = ["Pkg.Revision"] ∧ table.get? "Pkg.Revision" = some "22 = r1 #" := by
  have first : Part "21".toList := ⟨by decide +kernel, by decide +kernel, by decide +kernel⟩
  have second : Part "22 = r1 #".toList := ⟨by decide +kernel, by decide +kernel, by decide +kernel⟩
  have opening : Line sampleComment none :=
    .comment ⟨by decide +kernel, by decide +kernel⟩ (by decide) (by decide +kernel)
  have layout : Layout sampleText.toList [("Pkg.Revision", "21"), ("Pkg.Revision", "22 = r1 #")] := by
    rw [sampleText, String.toList_ofList]
    have onward := Layout.last (sampleSetting_line second)
    exact .line opening (.inl rfl) (.line (sampleSetting_line first) (.inr ⟨_, by decide, rfl⟩) onward)
  have there : sampleTree.read ⟨.single, ["source.properties"]⟩ = .ok (encode sampleText) := rfl
  obtain ⟨table, read, keys, values⟩ := properties_recovered layout there
  exact ⟨table, read, keys, values "Pkg.Revision"⟩

end Properties

end AbiBuild
