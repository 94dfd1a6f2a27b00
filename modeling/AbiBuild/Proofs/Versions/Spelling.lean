import AbiBuild.Proofs.Config.Accepted
import AbiBuild.Proofs.Text.Trimming
import AbiBuild.Proofs.Versions.Order
import Mathlib.Logic.Relation

namespace AbiBuild

namespace Text

variable {mark c : Char} {cs front : List Char}

theorem pieces_append_mark (mark : Char) (front back : List Char) :
    pieces mark (front ++ mark :: back) = pieces mark front ++ pieces mark back := by
  induction front with
  | nil => simp [pieces]
  | cons c rest ih =>
    rw [List.cons_append, pieces, pieces]
    split
    · rw [ih, List.cons_append]
    · cases same : pieces mark rest with
      | nil => exact absurd same (pieces_ne_nil mark rest)
      | cons first others => rw [ih, same, List.cons_append, List.cons_append]

theorem pieces_joined (free : mark ∉ front) (cs : List Char) : ∃ first others, pieces mark cs = first :: others ∧
    pieces mark (front ++ cs) = (front ++ first) :: others := by
  induction front with
  | nil =>
    cases same : pieces mark cs with
    | nil => exact absurd same (pieces_ne_nil mark cs)
    | cons first others => exact ⟨first, others, rfl, same⟩
  | cons c rest ih =>
    have other : c ≠ mark := fun same => free (same ▸ List.mem_cons_self)
    obtain ⟨first, others, own, joined⟩ := ih fun member => free (List.mem_cons_of_mem _ member)
    exact ⟨first, others, own, by rw [List.cons_append, pieces, if_neg other, joined, List.cons_append]⟩

theorem mem_pieces (mark : Char) (member : c ∈ cs) : c = mark ∨ ∃ piece ∈ pieces mark cs, c ∈ piece := by
  induction cs with
  | nil => cases member
  | cons d rest ih =>
    rw [pieces]
    split
    · rename_i isMark
      rcases List.mem_cons.mp member with rfl | later
      · exact .inl isMark
      · rcases ih later with isMark | ⟨piece, among, inside⟩
        · exact .inl isMark
        · exact .inr ⟨piece, List.mem_cons_of_mem _ among, inside⟩
    · cases same : pieces mark rest with
      | nil => exact absurd same (pieces_ne_nil mark rest)
      | cons first others =>
        rcases List.mem_cons.mp member with rfl | later
        · exact .inr ⟨c :: first, List.mem_cons_self, List.mem_cons_self⟩
        · rcases ih later with isMark | ⟨piece, among, inside⟩
          · exact .inl isMark
          · rw [same] at among
            rcases List.mem_cons.mp among with rfl | further
            · exact .inr ⟨d :: piece, List.mem_cons_self, List.mem_cons_of_mem _ inside⟩
            · exact .inr ⟨piece, List.mem_cons_of_mem _ further, inside⟩

theorem digit_inked (digit : isDigit c = true) : isBlank c = false := by
  have apart : ∀ n ∈ blankPoints, isDigit (Char.ofNat n) = false := by decide
  by_contra blank
  have listed : c.toNat ∈ blankPoints := by simpa [isBlank] using blank
  have other := apart c.toNat listed
  rw [Char.ofNat_toNat, digit] at other
  cases other

end Text

namespace Version
open AbiBuild.Text

def components (s : String) : List (List Char) := pieces '.' (bare s)

def IsVersion (s : String) : Prop := ∃ version, parse s = .ok version

-- One text comes from another one by writing more of what does not count.
inductive Respelled : String → String → Prop
  | blanks {before after : String} (s : String) (first : isBlankText before = true) (last : isBlankText after = true) :
      Respelled s (before ++ s ++ after)
  | marks (s : String) (count : Nat) : Respelled s (String.ofList (List.replicate count 'v') ++ s)
  -- The zeros stand where a component begins: behind no digit and in front of one.
  | zeros {front zeros back : String} (opens : front.toList.getLast?.any isDigit = false)
      (zero : ∀ c ∈ zeros.toList, digitValue? c = some 0) (onward : back.toList.head?.any isDigit = true) :
      Respelled (front ++ back) (front ++ (zeros ++ back))
  | ending (s : String) (count : Nat) : Respelled s (s ++ String.ofList (List.replicate count ['.', '0']).flatten)

-- Versions that come from one another by respelling, in any number of steps and in either direction.
def Alike : String → String → Prop :=
  Relation.EqvGen fun s t => Respelled s t ∧ IsVersion s ∧ IsVersion t

variable {s t front zeros back : String} {version other : List Nat} {cs word : List Char} {c : Char}

theorem mapM_number_iff {words : List (List Char)} : words.mapM number = .ok version ↔
    (∀ word ∈ words, word.length ≤ Numeral.digitLimit) ∧ version = words.map digitsValue := by
  induction words generalizing version with
  | nil => exact ⟨fun ran => by cases ran; exact ⟨by simp, rfl⟩, fun said => by rw [said.2]; rfl⟩
  | cons word rest ih =>
    rw [List.mapM_cons]
    constructor
    · intro ran
      obtain ⟨n, read, ran⟩ := bind_ok ran
      obtain ⟨others, later, same⟩ := bind_ok ran
      cases same
      obtain ⟨short, rfl⟩ := ih.mp later
      unfold number at read
      split at read
      · cases read
      · rename_i fits
        cases read
        exact ⟨by simpa using ⟨by omega, short⟩, rfl⟩
    · rintro ⟨short, rfl⟩
      have own : number word = .ok (digitsValue word) := if_neg (by have := short word (by simp); omega)
      have later := ih.mpr ⟨fun other member => short other (List.mem_cons_of_mem _ member), rfl⟩
      rw [own, later]
      rfl

-- A version is read off its components, each of them digits and not too many.
theorem parse_iff : parse s = .ok version ↔
    (∀ part ∈ components s, isComponent part = true ∧ part.length ≤ Numeral.digitLimit) ∧
      version = (components s).map digitsValue := by
  show (if (components s).all isComponent then (components s).mapM number else _) = _ ↔ _
  by_cases digits : (components s).all isComponent = true
  · rw [if_pos digits, mapM_number_iff]
    have each := List.all_eq_true.mp digits
    refine and_congr_left fun _ => ⟨fun short part member => ?_, fun both part member => (both part member).2⟩
    exact ⟨each part member, short part member⟩
  · rw [if_neg digits]
    refine ⟨fun ran => (by cases ran), fun said => absurd ?_ digits⟩
    exact List.all_eq_true.mpr fun part member => (said.1 part member).1

theorem bare_inked (ran : parse s = .ok version) : ∀ c ∈ bare s, isDigit c = true ∨ c = '.' := by
  intro c member
  rcases mem_pieces '.' member with point | ⟨piece, among, inside⟩
  · exact .inr point
  · have digits := ((parse_iff.mp ran).1 piece among).1
    simp only [isComponent, Bool.and_eq_true] at digits
    exact .inl (List.all_eq_true.mp digits.2 c inside)

theorem bare_nonempty (ran : parse s = .ok version) : bare s ≠ [] := by
  intro nothing
  have own : components s = [[]] := by
    unfold components
    rw [nothing]
    rfl
  have digits := ((parse_iff.mp ran).1 [] (by rw [own]; exact List.mem_singleton_self _)).1
  cases digits

theorem inked_of_bare (known : isDigit c = true ∨ c = '.') : isBlank c = false := by
  rcases known with digit | rfl
  · exact digit_inked digit
  · decide

theorem digit_not_mark (digit : isDigit c = true) : c ≠ 'v' := by
  rintro rfl
  exact absurd digit (by decide)

def lead (front : String) : List Char := (trimStart front.toList).dropWhile (· = 'v')

theorem bare_append {rest : List Char} (digit : isDigit c = true) (starts : back.toList = c :: rest) :
    bare (front ++ back) = lead front ++ c :: trimEnd rest := by
  have inked := digit_inked digit
  unfold bare trim trimStart lead
  rw [String.toList_append, starts, dropWhile_append_stop inked, trimEnd_append_stop inked,
    dropWhile_append_stop (by simpa using digit_not_mark digit)]
  rfl

theorem lead_ends (opens : front.toList.getLast?.any isDigit = false)
    (known : ∀ c ∈ lead front, isDigit c = true ∨ c = '.') :
    lead front = [] ∨ ∃ before, lead front = before ++ ['.'] := by
  rcases List.eq_nil_or_concat (lead front) with none_ | ⟨before, c, same⟩
  · exact .inl none_
  · refine .inr ⟨before, ?_⟩
    have suffix : lead front <:+ front.toList := (List.dropWhile_suffix _).trans (List.dropWhile_suffix _)
    obtain ⟨skipped, whole⟩ := suffix
    have last : front.toList.getLast? = some c := by
      rw [← whole, same, List.getLast?_append]
      simp
    rw [last] at opens
    rcases known c (by rw [same]; simp) with digit | rfl
    · rw [Option.any_some, digit] at opens
      cases opens
    · rw [same, List.concat_eq_append]

theorem digitsValue_zeros {zeros : List Char} (zero : ∀ c ∈ zeros, digitValue? c = some 0) (word : List Char) :
    digitsValue (zeros ++ word) = digitsValue word := by
  induction zeros with
  | nil => rfl
  | cons c rest ih =>
    have later := ih fun d member => zero d (List.mem_cons_of_mem _ member)
    unfold digitsValue at later ⊢
    rw [List.cons_append, List.foldl_cons, zero c List.mem_cons_self]
    exact later

theorem bare_zeros {rest : List Char} (zero : ∀ c ∈ zeros.toList, digitValue? c = some 0) (digit : isDigit c = true)
    (starts : back.toList = c :: rest) :
    bare (front ++ (zeros ++ back)) = lead front ++ (zeros.toList ++ c :: trimEnd rest) := by
  cases same : zeros.toList with
  | nil =>
    rw [String.toList_eq_nil_iff.mp same, String.empty_append]
    exact bare_append digit starts
  | cons z others =>
    have zeroDigit : isDigit z = true := by
      unfold isDigit
      rw [zero z (by rw [same]; exact List.mem_cons_self)]
      rfl
    have starts' : (zeros ++ back).toList = z :: (others ++ c :: rest) := by
      rw [String.toList_append, same, starts]
      rfl
    rw [bare_append zeroDigit starts', trimEnd_append_stop (digit_inked digit)]
    rfl

-- Zeros at its beginning become part of one component, and the others stay.
theorem components_zeros (opens : front.toList.getLast?.any isDigit = false)
    (zero : ∀ c ∈ zeros.toList, digitValue? c = some 0) (onward : back.toList.head?.any isDigit = true)
    (ran : parse (front ++ back) = .ok version) :
    ∃ before word after, components (front ++ back) = before ++ word :: after ∧
      components (front ++ (zeros ++ back)) = before ++ (zeros.toList ++ word) :: after := by
  obtain ⟨c, head, digit⟩ := (Option.any_eq_true _ _).mp onward
  obtain ⟨rest, starts⟩ := List.head?_eq_some_iff.mp head
  have own : bare (front ++ back) = lead front ++ c :: trimEnd rest := bare_append digit starts
  have free : '.' ∉ zeros.toList := fun member => by cases zero '.' member
  obtain ⟨first, others, plain, joined⟩ := pieces_joined free (c :: trimEnd rest)
  have known : ∀ c ∈ lead front, isDigit c = true ∨ c = '.' := fun d member =>
    bare_inked ran d (by rw [own]; exact List.mem_append_left _ member)
  unfold components
  rw [own, bare_zeros zero digit starts]
  rcases lead_ends opens known with none_ | ⟨before, ends⟩
  · rw [none_]
    exact ⟨[], first, others, plain, joined⟩
  · refine ⟨pieces '.' before, first, others, ?_, ?_⟩
    · rw [ends, List.append_assoc, List.singleton_append, pieces_append_mark, plain]
    · rw [ends, List.append_assoc, List.singleton_append, pieces_append_mark, joined]

theorem bare_behind_marks (count : Nat) (s : String) :
    bare (String.ofList (List.replicate (count + 1) 'v') ++ s) = (trimEnd s.toList).dropWhile (· = 'v') := by
  have mark : isBlank 'v' = false := by decide
  have kept : trimEnd (List.replicate (count + 1) 'v' ++ s.toList) =
      List.replicate (count + 1) 'v' ++ trimEnd s.toList := by
    rw [List.replicate_succ', List.append_assoc, List.singleton_append, trimEnd_append_stop mark, List.append_assoc]
    rfl
  have start : trimStart (List.replicate (count + 1) 'v' ++ s.toList) =
      List.replicate (count + 1) 'v' ++ s.toList := by
    unfold trimStart
    rw [List.replicate_succ, List.cons_append, List.dropWhile_cons_of_neg (by simp [mark])]
  unfold bare trim
  rw [String.toList_append, String.toList_ofList, start, kept, List.dropWhile_append_of_pos (by simp)]

theorem trimStart_inked (nonempty : (trimEnd cs).dropWhile (· = 'v') ≠ [])
    (inked : ∀ c ∈ (trimEnd cs).dropWhile (· = 'v'), isBlank c = false) : trimStart cs = cs := by
  cases cs with
  | nil => rfl
  | cons c rest =>
    have begins : trimEnd (c :: rest) <+: c :: rest := List.rdropWhile_prefix _ _
    cases kept : trimEnd (c :: rest) with
    | nil =>
      rw [kept] at nonempty
      exact absurd rfl nonempty
    | cons d others =>
      rw [kept, List.cons_prefix_cons] at begins
      obtain ⟨rfl, _⟩ := begins
      refine List.dropWhile_cons_of_neg fun blank => ?_
      have other : d ≠ 'v' := by
        rintro rfl
        exact absurd blank (by decide)
      rw [kept, List.dropWhile_cons_of_neg (by simpa using other)] at inked
      cases (inked d List.mem_cons_self).symm.trans blank

theorem bare_marks {count : Nat} (ran : parse (String.ofList (List.replicate (count + 1) 'v') ++ s) = .ok version) :
    bare (String.ofList (List.replicate (count + 1) 'v') ++ s) = bare s := by
  have nonempty := bare_nonempty ran
  have inked := bare_inked ran
  rw [bare_behind_marks] at nonempty inked ⊢
  unfold bare trim
  rw [trimStart_inked nonempty fun c member => inked_of_bare (inked c member)]

theorem pieces_endings (cs : List Char) (count : Nat) :
    pieces '.' (cs ++ (List.replicate count ['.', '0']).flatten) = pieces '.' cs ++ List.replicate count ['0'] := by
  induction count with
  | zero => simp
  | succ count ih =>
    have last : cs ++ (List.replicate (count + 1) ['.', '0']).flatten =
        (cs ++ (List.replicate count ['.', '0']).flatten) ++ '.' :: ['0'] := by
      rw [List.replicate_succ', List.flatten_append, List.append_assoc]
      rfl
    have zero : pieces '.' ['0'] = [['0']] := rfl
    rw [last, pieces_append_mark, ih, zero, List.append_assoc, ← List.replicate_succ']

theorem bare_ending (s : String) (count : Nat) :
    bare (s ++ String.ofList (List.replicate (count + 1) ['.', '0']).flatten) =
      lead s ++ (List.replicate (count + 1) ['.', '0']).flatten := by
  obtain ⟨rest, point⟩ : ∃ rest, (List.replicate (count + 1) ['.', '0']).flatten = '.' :: rest :=
    ⟨_, by rw [List.replicate_succ, List.flatten_cons]; rfl⟩
  obtain ⟨front, zero⟩ : ∃ front, (List.replicate (count + 1) ['.', '0']).flatten = front ++ ['0'] := by
    refine ⟨(List.replicate count ['.', '0']).flatten ++ ['.'], ?_⟩
    rw [List.replicate_succ', List.flatten_append, List.append_assoc]
    rfl
  have start : trimStart (s.toList ++ (List.replicate (count + 1) ['.', '0']).flatten) =
      trimStart s.toList ++ (List.replicate (count + 1) ['.', '0']).flatten := by
    rw [point]
    exact dropWhile_append_stop (by decide)
  have kept : trimEnd (trimStart s.toList ++ (List.replicate (count + 1) ['.', '0']).flatten) =
      trimStart s.toList ++ (List.replicate (count + 1) ['.', '0']).flatten := by
    rw [zero, ← List.append_assoc, trimEnd_append_stop (by decide)]
    rfl
  unfold bare trim lead
  rw [String.toList_append, String.toList_ofList, start, kept, point, dropWhile_append_stop (by decide)]

theorem bare_lead (inked : ∀ c ∈ lead s, isBlank c = false) : bare s = lead s := by
  have all : ∀ c ∈ trimStart s.toList, isBlank c = false := by
    intro c member
    rw [← List.takeWhile_append_dropWhile (p := (· = 'v')) (l := trimStart s.toList)] at member
    rcases List.mem_append.mp member with mark | inside
    · have same : c = 'v' := by simpa using List.mem_takeWhile_imp mark
      subst same
      decide
    · exact inked c inside
  unfold bare trim lead
  rw [trimEnd_inked all]

theorem components_ending {count : Nat}
    (ran : parse (s ++ String.ofList (List.replicate (count + 1) ['.', '0']).flatten) = .ok version) :
    components (s ++ String.ofList (List.replicate (count + 1) ['.', '0']).flatten) =
      components s ++ List.replicate (count + 1) ['0'] := by
  have inked := bare_inked ran
  rw [bare_ending] at inked
  have own : bare s = lead s := bare_lead fun c member => inked_of_bare (inked c (List.mem_append_left _ member))
  unfold components
  rw [bare_ending, own, pieces_endings]

theorem respelled_equal (respelled : Respelled s t) (first : parse s = .ok version) (second : parse t = .ok other) :
    order version other = .eq := by
  have values := (parse_iff.mp first).2
  have values' := (parse_iff.mp second).2
  have same_order : components t = components s → order version other = .eq := by
    intro same
    rw [values', same, ← values, order_self]
  cases respelled with
  | blanks _ before after =>
    refine same_order (congrArg (pieces '.') ?_)
    unfold bare
    rw [String.toList_append, String.toList_append, trim_blanks before after]
  | marks _ count =>
    cases count with
    | zero => exact same_order (congrArg components (String.empty_append))
    | succ count => exact same_order (congrArg (pieces '.') (bare_marks second))
  | zeros opens zero onward =>
    obtain ⟨before, word, after, own, respelled⟩ := components_zeros opens zero onward first
    rw [own, List.map_append, List.map_cons] at values
    rw [respelled, List.map_append, List.map_cons, digitsValue_zeros zero, ← values] at values'
    rw [values', order_self]
  | ending _ count =>
    cases count with
    | zero => exact same_order (congrArg components (String.append_empty))
    | succ count =>
      have nought : digitsValue ['0'] = 0 := rfl
      rw [components_ending second, List.map_append, ← values, List.map_replicate, nought] at values'
      rw [values', order_eq_iff, trimmed_replicate]

theorem compareTexts_ok (first : parse s = .ok version) (second : parse t = .ok other) :
    compareTexts s t = .ok (order version other) := by
  unfold compareTexts
  rw [first, second]
  rfl

theorem alike_compare (alike : Alike s t) (u : String) :
    compareTexts s u = compareTexts t u ∧ compareTexts u s = compareTexts u t := by
  induction alike with
  | rel s t step =>
    obtain ⟨respelled, ⟨version, first⟩, other, second⟩ := step
    have equal := respelled_equal respelled first second
    unfold compareTexts
    rw [first, second]
    cases parse u with
    | error fault => exact ⟨rfl, rfl⟩
    | ok third =>
      have left : order version third = order other third := Std.TransCmp.congr_left equal
      have right : order third version = order third other := Std.TransCmp.congr_right equal
      exact ⟨congrArg Except.ok left, congrArg Except.ok right⟩
  | refl => exact ⟨rfl, rfl⟩
  | symm _ _ _ ih => exact ⟨ih.1.symm, ih.2.symm⟩
  | trans _ _ _ _ _ first second => exact ⟨first.1.trans second.1, first.2.trans second.2⟩

-- Versions can be compared whatever their lengths and spellings are: each equals itself, comparing the other way round
-- turns the answer round, the answers for three fit together, and equal are those that differ in zeros at their ends.
theorem versions_preordered {a b c : String} {x y z : List Nat} (first : parse a = .ok x) (second : parse b = .ok y)
    (third : parse c = .ok z) :
    compareTexts a a = .ok .eq ∧
      ∃ ab bc ac, compareTexts a b = .ok ab ∧ compareTexts b c = .ok bc ∧ compareTexts a c = .ok ac ∧
        compareTexts b a = .ok ab.swap ∧
        (ab = .eq ↔ trimmed x = trimmed y) ∧
        (ab.isLE → bc.isLE → ac.isLE ∧ (ac = .eq ↔ ab = .eq ∧ bc = .eq)) ∧
        ∀ a' b', Alike a a' → Alike b b' → compareTexts a' b' = .ok ab := by
  have itself : compareTexts a a = .ok .eq := by
    rw [compareTexts_ok first first, order_self]
  have turned : compareTexts b a = .ok (order x y).swap := by rw [compareTexts_ok second first, order_swap]
  refine ⟨itself, order x y, order y z, order x z, compareTexts_ok first second, compareTexts_ok second third,
    compareTexts_ok first third, turned, order_eq_iff, fun below above => ⟨order_trans below above, ?_⟩, ?_⟩
  · constructor
    · intro equal
      -- What lies between equals is equal to both.
      have back : (order z x).isLE := by
        rw [order_swap, equal]
        rfl
      exact ⟨Std.OrientedCmp.isLE_antisymm below (order_trans above back),
        Std.OrientedCmp.isLE_antisymm above (order_trans back below)⟩
    · rintro ⟨equal, equal'⟩
      exact Std.TransCmp.eq_trans equal equal'
  · intro a' b' alike alike'
    rw [← (alike_compare alike b').1, ← (alike_compare alike' a).2]
    exact compareTexts_ok first second

theorem spellings_compared :
    parse "22.1" = .ok [22, 1] ∧ parse "22.01.0" = .ok [22, 1, 0] ∧ parse "22.1.7171670" = .ok [22, 1, 7171670] ∧
      Alike "22.1" "v22.1" ∧ compareTexts "v22.1" "22.01.0" = .ok .eq ∧ compareTexts "22.01.0" "22.1" = .ok .eq := by
  have first : parse "22.1" = .ok [22, 1] := ok_of_toOption (by decide +kernel)
  have second : parse "22.01.0" = .ok [22, 1, 0] := ok_of_toOption (by decide +kernel)
  have third : parse "22.1.7171670" = .ok [22, 1, 7171670] := ok_of_toOption (by decide +kernel)
  have marked : parse "v22.1" = .ok [22, 1] := ok_of_toOption (by decide +kernel)
  have alike : Alike "22.1" "v22.1" := .rel _ _ ⟨.marks "22.1" 1, ⟨_, first⟩, ⟨_, marked⟩⟩
  obtain ⟨_, ab, _, _, _, _, _, turned, equal, _, respelled⟩ := versions_preordered first second third
  have same : ab = .eq := equal.mpr (by decide +kernel)
  subst same
  exact ⟨first, second, third, alike, respelled _ _ alike (.refl _), turned⟩

end Version

end AbiBuild
