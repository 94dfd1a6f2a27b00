import AbiBuild.Proofs.Files.Paths
import AbiBuild.FileTree.Walk

namespace AbiBuild
open AbiBuild.Text

-- A name as it stands between the slashes of a path; it may lead up.
def Proper (s : String) : Prop := s ≠ "" ∧ s ≠ "." ∧ '/' ∉ s.toList

theorem Plain.proper {s : String} (plain : Plain s) : Proper s := ⟨plain.1, plain.2.1, plain.2.2.2⟩

namespace Text

variable {mark : Char} {cs rest : List Char} {words : List (List Char)}

theorem pieces_append (free : mark ∉ cs) : pieces mark (cs ++ mark :: rest) = cs :: pieces mark rest := by
  induction cs with
  | nil => simp [pieces]
  | cons c others ih =>
    have other : c ≠ mark := fun same => free (same ▸ List.mem_cons_self)
    have later := ih fun member => free (List.mem_cons_of_mem _ member)
    rw [List.cons_append, pieces, if_neg other, later]

theorem pieces_intercalate (free : ∀ word ∈ words, mark ∉ word) (nonempty : words ≠ []) :
    pieces mark ([mark].intercalate words) = words := by
  induction words with
  | nil => exact absurd rfl nonempty
  | cons word others ih =>
    cases others with
    | nil =>
      simp only [List.intercalate, List.intersperse, List.flatten_cons, List.flatten_nil, List.append_nil]
      exact pieces_eq_singleton (free word (by simp))
    | cons next more =>
      have later := ih (fun other member => free other (List.mem_cons_of_mem _ member)) (by simp)
      have joined : [mark].intercalate (word :: next :: more) = word ++ mark :: [mark].intercalate (next :: more) := by
        simp [List.intercalate, List.intersperse]
      rw [joined, pieces_append (free word (by simp)), later]

end Text

namespace FilePath

def Normal (p : FilePath) : Prop := ∀ name ∈ p.names, Proper name

variable {p q : FilePath} {s name : String} {names : List String}

theorem ofText_normal (s : String) : (ofText s).Normal := by
  intro name member
  obtain ⟨among, isName⟩ := List.mem_filter.mp member
  obtain ⟨piece, inside, rfl⟩ := List.mem_map.mp among
  have free := not_mem_of_mem_pieces inside
  simp only [FilePath.isName, Bool.and_eq_true, decide_eq_true_eq] at isName
  exact ⟨isName.1, isName.2, by simpa using free⟩

theorem Normal.join (first : p.Normal) (second : q.Normal) : (p.join q).Normal := by
  unfold FilePath.join
  split
  · exact second
  · intro name member
    rcases List.mem_append.mp member with old | new
    · exact first name old
    · exact second name new

theorem Normal.under (normal : p.Normal) (proper : ∀ name ∈ names, Proper name) : (p.under names).Normal := by
  intro name member
  rcases List.mem_append.mp member with old | new
  · exact normal name old
  · exact proper name new

theorem text_toList (absolute : p.root ≠ .relative) :
    p.text.toList = (Root.mark p.root).toList ++ ['/'].intercalate (p.names.map String.toList) := by
  unfold text
  rw [if_neg (by simp [absolute]), String.toList_append, String.toList_intercalate]
  rfl

theorem joined_head (normal : p.Normal) (nonempty : p.names ≠ []) :
    ∃ c rest, ['/'].intercalate (p.names.map String.toList) = c :: rest ∧ c ≠ '/' := by
  cases same : p.names with
  | nil => exact absurd same nonempty
  | cons name others =>
    obtain ⟨some_, _, free⟩ := normal name (by rw [same]; exact List.mem_cons_self)
    cases shown : name.toList with
    | nil => exact absurd (String.toList_eq_nil_iff.mp shown) some_
    | cons c rest =>
      rw [shown] at free
      refine ⟨c, rest ++ (['/'].intercalate ([] :: others.map String.toList)), ?_, ?_⟩
      · cases others <;> simp [List.intercalate, shown]
      · rintro rfl
        exact free List.mem_cons_self

theorem rootOf_mark {root : Root} {c : Char} {rest : List Char} (absolute : root ≠ .relative)
    (notMark : c ≠ '/') : rootOf ((Root.mark root).toList ++ c :: rest) = root := by
  cases root with
  | relative => exact absurd rfl absolute
  | single => simp [Root.mark, rootOf, notMark]
  | doubled => simp [Root.mark, rootOf, notMark]

theorem pieces_mark (root : Root) (cs : List Char) : ∃ blanks, (∀ blank ∈ blanks, blank = []) ∧
    pieces '/' ((Root.mark root).toList ++ cs) = blanks ++ pieces '/' cs := by
  cases root with
  | relative => exact ⟨[], by simp [Root.mark]⟩
  | single => exact ⟨[[]], by simp [Root.mark, pieces]⟩
  | doubled => exact ⟨[[], []], by simp [Root.mark, pieces]⟩

theorem ofText_named (normal : p.Normal) (absolute : p.root ≠ .relative) (nonempty : p.names ≠ []) :
    ofText p.text = p := by
  have words : pieces '/' (['/'].intercalate (p.names.map String.toList)) = p.names.map String.toList := by
    refine pieces_intercalate (fun word member => ?_) (by simpa using nonempty)
    obtain ⟨name, inside, rfl⟩ := List.mem_map.mp member
    exact (normal name inside).2.2
  have kept : (p.names.map fun name => String.ofList name.toList).filter isName = p.names := by
    simp only [String.ofList_toList, List.map_id']
    refine List.filter_eq_self.mpr fun name member => ?_
    obtain ⟨some_, notDot, _⟩ := normal name member
    simp [isName, some_, notDot]
  obtain ⟨c, rest, joined, notMark⟩ := joined_head normal nonempty
  obtain ⟨blanks, blank, fell⟩ := pieces_mark p.root (['/'].intercalate (p.names.map String.toList))
  have dropped : (blanks.map String.ofList).filter isName = [] := by
    refine List.filter_eq_nil_iff.mpr fun name member => ?_
    obtain ⟨piece, inside, rfl⟩ := List.mem_map.mp member
    rw [blank piece inside]
    decide
  have root : rootOf p.text.toList = p.root := by
    rw [text_toList absolute, joined, rootOf_mark absolute notMark]
  have names : ((pieces '/' p.text.toList).map String.ofList).filter isName = p.names := by
    rw [text_toList absolute, fell, words, List.map_append, List.filter_append, dropped, List.map_map,
      List.nil_append]
    exact kept
  unfold ofText
  rw [root, names]

-- The text of an absolute path is read as the path.
theorem ofText_text (normal : p.Normal) (absolute : p.root ≠ .relative) : ofText p.text = p := by
  obtain ⟨root, names⟩ := p
  cases names with
  | cons name rest => exact ofText_named normal absolute (by simp)
  | nil =>
    cases root with
    | relative => exact absurd rfl absolute
    | single => decide +kernel
    | doubled => decide +kernel

theorem text_absolute (absolute : p.root ≠ .relative) : p.text.toList.head? = some '/' := by
  rw [text_toList absolute]
  cases same : p.root with
  | relative => exact absurd same absolute
  | single => rfl
  | doubled => rfl

end FilePath

namespace FileTree

variable {t : FileTree} {depth : Nat} {l m : Location} {names : List String} {p q : FilePath}

theorem base_proper (here : ∀ name ∈ l, Proper name) (p : FilePath) : ∀ name ∈ base l p, Proper name := by
  unfold base
  split
  · simp
  · exact here

theorem foldlM_holds {α : Type} {P : α → Prop} {f : α → String → Option α} {a b : α} (start : P a)
    (step : ∀ a name b, name ∈ names → P a → f a name = some b → P b) (ran : names.foldlM f a = some b) : P b := by
  induction names generalizing a with
  | nil =>
    cases ran
    exact start
  | cons name rest ih =>
    rw [List.foldlM_cons] at ran
    obtain ⟨next, first, later⟩ := Option.bind_eq_some_iff.mp ran
    exact ih (step a name next List.mem_cons_self start first)
      (fun a other b member => step a other b (List.mem_cons_of_mem _ member)) later

theorem onward_proper {follow : Location → String → Option Location} {name : String}
    (here : ∀ name ∈ l, Proper name) (own : Proper name)
    (followed : ∀ target, follow l target = some m → ∀ name ∈ m, Proper name)
    (ran : t.onward follow l name = some m) : ∀ name ∈ m, Proper name := by
  unfold onward at ran
  split at ran
  · cases ran
    exact fun name member => here name (List.dropLast_subset _ member)
  · split at ran
    · exact followed _ ran
    · cases ran
      intro other member
      rcases List.mem_append.mp member with old | new
      · exact here other old
      · exact List.mem_singleton.mp new ▸ own

theorem onwards_proper {follow : Location → String → Option Location} (here : ∀ name ∈ l, Proper name)
    (proper : ∀ name ∈ names, Proper name)
    (followed : ∀ l target m, (∀ name ∈ l, Proper name) → follow l target = some m → ∀ name ∈ m, Proper name)
    (ran : names.foldlM (t.onward follow) l = some m) : ∀ name ∈ m, Proper name :=
  foldlM_holds (P := fun l => ∀ name ∈ l, Proper name) here (fun l name next member known first =>
    onward_proper known (proper name member) (fun target => followed l target next known) first) ran

-- Links name paths as texts do, so that following them brings nothing that no text names.
theorem unlinked_proper (here : ∀ name ∈ l, Proper name) (proper : ∀ name ∈ names, Proper name)
    (found : t.unlinked depth l names = some m) : ∀ name ∈ m, Proper name := by
  induction depth generalizing l names m with
  | zero => exact onwards_proper here proper (fun _ _ _ _ impossible => by cases impossible) found
  | succ depth fewer =>
    refine onwards_proper here proper (fun l target m known followed => ?_) found
    exact fewer (base_proper known _) (FilePath.ofText_normal target) followed

theorem stepping_proper {follow : Location → String → Location × Bool} (here : ∀ name ∈ l, Proper name)
    (proper : ∀ name ∈ names, Proper name)
    (followed : ∀ l target, (∀ name ∈ l, Proper name) → ∀ name ∈ (follow l target).1, Proper name) :
    ∀ name ∈ (t.stepping follow l names).1, Proper name := by
  induction names generalizing l with
  | nil => exact here
  | cons name rest ih =>
    obtain ⟨own, later⟩ := List.forall_mem_cons.mp proper
    have below : ∀ other ∈ l ++ [name], Proper other :=
      List.forall_mem_append.mpr ⟨here, List.forall_mem_singleton.mpr own⟩
    unfold stepping
    split
    · exact ih (fun other member => here other (List.dropLast_subset _ member)) later
    · split
      · rename_i target _
        have known := followed (l ++ [name]) target below
        split
        · rename_i m led
          rw [led] at known
          exact ih known later
        · rename_i m led
          rw [led] at known
          exact List.forall_mem_append.mpr ⟨known, later⟩
      · exact ih below later

theorem cutShort_proper {inside : List Location} (here : ∀ name ∈ l, Proper name)
    (proper : ∀ name ∈ names, Proper name) : ∀ name ∈ (t.cutShort depth inside l names).1, Proper name := by
  induction depth generalizing inside l names with
  | zero => exact List.forall_mem_append.mpr ⟨here, proper⟩
  | succ depth fewer =>
    refine stepping_proper here proper fun m target known => ?_
    split
    · exact known
    · have above : ∀ name ∈ m.dropLast, Proper name := fun name member => known name (List.dropLast_subset _ member)
      exact fewer (base_proper above _) (FilePath.ofText_normal target)

theorem beside_proper {name : String} (here : ∀ name ∈ l, Proper name) (own : Proper name) :
    ∀ other ∈ beside l name, Proper other := by
  intro other member
  unfold beside at member
  split at member
  · exact here other (List.dropLast_subset _ member)
  · exact (List.mem_append.mp member).elim (here other) fun same => List.mem_singleton.mp same ▸ own

theorem lexical_proper (proper : ∀ name ∈ names, Proper name) : ∀ name ∈ lexical names, Proper name :=
  List.foldlRecOn names _ (motive := fun l => ∀ name ∈ l, Proper name) (by simp)
    fun _ known name member => beside_proper known (proper name member)

theorem resolve_cases (ran : t.resolve p = .ok q) : ∃ l, q = ⟨.single, l⟩ ∧
    (t.unlinked t.linkCount (base t.here p) p.names = some l ∨
      l = lexical (t.cutShort (t.linkCount + 1) [] (base t.here p) p.names).1) := by
  unfold resolve at ran
  split at ran
  · cases ran
  · split at ran
    · rename_i l found
      exact ⟨l, (Except.ok.inj ran).symm, .inl found⟩
    · simp only at ran
      split at ran
      · exact ⟨_, (Except.ok.inj ran).symm, .inr rfl⟩
      · cases ran

theorem resolve_normal (here : ∀ name ∈ t.here, Proper name) (normal : p.Normal) (ran : t.resolve p = .ok q) :
    q.Normal := by
  obtain ⟨l, rfl, found | rfl⟩ := resolve_cases ran
  · exact unlinked_proper (base_proper here p) normal found
  · exact lexical_proper (cutShort_proper (base_proper here p) normal)

end FileTree

end AbiBuild
