import AbiBuild.Proofs.Files.Laying

namespace AbiBuild.FileTree
open AbiBuild.Text

def Solid (item : FilePath × Node) : Prop :=
  item.1.root ≠ .relative ∧ ∀ target, item.2 ≠ .link target

structure Strews (items : List (FilePath × Node)) (t u : FileTree) : Prop where
  changes : Changes [] nowhere t u
  stays : ∀ m content executable, t.node? m = some (.file content executable) →
    ∃ content executable, u.node? m = some (.file content executable)
  source : ∀ m content executable, u.node? m = some (.file content executable) →
    t.node? m = some (.file content executable) ∨
      ∃ item ∈ items, item.2 = .file content executable ∧ LeadsTo t item.1 m

variable {t u v : FileTree} {l m k : Location} {made : Location → Prop} {p : FilePath}
  {names : List String} {items more : List (FilePath × Node)} {item : FilePath × Node} {links : Nat}

theorem Strews.trans (first : Strews items t u) (second : Strews more u v) :
    Strews (items ++ more) t v := by
  refine ⟨first.changes.trans second.changes, fun m content executable there => ?_,
    fun m content executable there => ?_⟩
  · obtain ⟨_, _, there⟩ := first.stays m content executable there
    exact second.stays m _ _ there
  · rcases second.source m content executable there with before | ⟨item, member, own, leads⟩
    · rcases first.source m content executable before with start | ⟨item, member, own, leads⟩
      · exact .inl start
      · exact .inr ⟨item, List.mem_append_left _ member, own, leads⟩
    · exact .inr ⟨item, List.mem_append_right _ member, own,
        leads.congr first.changes.here.symm first.changes.links.symm⟩

theorem Strews.file (strews : Strews items t u) (away : ∀ item ∈ items, ¬ LeadsTo t item.1 m)
    {content : Bytes} {executable : Bool} :
    u.node? m = some (.file content executable) ↔ t.node? m = some (.file content executable) := by
  have source : ∀ content executable, u.node? m = some (.file content executable) →
      t.node? m = some (.file content executable) := by
    intro content executable there
    rcases strews.source m content executable there with before | ⟨item, member, _, leads⟩
    · exact before
    · exact absurd leads (away item member)
  refine ⟨source content executable, fun there => ?_⟩
  obtain ⟨new, newExecutable, after⟩ := strews.stays m content executable there
  rw [source _ _ after] at there
  cases there
  exact after

theorem leads_plain (clear : Clear t l) (plain : ∀ name ∈ names, name ≠ "..") : Leads t l names (l ++ names) := by
  induction names generalizing l with
  | nil =>
    rw [List.append_nil]
    exact .nil
  | cons name rest ih =>
    have onward := ih (clear.under [name]) fun other member => plain other (List.mem_cons_of_mem _ member)
    rw [List.append_assoc] at onward
    exact .down (plain name (by simp)) (clear [name] (by simp)) onward

theorem exists_leads (clear : Clear t []) (names : List String) : ∃ m, Leads t l names m := by
  induction names generalizing l with
  | nil => exact ⟨l, .nil⟩
  | cons name rest ih =>
    by_cases up : name = ".."
    · obtain ⟨m, leads⟩ := @ih l.dropLast
      exact ⟨m, up ▸ .up leads⟩
    · obtain ⟨m, leads⟩ := @ih (l ++ [name])
      exact ⟨m, .down up (clear _ (by simp)) leads⟩

theorem LeadsTo.under (leads : LeadsTo t p l) (clear : Clear t l) (plain : ∀ name ∈ names, name ≠ "..") :
    LeadsTo t (p.under names) (l ++ names) :=
  Leads.append leads (leads_plain clear plain)

-- A walk that follows links to the last ends in a directory, or right below one and not at a link.
theorem Walked.place (walked : Walked t true links l names m) (wellFormed : t.WellFormed)
    (here : t.node? l = some .directory) : t.node? m = some .directory ∨
      t.node? m.dropLast = some .directory ∧ ∀ target, t.node? m ≠ some (.link target) := by
  induction walked with
  | nil => exact .inl here
  | up _ _ ih => exact ih (wellFormed.parent here)
  | @down _ _ _ _ names node _ _ _ there noLink rest ih =>
    cases node with
    | link target => exact absurd rfl (noLink target)
    | directory => exact ih there
    | file content executable =>
      cases names with
      | nil =>
        cases rest
        exact .inr ⟨by rwa [List.dropLast_concat], by simp [there]⟩
      | cons next others => cases there.symm.trans rest.start
  | absent _ _ _ nothing => exact .inr ⟨by rwa [List.dropLast_concat], by simp [nothing]⟩
  | unfollowed _ _ _ _ stays => cases stays
  | link _ _ _ _ _ _ ih =>
    refine ih ?_
    unfold base
    split
    · exact node?_top t
    · exact here

theorem ensured_strews (wellFormed : t.WellFormed) (absolute : p.root ≠ .relative) :
    Strews items t (t.ensureDirectory p).tree := by
  have made := ensureDirectory_changes wellFormed absolute []
  refine ⟨{ made with elsewhere := fun _ outside => absurd List.nil_prefix outside },
    fun _ content executable there => ⟨content, executable, ?_⟩, fun _ _ _ there => .inl ?_⟩
  · exact (ensureDirectory_file wellFormed absolute).mpr there
  · exact (ensureDirectory_file wellFormed absolute).mp there

theorem settle_strews (wellFormed : t.WellFormed) (solid : Solid item) :
    Strews [item] t (t.settle item.1 item.2) := by
  obtain ⟨path, node⟩ := item
  obtain ⟨absolute, noLink⟩ := solid
  simp only at absolute noLink ⊢
  have still : Strews [(path, node)] t t :=
    ⟨.refl _ _ _, fun _ content executable there => ⟨content, executable, there⟩, fun _ _ _ there => .inl there⟩
  cases node with
  | directory => exact ensured_strews wellFormed absolute
  | link target => exact absurd rfl (noLink target)
  | file content executable =>
    unfold settle
    cases found : t.locate true path with
    | error fault => exact still
    | ok m =>
      simp only
      split
      · exact still
      · rename_i other
        have notDirectory : t.node? m ≠ some .directory := by
          intro directory
          simp [directory, Node.isDirectory] at other
        have walked := (locate_ok_iff.mp found).2
        have start : t.node? (base t.here path) = some .directory := by
          rw [base, if_pos (by simp [FilePath.isAbsolute, absolute])]
          exact node?_top t
        rcases walked.place wellFormed start with directory | ⟨parent, notLink⟩
        · exact absurd directory notDirectory
        · have some_ : m ≠ [] := fun top => notDirectory (top ▸ node?_top t)
          refine ⟨changes_put List.nil_prefix some_ parent notDirectory notLink (by simp),
            fun k old oldExecutable there => ?_, fun k new newExecutable there => ?_⟩
          · rw [node?_put some_]
            split
            · exact ⟨_, _, rfl⟩
            · exact ⟨_, _, there⟩
          · rw [node?_put some_] at there
            split at there
            · rename_i same
              subst same
              cases there
              have leads : LeadsTo t path k := walked.leads notLink
              exact .inr ⟨_, List.mem_singleton_self _, rfl, leads⟩
            · exact .inl there

theorem deposit_strews (wellFormed : t.WellFormed) (solid : Solid item) :
    Strews [item] t (t.deposit item) := by
  have above : item.1.parent.root ≠ .relative := solid.1
  have made : Strews [] t (t.ensureDirectory item.1.parent).tree := ensured_strews wellFormed above
  exact made.trans (settle_strews (made.changes.wellFormed wellFormed) solid)

theorem depositAll_strews (wellFormed : t.WellFormed) (solid : ∀ item ∈ items, Solid item) :
    Strews items t (t.depositAll items) := by
  induction items generalizing t with
  | nil =>
    exact ⟨.refl _ _ _, fun _ content executable there => ⟨content, executable, there⟩,
      fun _ _ _ there => .inl there⟩
  | cons item rest ih =>
    have first := deposit_strews wellFormed (solid item (by simp))
    have later := ih (first.changes.wellFormed wellFormed) fun other member =>
      solid other (List.mem_cons_of_mem _ member)
    exact first.trans later

end AbiBuild.FileTree
