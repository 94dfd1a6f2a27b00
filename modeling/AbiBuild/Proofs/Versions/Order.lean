import AbiBuild.Version
import Mathlib.Data.List.DropRight
import Mathlib.Data.List.Lex

namespace AbiBuild.Version

def padded (width : Nat) (version : List Nat) : List Nat := version ++ List.replicate (width - version.length) 0

def trimmed (version : List Nat) : List Nat := version.rdropWhile (· = 0)

variable {as bs cs : List Nat} {a b width : Nat}

theorem padded_cons : padded (width + 1) (a :: as) = a :: padded width as := by simp [padded]

theorem padded_nil : padded (width + 1) [] = 0 :: padded width [] := by simp [padded, List.replicate_succ]

-- Induction along the comparison, which uses up one place of the width at each component.
theorem order_padded (first : as.length ≤ width) (second : bs.length ≤ width) :
    order as bs = compare (padded width as) (padded width bs) := by
  fun_induction order as bs generalizing width with
  | case1 => exact Std.ReflOrd.compare_self.symm
  | case2 a as ih =>
    cases width with
    | zero => simp at first
    | succ width =>
      rw [ih (by simpa using first) (Nat.zero_le _), padded_cons, padded_nil]
      exact List.compareLex_cons_cons.symm
  | case3 b bs ih =>
    cases width with
    | zero => simp at second
    | succ width =>
      rw [ih (Nat.zero_le _) (by simpa using second), padded_cons, padded_nil]
      exact List.compareLex_cons_cons.symm
  | case4 a as b bs ih =>
    cases width with
    | zero => simp at first
    | succ width =>
      rw [ih (by simpa using first) (by simpa using second), padded_cons, padded_cons]
      exact List.compareLex_cons_cons.symm

theorem order_widest (as bs : List Nat) : order as bs =
    compare (padded (max as.length bs.length) as) (padded (max as.length bs.length) bs) :=
  order_padded (Nat.le_max_left _ _) (Nat.le_max_right _ _)

theorem order_swap (as bs : List Nat) : order as bs = (order bs as).swap := by
  rw [order_widest as bs, order_widest bs as, Nat.max_comm]
  exact Std.OrientedOrd.eq_swap

theorem order_trans (first : (order as bs).isLE) (second : (order bs cs).isLE) : (order as cs).isLE := by
  have wide : ∃ width, as.length ≤ width ∧ bs.length ≤ width ∧ cs.length ≤ width :=
    ⟨max as.length (max bs.length cs.length), by omega, by omega, by omega⟩
  obtain ⟨width, wideA, wideB, wideC⟩ := wide
  rw [order_padded wideA wideB] at first
  rw [order_padded wideB wideC] at second
  rw [order_padded wideA wideC]
  exact Std.TransCmp.isLE_trans first second

instance order_transCmp : Std.TransCmp order where
  eq_swap := order_swap _ _
  isLE_trans := order_trans

theorem order_self (as : List Nat) : order as as = .eq := Std.ReflCmp.compare_self

theorem trimmed_replicate (as : List Nat) (count : Nat) : trimmed (as ++ List.replicate count 0) = trimmed as := by
  induction count with
  | zero => simp
  | succ count ih =>
    rw [List.replicate_succ', ← List.append_assoc]
    unfold trimmed at ih ⊢
    rw [List.rdropWhile_concat_pos _ _ _ (by simp), ih]

theorem trimmed_parts (as : List Nat) : ∃ count, as = trimmed as ++ List.replicate count 0 := by
  refine ⟨(as.rtakeWhile (· = 0)).length, ?_⟩
  have zeros : as.rtakeWhile (· = 0) = List.replicate (as.rtakeWhile (· = 0)).length 0 :=
    List.eq_replicate_iff.mpr ⟨rfl, fun n member => by simpa using List.mem_rtakeWhile_imp member⟩
  rw [← zeros]
  exact List.rdropWhile_append_rtakeWhile.symm

theorem padded_trimmed (wide : as.length ≤ width) : padded width as = padded width (trimmed as) := by
  obtain ⟨count, parts⟩ := trimmed_parts as
  have length : (trimmed as).length + count = as.length := by
    have both := congrArg List.length parts
    simpa using both.symm
  have zeros : count + (width - as.length) = width - (trimmed as).length := by omega
  calc padded width as = trimmed as ++ List.replicate count 0 ++ List.replicate (width - as.length) 0 :=
        congrArg (· ++ List.replicate (width - as.length) 0) parts
    _ = trimmed as ++ List.replicate (width - (trimmed as).length) 0 := by
        rw [List.append_assoc, List.replicate_append_replicate, zeros]

theorem order_eq_iff : order as bs = .eq ↔ trimmed as = trimmed bs := by
  have wideA : as.length ≤ max as.length bs.length := Nat.le_max_left _ _
  have wideB : bs.length ≤ max as.length bs.length := Nat.le_max_right _ _
  rw [order_padded wideA wideB]
  constructor
  · intro equal
    have same : padded _ as = padded _ bs := Std.LawfulEqOrd.eq_of_compare equal
    unfold padded at same
    rw [← trimmed_replicate as, same, trimmed_replicate]
  · intro same
    rw [padded_trimmed wideA, padded_trimmed wideB, same]
    exact Std.ReflOrd.compare_self

theorem order_nil_isLE (bs : List Nat) : (order [] bs).isLE := by
  induction bs with
  | nil => simp [order]
  | cons b bs ih =>
    cases b with
    | zero => simpa [order] using ih
    | succ b => simp [order, Nat.compare_eq_lt.mpr (Nat.succ_pos b)]

theorem listedBefore_iff : listedBefore as bs = true ↔ as < bs := by
  fun_induction listedBefore as bs with
  | case1 => simp
  | case2 => simp
  | case3 => simp
  | case4 a as b bs ih => simp [List.cons_lt_cons_iff, ih]

-- The two orders of versions agree, except that the first one tells apart what differs in zeros at the end.
theorem order_of_lt (before : as < bs) : (order as bs).isLE := by
  induction before with
  | nil => exact order_nil_isLE _
  | cons rest ih => simpa [order] using ih
  | rel less =>
    rw [order, Nat.compare_eq_lt.mpr less]
    rfl

end AbiBuild.Version
