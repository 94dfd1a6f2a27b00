import AbiBuild.Invocation
import AbiBuild.Proofs.Build.Layout
import Mathlib.Data.List.Count

namespace AbiBuild.Invocation

def failureLine (abi : Abi) (diagnostic : String) : String :=
  s!"❌ [{Stage.invocation.text}] {abi.text}: {diagnostic}"

def lineOf (c : Compilation) : String := failureLine c.abi c.diagnostic

def unfinishedLine (abi : Abi) : String := failureLine abi "compilation did not complete"

-- Each result stands under its own architecture.
def Filed (i : Invocation) : Prop := ∀ abi c, i.result? abi = some c → c.abi = abi

def failed? (i : Invocation) (abi : Abi) : Option Compilation := (i.result? abi).filter fun c => !c.ok

variable {i : Invocation} {f : Failure} {a b : Abi} {c first : Compilation} {failed : List Compilation}
  {diagnostic other : String}

theorem filed_start (variant : Variant) (profile : Profile) (declared : List Abi) :
    (start variant profile declared).Filed := fun _ _ found => by cases found

theorem Filed.record (filed : i.Filed) (c : Compilation) : (i.record c).Filed := by
  intro abi other found
  by_cases same : abi = c.abi
  · have own : some c = some other := (if_pos same).symm.trans found
    cases own
    exact same.symm
  · exact filed abi other ((if_neg same).symm.trans found)

theorem failureLine_eq (a : Abi) (diagnostic : String) : failureLine a diagnostic =
    ("❌ [" ++ Stage.invocation.text ++ "] ") ++ (a.text ++ (": " ++ diagnostic)) := by
  unfold failureLine
  simp only [String.append_assoc, toString]

theorem text_noColon (a : Abi) : ∀ x ∈ a.text.toList, decide (x ≠ ':') = true := by
  have none_ : (a.text.toList.all fun x => decide (x ≠ ':')) = true := by cases a <;> decide
  exact List.all_eq_true.mp none_

-- A line tells which architecture it speaks of, since the first colon ends the name.
theorem failureLine_abi (same : failureLine a diagnostic = failureLine b other) : a = b := by
  rw [failureLine_eq, failureLine_eq, String.append_right_inj] at same
  have lists := congrArg (fun s => s.toList.takeWhile fun x => decide (x ≠ ':')) same
  simp only [String.toList_append] at lists
  rw [List.takeWhile_append_of_pos (text_noColon a), List.takeWhile_append_of_pos (text_noColon b)] at lists
  have texts : a.text.toList = b.text.toList := by simpa using lists
  exact Build.text_injective (String.toList_inj.mp texts)

theorem failed?_some : i.failed? a = some c ↔ i.result? a = some c ∧ c.ok = false := by
  simp [failed?, Option.filter_eq_some_iff]

theorem failures_eq (i : Invocation) : i.failures = i.architectures.filterMap i.failed? := by
  unfold failures results
  rw [List.filter_filterMap]
  rfl

theorem text_compilation (a : Abi) (diagnostic : String) (failed : List Compilation) :
    (Failure.compilation (.known a) diagnostic failed).text =
      "[" ++ Stage.invocation.text ++ "] " ++ (a.text ++ (": " ++ diagnostic)) := by
  unfold Failure.text Failure.stage? Failure.message Labelled.text
  simp only [String.append_assoc, toString]

theorem report_compilation (a : Abi) (diagnostic : String) (failed : List Compilation) :
    (Failure.compilation (.known a) diagnostic failed).report =
      failureLine a diagnostic :: (failed.drop 1).map lineOf := by
  have opening : ∀ rest : String, "❌ " ++ ("[" ++ rest) = "❌ [" ++ rest := by
    intro rest
    rw [← String.append_assoc]
    exact congrArg (· ++ rest) (by decide)
  have head : "❌ " ++ (Failure.compilation (.known a) diagnostic failed).text = failureLine a diagnostic := by
    rw [failureLine_eq, text_compilation]
    simp only [String.append_assoc]
    exact opening _
  exact congrArg (· :: (failed.drop 1).map lineOf) head

theorem check_report (raised : i.check = .error f) :
    (∃ a rest, i.pending = a :: rest ∧ f.report = unfinishedLine a :: (i.failures.drop 1).map lineOf) ∨
      i.pending = [] ∧ f.report = i.failures.map lineOf := by
  unfold check at raised
  split at raised
  · rename_i a rest waiting
    cases raised
    exact .inl ⟨a, rest, waiting, report_compilation _ _ _⟩
  · rename_i first others nothing failures
    cases raised
    rw [failures]
    exact .inr ⟨nothing, report_compilation _ _ _⟩
  · cases raised

theorem count_lines (filed : i.Filed) (found : i.result? a = some c) (bad : c.ok = false) (declared : List Abi) :
    ((declared.filterMap i.failed?).map lineOf).count (failureLine a c.diagnostic) = declared.count a := by
  -- Induction on the declared architectures: only those that are `a` itself have a line that speaks of it.
  induction declared with
  | nil => rfl
  | cons b rest ih =>
    by_cases same : b = a
    · subst same
      have own : lineOf c = failureLine b c.diagnostic := by rw [lineOf, filed b c found]
      rw [List.filterMap_cons_some (failed?_some.mpr ⟨found, bad⟩), List.map_cons, own, List.count_cons_self,
        List.count_cons_self, ih]
    · rw [List.count_cons_of_ne same]
      cases outcome : i.failed? b with
      | none => rw [List.filterMap_cons_none outcome, ih]
      | some other =>
        have apart : lineOf other ≠ failureLine a c.diagnostic := fun equal =>
          same ((filed b other (failed?_some.mp outcome).1).symm.trans (failureLine_abi equal))
        rw [List.filterMap_cons_some outcome, List.map_cons, List.count_cons_of_ne apart, ih]

theorem mem_failures (member : c ∈ i.failures) : ∃ a ∈ i.architectures, i.result? a = some c ∧ c.ok = false := by
  rw [failures_eq] at member
  obtain ⟨a, declared, found⟩ := List.mem_filterMap.mp member
  exact ⟨a, declared, failed?_some.mp found⟩

theorem count_drop (filed : i.Filed) (found : i.result? a = some c) (bad : c.ok = false)
    (later : i.failures.head? ≠ some c) :
    ((i.failures.drop 1).map lineOf).count (failureLine a c.diagnostic) = i.architectures.count a := by
  have whole := count_lines filed found bad i.architectures
  rw [← failures_eq] at whole
  cases failures : i.failures with
  | nil =>
    rw [failures] at whole
    exact whole
  | cons first others =>
    have leading : first ∈ i.failures := by rw [failures]; exact List.mem_cons_self
    obtain ⟨b, _, own, _⟩ := mem_failures leading
    have apart : lineOf first ≠ failureLine a c.diagnostic := by
      intro equal
      have same : b = a := (filed b first own).symm.trans (failureLine_abi equal)
      rw [same, found] at own
      exact later (by rw [failures, List.head?_cons, own])
    rw [failures, List.map_cons, List.count_cons_of_ne apart] at whole
    exact whole

theorem failures_reported (raised : i.check = .error f) :
    (i.Filed → ∀ a c, i.result? a = some c → c.ok = false → i.pending = [] ∨ i.failures.head? ≠ some c →
      f.report.count (failureLine a c.diagnostic) = i.architectures.count a) ∧
    (∀ a rest, i.pending = a :: rest → f.report = unfinishedLine a :: (i.failures.drop 1).map lineOf) ∧
    (i.pending = [] → f.report = i.failures.map lineOf) := by
  rcases check_report raised with ⟨waiting, rest, pending, report⟩ | ⟨nothing, report⟩
  · refine ⟨fun filed a c found bad shown => ?_, fun a others same => ?_, fun nothing => ?_⟩
    · have later : i.failures.head? ≠ some c := shown.resolve_left (by rw [pending]; nofun)
      have apart : unfinishedLine waiting ≠ failureLine a c.diagnostic := by
        intro equal
        have open_ : waiting ∈ i.pending := by rw [pending]; exact List.mem_cons_self
        have none_ := (List.mem_filter.mp open_).2
        rw [failureLine_abi equal, found] at none_
        cases none_
      rw [report, List.count_cons_of_ne apart, count_drop filed found bad later]
    · rw [pending] at same
      cases same
      exact report
    · rw [pending] at nothing
      cases nothing
  · refine ⟨fun filed a c found bad _ => ?_, fun a rest pending => ?_, fun _ => report⟩
    · rw [report, failures_eq, count_lines filed found bad]
    · rw [nothing] at pending
      cases pending

-- Two failures, one success, and one architecture that is still pending.
def mixed : Invocation :=
  (((start .release .release [.arm, .x86, .arm64, .x86_64]).record ⟨.x86, .failed "boom" (some 1), .zero false⟩).record
    ⟨.x86_64, .built [], .zero false⟩).record ⟨.arm, .failed "no linker" none, .zero false⟩

def mixedFailure : Failure :=
  .compilation (.known .arm64) "compilation did not complete"
    [⟨.arm, .failed "no linker" none, .zero false⟩, ⟨.x86, .failed "boom" (some 1), .zero false⟩]

theorem mixed_raises : mixed.check = .error mixedFailure := rfl

theorem mixed_reports_second : mixed.check = .error mixedFailure ∧ mixed.Filed ∧
    mixedFailure.report.count (failureLine .x86 "boom") = 1 ∧
    mixedFailure.report.head? = some (unfinishedLine .arm64) := by
  have filed : mixed.Filed := (((filed_start _ _ _).record _).record _).record _
  obtain ⟨counted, pending, _⟩ := failures_reported mixed_raises
  refine ⟨mixed_raises, filed, ?_, ?_⟩
  · exact counted filed .x86 ⟨.x86, .failed "boom" (some 1), .zero false⟩ rfl rfl (.inr (by decide))
  · rw [pending .arm64 [] rfl]
    rfl

-- The architecture that failed first is not among what is printed.
theorem first_failure_unreported : mixed.check = .error mixedFailure ∧ .arm ∈ mixed.architectures ∧
    mixed.result? .arm = some ⟨.arm, .failed "no linker" none, .zero false⟩ ∧
    failureLine .arm "no linker" ∉ mixedFailure.report := by
  refine ⟨mixed_raises, by decide, rfl, fun member => ?_⟩
  rw [mixedFailure, report_compilation] at member
  rcases List.mem_cons.mp member with same | later
  · cases failureLine_abi same
  · obtain ⟨c, among, same⟩ := List.mem_map.mp later
    rw [List.mem_singleton.mp among] at same
    cases failureLine_abi same

end AbiBuild.Invocation
