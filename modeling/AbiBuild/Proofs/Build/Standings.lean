import AbiBuild.Invocation
import Mathlib.Data.List.Induction

namespace AbiBuild.Invocation

inductive Change
  | success (abi : Abi) (artifacts : List (String × FilePath)) (duration : Binary64)
  | failure (abi : Abi) (diagnostic : String) (status : Option Int) (duration : Binary64)
  | forgotten (abi : Abi)

namespace Change

def abi : Change → Abi
  | success abi _ _ => abi
  | failure abi _ _ _ => abi
  | forgotten abi => abi

def result? : Change → Option Compilation
  | success abi artifacts duration => some ⟨abi, .built artifacts, duration⟩
  | failure abi diagnostic status duration => some ⟨abi, .failed diagnostic status, duration⟩
  | forgotten _ => none

end Change

def apply (i : Invocation) : Change → Invocation
  | .success abi artifacts duration => i.record ⟨abi, .built artifacts, duration⟩
  | .failure abi diagnostic status duration => i.record ⟨abi, .failed diagnostic status, duration⟩
  | .forgotten abi => i.forget abi

def after (i : Invocation) (changes : List Change) : Invocation := changes.foldl apply i

def latest? (changes : List Change) (abi : Abi) : Option Compilation :=
  (changes.filter fun change => change.abi = abi).getLast?.bind Change.result?

inductive Standing
  | pending
  | failed
  | succeeded
  deriving DecidableEq

def standing (changes : List Change) (abi : Abi) : Standing :=
  match latest? changes abi with
  | none => .pending
  | some c => if c.ok then .succeeded else .failed

def standingAt (changes : List Change) (declared : List Abi) (s : Standing) : List Abi :=
  declared.filter fun abi => standing changes abi = s

def successes (i : Invocation) : List Compilation := i.results.filter Compilation.ok

variable {i : Invocation} {f : Failure} {a abi : Abi} {c : Compilation} {change : Change} {changes : List Change}
  {declared : List Abi} {found : Abi → Option Compilation}

theorem result?_apply (i : Invocation) (change : Change) (a : Abi) :
    (i.apply change).result? a = if change.abi = a then change.result? else i.result? a := by
  cases change <;> simp only [apply, record, forget, Change.abi, Change.result?, eq_comm]

theorem architectures_after (i : Invocation) (changes : List Change) :
    (i.after changes).architectures = i.architectures := by
  unfold after
  induction changes generalizing i with
  | nil => rfl
  | cons change rest ih =>
    rw [List.foldl_cons, ih]
    cases change <;> rfl

theorem result?_after (variant : Variant) (profile : Profile) (declared : List Abi) (changes : List Change) (a : Abi) :
    ((start variant profile declared).after changes).result? a = latest? changes a := by
  -- Induction on the changes from the last one back.
  induction changes using List.reverseRecOn with
  | nil => rfl
  | append_singleton before change ih =>
    unfold after at ih ⊢
    unfold latest? at ih ⊢
    rw [List.foldl_append, List.foldl_cons, List.foldl_nil, result?_apply, List.filter_append]
    by_cases own : change.abi = a
    · simp [own]
    · simp [own, ih]

theorem latest?_abi (found : latest? changes a = some c) : c.abi = a := by
  obtain ⟨change, last, left⟩ := Option.bind_eq_some_iff.mp found
  have own : change.abi = a := by simpa using (List.mem_filter.mp (List.mem_of_getLast? last)).2
  rw [← own]
  cases change with
  | success => cases left; rfl
  | failure => cases left; rfl
  | forgotten => cases left

theorem map_abi_filterMap (filed : ∀ a c, found a = some c → c.abi = a) (holds : Compilation → Bool) :
    (declared.filterMap fun a => (found a).filter holds).map Compilation.abi =
      declared.filter fun a => (found a).any holds := by
  induction declared with
  | nil => rfl
  | cons a rest ih =>
    rw [List.filterMap_cons, List.filter_cons]
    cases result : found a with
    | none => simpa using ih
    | some c =>
      have own := filed a c result
      rw [Option.filter_some, Option.any_some]
      cases yes : holds c with
      | true => simp [own, ih]
      | false => simpa using ih

theorem standing_decides (changes : List Change) (a : Abi) :
    decide (standing changes a = .pending) = (latest? changes a).isNone ∧
      decide (standing changes a = .failed) = (latest? changes a).any (!·.ok) ∧
      decide (standing changes a = .succeeded) = (latest? changes a).any Compilation.ok := by
  unfold standing
  cases latest? changes a with
  | none => decide
  | some c => cases ok : c.ok <;> simp [ok]

section Views
variable (variant : Variant) (profile : Profile) (declared : List Abi) (changes : List Change)

theorem pending_after : ((start variant profile declared).after changes).pending =
    standingAt changes declared .pending := by
  unfold pending standingAt
  rw [architectures_after]
  refine List.filter_congr fun a _ => ?_
  rw [result?_after, (standing_decides changes a).1]

theorem results_after (holds : Compilation → Bool) :
    ((start variant profile declared).after changes).results.filter holds =
      declared.filterMap fun a => (latest? changes a).filter holds := by
  unfold results
  rw [architectures_after, List.filter_filterMap]
  simp only [result?_after]
  rfl

theorem failures_after : (((start variant profile declared).after changes).failures).map Compilation.abi =
    standingAt changes declared .failed := by
  unfold failures standingAt
  rw [results_after, map_abi_filterMap fun _ _ => latest?_abi]
  exact List.filter_congr fun a _ => (standing_decides changes a).2.1.symm

theorem successes_after : (((start variant profile declared).after changes).successes).map Compilation.abi =
    standingAt changes declared .succeeded := by
  unfold successes standingAt
  rw [results_after, map_abi_filterMap fun _ _ => latest?_abi]
  exact List.filter_congr fun a _ => (standing_decides changes a).2.2.symm

end Views

theorem standingAt_perm (changes : List Change) (declared : List Abi) :
    (standingAt changes declared .pending ++ (standingAt changes declared .failed ++
      standingAt changes declared .succeeded)).Perm declared := by
  induction declared with
  | nil => exact .nil
  | cons a rest ih =>
    unfold standingAt at ih ⊢
    simp only [List.filter_cons]
    cases own : standing changes a with
    | pending => exact ih.cons a
    | failed => exact List.perm_middle.trans (ih.cons a)
    | succeeded => exact ((List.perm_middle.append_left _).trans List.perm_middle).trans (ih.cons a)

theorem check_ok_iff : i.check = .ok () ↔ i.pending = [] ∧ i.failures = [] := by
  unfold check
  cases i.pending with
  | cons a rest => simp
  | nil => cases i.failures <;> simp

theorem check_error (raised : i.check = .error f) :
    (∃ a rest, i.pending = a :: rest ∧
      f = .compilation (.known a) "compilation did not complete" i.failures) ∨
    i.pending = [] ∧ ∃ first others, i.failures = first :: others ∧
      f = .compilation (.known first.abi) first.diagnostic i.failures := by
  unfold check at raised
  split at raised
  · rename_i a rest pending
    cases raised
    exact .inl ⟨a, rest, pending, rfl⟩
  · rename_i first others pending failures
    cases raised
    exact .inr ⟨pending, first, others, failures, by rw [failures]⟩
  · cases raised

theorem standingAt_succeeded : standingAt changes declared .pending = [] ∧ standingAt changes declared .failed = [] ↔
    ∀ a ∈ declared, ∃ c, latest? changes a = some c ∧ c.ok = true := by
  unfold standingAt
  rw [List.filter_eq_nil_iff, List.filter_eq_nil_iff]
  have each : ∀ a, ¬ decide (standing changes a = .pending) = true ∧ ¬ decide (standing changes a = .failed) = true ↔
      ∃ c, latest? changes a = some c ∧ c.ok = true := by
    intro a
    obtain ⟨pending, failed, _⟩ := standing_decides changes a
    rw [pending, failed]
    cases latest? changes a <;> simp
  exact ⟨fun both a member => (each a).mp ⟨both.1 a member, both.2 a member⟩,
    fun all => ⟨fun a member => ((each a).mpr (all a member)).1, fun a member => ((each a).mpr (all a member)).2⟩⟩

-- Whatever was recorded and forgotten, an invocation says of its architectures what was last said of each.
theorem standings_consistent (variant : Variant) (profile : Profile) (declared : List Abi) (changes : List Change) :
    let i := (start variant profile declared).after changes
    let failed := declared.filterMap fun a => (latest? changes a).filter (!·.ok)
    (i.pending = standingAt changes declared .pending ∧
      i.failures.map Compilation.abi = standingAt changes declared .failed ∧
      i.successes.map Compilation.abi = standingAt changes declared .succeeded ∧
      (i.pending ++ (i.failures.map Compilation.abi ++ i.successes.map Compilation.abi)).Perm declared) ∧
    (i.succeeded = true ↔ i.check = .ok ()) ∧
    (i.check = .ok () ↔ ∀ a ∈ declared, ∃ c, latest? changes a = some c ∧ c.ok = true) ∧
    ∀ f, i.check = .error f →
      (∃ a rest, standingAt changes declared .pending = a :: rest ∧
        f = .compilation (.known a) "compilation did not complete" failed) ∨
      standingAt changes declared .pending = [] ∧ ∃ a rest c, standingAt changes declared .failed = a :: rest ∧
        latest? changes a = some c ∧ f = .compilation (.known a) c.diagnostic failed := by
  intro i failed
  have pending : i.pending = standingAt changes declared .pending := pending_after variant profile declared changes
  have failures : i.failures.map Compilation.abi = standingAt changes declared .failed :=
    failures_after variant profile declared changes
  have successes : i.successes.map Compilation.abi = standingAt changes declared .succeeded :=
    successes_after variant profile declared changes
  have attached : i.failures = failed := results_after variant profile declared changes _
  refine ⟨⟨pending, failures, successes, ?_⟩, ?_, ?_, fun f raised => ?_⟩
  · rw [pending, failures, successes]
    exact standingAt_perm changes declared
  · rw [check_ok_iff]
    simp [succeeded]
  · rw [check_ok_iff, ← standingAt_succeeded, ← pending, ← failures, List.map_eq_nil_iff]
  · rw [← pending, ← failures, ← attached]
    refine (check_error raised).imp_right fun ⟨none_, first, others, own, named⟩ => ?_
    have member : first ∈ failed := by
      rw [← attached, own]
      exact List.mem_cons_self
    obtain ⟨a, _, latest⟩ := List.mem_filterMap.mp member
    have found := (Option.filter_eq_some_iff.mp latest).1
    have named' : first.abi = a := latest?_abi found
    exact ⟨none_, first.abi, others.map Compilation.abi, first, by rw [own, List.map_cons], named' ▸ found, named⟩

end AbiBuild.Invocation
