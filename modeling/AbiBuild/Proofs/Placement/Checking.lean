import AbiBuild.Proofs.Config.Accepted
import AbiBuild.Proofs.Files.Single
import AbiBuild.Placement

namespace AbiBuild.Placement
open FileTree

variable {t : FileTree} {root path : FilePath} {v : Variant} {abi : Abi} {library : String}
  {libraries : List String} {architectures : List Abi} {r report : Report} {finding : Finding}

theorem parse_text (v : Variant) : Variant.parse (.text v.text) = .ok v := by
  cases v
  · exact ok_of_toOption (by decide +kernel)
  · exact ok_of_toOption (by decide +kernel)

-- A check by a variant's name is one for that variant, also where there is no architecture to look at the name for.
theorem checkNamed_known {variant : Value} (known : Variant.parse variant = .ok v) :
    checkNamed t root variant architectures libraries = Failure.ofFile (check t root v architectures libraries) := by
  unfold checkNamed
  cases architectures with
  | nil => rfl
  | cons abi rest =>
    rw [known]
    rfl

structure Right (t : FileTree) (path : FilePath) (abi : Abi) : Prop where
  file : t.isFile path = .ok true
  machine : ∃ content, t.read path = .ok content ∧
    ∀ machine, Elf.machine? content = some machine → machine = abi.machine

theorem inspect_right (ran : inspect t path abi = .ok .right) : Right t path abi := by
  unfold inspect at ran
  obtain ⟨there, asked, ran⟩ := bind_ok ran
  cases there with
  | false => cases ran
  | true =>
    simp only [if_true] at ran
    obtain ⟨content, read, ran⟩ := bind_ok ran
    refine ⟨asked, content, read, fun machine known => ?_⟩
    rw [known] at ran
    by_cases own : machine = abi.machine
    · exact own
    · simp only [own, if_false] at ran
      cases ran

theorem inspect_of_right (right : Right t path abi) : inspect t path abi = .ok .right := by
  obtain ⟨asked, content, read, own⟩ := right
  unfold inspect
  rw [asked]
  simp only [bind, Except.bind, if_true, read]
  cases known : Elf.machine? content with
  | none => rfl
  | some machine => simp only [own machine known, if_true, pure, Except.pure]

theorem add_passed (passed : (r.add library abi finding).passed = true) :
    r.passed = true ∧ finding = .right := by
  cases finding with
  | right => exact ⟨passed, rfl⟩
  | absent => simp [Report.add, Report.passed] at passed
  | foreign machine => simp [Report.add, Report.passed] at passed

theorem checkAbi_passed (ran : checkAbi t root v libraries r abi = .ok report)
    (passed : report.passed = true) : r.passed = true ∧
      ∀ library ∈ libraries, Right t ((abiDir root v abi).child library) abi := by
  unfold checkAbi at ran
  -- Induction on the libraries that are still to be checked.
  induction libraries generalizing r with
  | nil =>
    cases ran
    exact ⟨passed, by simp⟩
  | cons library rest ih =>
    rw [List.foldlM_cons] at ran
    obtain ⟨next, first, ran⟩ := bind_ok ran
    obtain ⟨finding, found, first⟩ := bind_ok first
    cases first
    obtain ⟨before, others⟩ := ih ran
    obtain ⟨start, rfl⟩ := add_passed before
    refine ⟨start, fun other member => ?_⟩
    rcases List.mem_cons.mp member with rfl | inRest
    · exact inspect_right found
    · exact others other inRest

theorem check_passed (ran : architectures.foldlM (checkAbi t root v libraries) r = .ok report)
    (passed : report.passed = true) : r.passed = true ∧
      ∀ abi ∈ architectures, ∀ library ∈ libraries, Right t ((abiDir root v abi).child library) abi := by
  induction architectures generalizing r with
  | nil =>
    cases ran
    exact ⟨passed, by simp⟩
  | cons abi rest ih =>
    rw [List.foldlM_cons] at ran
    obtain ⟨next, first, ran⟩ := bind_ok ran
    obtain ⟨before, others⟩ := ih ran
    obtain ⟨start, own⟩ := checkAbi_passed first before
    refine ⟨start, fun other member => ?_⟩
    rcases List.mem_cons.mp member with rfl | inRest
    · exact own
    · exact others other inRest

theorem checkAbi_right (right : ∀ library ∈ libraries, Right t ((abiDir root v abi).child library) abi) :
    checkAbi t root v libraries r abi = .ok r := by
  unfold checkAbi
  induction libraries with
  | nil => rfl
  | cons library rest ih =>
    have own := inspect_of_right (right library List.mem_cons_self)
    rw [List.foldlM_cons, own]
    exact ih fun other member => right other (List.mem_cons_of_mem _ member)

theorem check_right (right : ∀ abi ∈ architectures, ∀ library ∈ libraries,
    Right t ((abiDir root v abi).child library) abi) : check t root v architectures libraries = .ok .empty := by
  unfold check
  induction architectures with
  | nil => rfl
  | cons abi rest ih =>
    have own := checkAbi_right (r := .empty) (right abi List.mem_cons_self)
    rw [List.foldlM_cons, own]
    exact ih fun other member => right other (List.mem_cons_of_mem _ member)

theorem require_right (ran : (require t root (.text v.text) architectures libraries).1 = .ok report) :
    ∀ abi ∈ architectures, ∀ library ∈ libraries, Right t ((abiDir root v abi).child library) abi := by
  unfold require at ran
  rw [checkNamed_known (parse_text v)] at ran
  cases checked : check t root v architectures libraries with
  | error fault =>
    rw [checked] at ran
    cases ran
  | ok found =>
    simp only [checked, Failure.ofFile, Except.mapError, demand] at ran
    split at ran
    · rename_i passed
      exact (check_passed checked passed).2
    · cases ran

end AbiBuild.Placement
