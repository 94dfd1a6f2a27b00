import AbiBuild.Proofs.Files.Filling
import AbiBuild.Proofs.Files.Resolving
import AbiBuild.Proofs.Placement.Findings

namespace AbiBuild
open AbiBuild.Text

-- A header with this machine number: after the magic and one more byte comes that of the byte order, and after another
-- twelve the two of the number.
def Elf.Stamped (content : Bytes) (machine : Nat) : Prop :=
  ∃ kind order between first second rest, between.length = 12 ∧
    content = magic ++ kind :: order :: (between ++ first :: second :: rest) ∧
    machine = if order = 1 then first.toNat + 256 * second.toNat else 256 * first.toNat + second.toNat

theorem Elf.machine?_stamped {content : Bytes} {machine : Nat} (stamped : Stamped content machine) :
    machine? content = some machine := by
  obtain ⟨kind, order, between, first, second, rest, width, rfl, rfl⟩ := stamped
  have low : (between ++ first :: second :: rest)[12]? = some first := by
    rw [List.getElem?_append_right (by omega), width]
    rfl
  have high : (between ++ first :: second :: rest)[13]? = some second := by
    rw [List.getElem?_append_right (by omega), width]
    rfl
  have long : 14 ≤ between.length + (rest.length + 1 + 1) := by omega
  simpa [machine?, headerSize, magic, low, high] using long

theorem Elf.stamped_of_machine? {content : Bytes} {machine : Nat} (found : machine? content = some machine) :
    Stamped content machine := by
  unfold machine? at found
  split at found
  · cases found
  · rename_i header
    obtain ⟨long, marked⟩ : 20 ≤ content.length ∧ content.take 4 = magic := by simpa [headerSize] using header
    have front : content.drop 4 = content[4] :: content[5] :: content.drop 6 := by
      rw [List.drop_eq_getElem_cons (by omega), List.drop_eq_getElem_cons (by omega)]
    have back : content.drop 18 = content[18] :: content[19] :: content.drop 20 := by
      rw [List.drop_eq_getElem_cons (by omega), List.drop_eq_getElem_cons (by omega)]
    have middle : content.drop 6 = (content.drop 6).take 12 ++ content.drop 18 := by
      have halves := List.take_append_drop 12 (content.drop 6)
      rw [List.drop_drop] at halves
      exact halves.symm
    refine ⟨content[4], content[5], (content.drop 6).take 12, content[18], content[19], content.drop 20,
      by simp; omega, ?_, ?_⟩
    · rw [← back, ← middle, ← front, ← marked, List.take_append_drop]
    · cases found
      simp [show 5 < content.length by omega, show 18 < content.length by omega, show 19 < content.length by omega]

theorem Elf.machine?_iff {content : Bytes} {machine : Nat} :
    machine? content = some machine ↔ Stamped content machine := ⟨stamped_of_machine?, machine?_stamped⟩

namespace Placement
open FileTree

variable {t : FileTree} {root path : FilePath} {v : Variant} {abi : Abi} {library : String} {libraries : List String}
  {architectures : List Abi} {report : Report} {machine : Nat} {fault : FileFault} {variant : Value} {cause : Failure}
  {found : Abi → String → Option Node}

-- What a report has to say of the libraries as they lie: the lists have the right members, each as often as it is
-- asked for and in that order, architecture by architecture.
structure Exact (t : FileTree) (root : FilePath) (v : Variant) (architectures : List Abi) (libraries : List String)
    (report : Report) : Prop where
  missing : ∀ library abi, (library, abi) ∈ report.missing ↔ abi ∈ architectures ∧ library ∈ libraries ∧
    ¬ ∃ content, t.Contains ((abiDir root v abi).child library) content
  mismatched : ∀ library abi machine, ⟨library, abi, machine⟩ ∈ report.mismatched ↔
    abi ∈ architectures ∧ library ∈ libraries ∧
      ∃ content, t.Contains ((abiDir root v abi).child library) content ∧ Elf.Stamped content machine ∧
        machine ≠ abi.machine
  missingInTurn : report.missing =
    pairsWhere architectures libraries fun abi library => (library, abi) ∈ report.missing
  mismatchedInTurn : report.mismatched.map Mismatch.pair =
    pairsWhere architectures libraries fun abi library => (library, abi) ∈ report.mismatched.map Mismatch.pair
  apart : ∀ mismatch ∈ report.mismatched, mismatch.pair ∉ report.missing

-- What the demand for a report comes to: the report if it passed, else the failure that names all its pairs, those
-- that are missing first, and the first of them in particular.
inductive Demanded (report : Report) : Except Failure Report → Prop
  | passed (passed : report.passed = true) : Demanded report (.ok report)
  | failed {library : String} {abi : Abi} {others : List (String × Abi)} (failed : report.passed = false)
      (pairs : (library, abi) :: others = report.missing ++ report.mismatched.map Mismatch.pair) :
      Demanded report (.error (.missing (library, .known abi) (labels others)))

theorem demand_demanded (report : Report) : Demanded report (demand report).1 := by
  rcases demand_pairs report with ⟨passed, asked, _⟩ | ⟨failed, first, others, asked, named⟩
  · rw [asked]
    exact .passed passed
  · obtain ⟨pair, rest, pairs, rfl, rfl⟩ := List.map_eq_cons_iff.mp named.symm
    rw [asked]
    exact .failed failed pairs.symm

theorem passed_iff (report : Report) : report.passed = true ↔ report.missing = [] ∧ report.mismatched = [] := by
  simp [Report.passed]

theorem foreign_target : (t.target? path).bind (Node.foreignMachine? abi) = some machine ↔
    ∃ content, t.Contains path content ∧ Elf.Stamped content machine ∧ machine ≠ abi.machine := by
  simp only [contains_target, ← Elf.machine?_iff]
  cases t.target? path with
  | none => simp
  | some node => cases node <;> simp [Node.foreignMachine?, Option.filter_eq_some_iff]

theorem mem_mismatchesWhere : ⟨library, abi, machine⟩ ∈ mismatchesWhere architectures libraries found ↔
    abi ∈ architectures ∧ library ∈ libraries ∧
      (found abi library).bind (Node.foreignMachine? abi) = some machine := by
  simp only [mismatchesWhere, List.mem_flatMap, List.mem_filterMap, Option.map_eq_some_iff, Mismatch.mk.injEq]
  constructor
  · rintro ⟨abi', among, library', inside, machine', foreign, rfl, rfl, rfl⟩
    exact ⟨among, inside, foreign⟩
  · rintro ⟨among, inside, foreign⟩
    exact ⟨abi, among, library, inside, machine, foreign, rfl, rfl, rfl⟩

theorem pairsWhere_members (architectures : List Abi) (libraries : List String) (holds : Abi → String → Bool) :
    pairsWhere architectures libraries holds = pairsWhere architectures libraries
      fun abi library => (library, abi) ∈ pairsWhere architectures libraries holds := by
  refine pairsWhere_congr fun abi among library inside => ?_
  rw [Bool.eq_iff_iff, decide_eq_true_iff, mem_pairsWhere]
  exact ⟨fun yes => ⟨among, inside, yes⟩, fun member => member.2.2⟩

theorem require_made (made : checkNamed t root variant architectures libraries = .ok report) :
    require t root variant architectures libraries = demand report := by
  unfold require
  rw [made]

theorem require_broken (broken : checkNamed t root variant architectures libraries = .error cause) :
    require t root variant architectures libraries = (.error cause, []) := by
  unfold require
  rw [broken]

theorem check_alone (refused : t.isFile ((abiDir root v abi).child library) = .error fault) :
    check t root v [abi] [library] = .error fault := by
  have seen : inspect t ((abiDir root v abi).child library) abi = .error fault := by
    rw [inspect_eq, refused]
    rfl
  unfold check checkAbi
  rw [List.foldlM_cons, List.foldlM_cons, seen]
  rfl

theorem exact_of_check (ran : check t root v architectures libraries = .ok report) :
    Exact t root v architectures libraries report := by
  have known : ∀ abi ∈ architectures, ∀ library ∈ libraries, ∀ finding,
      inspect t ((abiDir root v abi).child library) abi = .ok finding →
        finding = .of abi (t.target? ((abiDir root v abi).child library)) :=
    fun abi _ library _ finding seen => inspect_target seen
  obtain ⟨missing, mismatched⟩ := check_lists known ran
  have pairs := congrArg (List.map Mismatch.pair) mismatched
  simp only [Report.empty, List.nil_append] at missing mismatched pairs
  rw [mismatchesWhere_pairs] at pairs
  have absent : ∀ library abi, (library, abi) ∈ report.missing ↔ abi ∈ architectures ∧ library ∈ libraries ∧
      ¬ ∃ content, t.Contains ((abiDir root v abi).child library) content := fun library abi => by
    rw [missing, mem_pairsWhere, Bool.not_eq_true', ← Bool.not_eq_true, target_isFile]
  have foreign : ∀ library abi machine, ⟨library, abi, machine⟩ ∈ report.mismatched ↔
      abi ∈ architectures ∧ library ∈ libraries ∧ ∃ content, t.Contains ((abiDir root v abi).child library) content ∧
        Elf.Stamped content machine ∧ machine ≠ abi.machine := fun library abi machine => by
    rw [mismatched, mem_mismatchesWhere, foreign_target]
  refine ⟨absent, foreign, ?_, ?_, fun mismatch member lacks => ?_⟩
  · rw [missing]
    exact pairsWhere_members _ _ _
  · rw [pairs]
    exact pairsWhere_members _ _ _
  · obtain ⟨_, _, content, contains, _⟩ := (foreign _ _ _).mp member
    exact ((absent _ _).mp lacks).2.2 ⟨content, contains⟩

-- Checking reports exactly what is wrong, and demanding a report that is free of it fails for just that. The one thing
-- that breaks both off is a name on the way to a library that is too long.
theorem placement_exact (known : Variant.parse variant = .ok v) :
    (∃ report, checkNamed t root variant architectures libraries = .ok report ∧
      Exact t root v architectures libraries report ∧
      (report.passed = true ↔ report.missing = [] ∧ report.mismatched = []) ∧
      Demanded report (require t root variant architectures libraries).1) ∨
    ∃ abi ∈ architectures, ∃ library ∈ libraries, ∃ shown,
      ¬ (LinksFit t ∧ Fits ((abiDir root v abi).child library).names) ∧
      t.isFile ((abiDir root v abi).child library) = .error (.system .nameTooLong shown) ∧
      checkNamed t root variant architectures libraries = .error (.mishap (.file (.system .nameTooLong shown))) ∧
      require t root variant architectures libraries = (.error (.mishap (.file (.system .nameTooLong shown))), []) := by
  have named : checkNamed t root variant architectures libraries =
      Failure.ofFile (check t root v architectures libraries) := checkNamed_known known
  cases asked : check t root v architectures libraries with
  | ok report =>
    rw [asked] at named
    have demanded := demand_demanded report
    exact .inl ⟨report, named, exact_of_check asked, passed_iff report, by rw [require_made named]; exact demanded⟩
  | error fault =>
    rw [asked] at named
    obtain ⟨abi, among, library, inside, refused⟩ := check_refused asked
    obtain ⟨shown, rfl⟩ := isFile_tooLong refused
    refine .inr ⟨abi, among, library, inside, shown, fun short => ?_, refused, named, require_broken named⟩
    obtain ⟨answer, answered⟩ := isFile_fits short.1 short.2
    rw [refused] at answered
    cases answered

def mixedTree : FileTree := ⟨[], [
  (["j"], .directory), (["j", "debug"], .directory), (["j", "debug", "x86"], .directory),
  (["j", "debug", "x86", "liba.so"],
    .file (Elf.magic ++ [2, 1, 1, 0, 0, 0, 0, 0, 0, 0, 0, 0, 3, 0, 62, 0]) false),
  (["j", "debug", "x86", "libb.so"], .file [35, 33] false), (["j", "debug", "x86", "libc.so"], .directory)]⟩

theorem mixed_exact :
    Variant.parse (.text "debug") = .ok .debug ∧
      checkNamed mixedTree ⟨.single, ["j"]⟩ (.text "debug") [.x86] ["liba.so", "libb.so", "libc.so"] =
        .ok ⟨[("libc.so", .x86)], [⟨"liba.so", .x86, 62⟩]⟩ ∧
      Exact mixedTree ⟨.single, ["j"]⟩ .debug [.x86] ["liba.so", "libb.so", "libc.so"]
        ⟨[("libc.so", .x86)], [⟨"liba.so", .x86, 62⟩]⟩ ∧
      Demanded ⟨[("libc.so", .x86)], [⟨"liba.so", .x86, 62⟩]⟩
        (require mixedTree ⟨.single, ["j"]⟩ (.text "debug") [.x86] ["liba.so", "libb.so", "libc.so"]).1 := by
  have known : Variant.parse (.text "debug") = .ok .debug := parse_text .debug
  have ran : checkNamed mixedTree ⟨.single, ["j"]⟩ (.text "debug") [.x86] ["liba.so", "libb.so", "libc.so"] =
      .ok ⟨[("libc.so", .x86)], [⟨"liba.so", .x86, 62⟩]⟩ := ok_of_toOption (by decide +kernel)
  rcases placement_exact known with ⟨report, made, exact_, _, demanded⟩ | ⟨_, _, _, _, _, _, _, broken, _⟩
  · cases made.symm.trans ran
    exact ⟨known, ran, exact_, demanded⟩
  · cases broken.symm.trans ran

def bareTree : FileTree := ⟨[], [
  (["j"], .directory), (["j", "debug"], .directory), (["j", "debug", "x86"], .directory)]⟩

def longLibrary : String := String.ofList (List.replicate 300 'a')

theorem bareTree_based : Based bareTree ⟨.single, ["j", "debug", "x86"]⟩ ["j", "debug", "x86"] := by
  have walked : bareTree.walk true maxLinks [] ["j", "debug", "x86"] = .ok ["j", "debug", "x86"] :=
    ok_of_toOption (by decide +kernel)
  exact ⟨.of_entries (by decide), by decide, ⟨by decide, route_of_walk walked (by decide)⟩, .of_entries (by decide)⟩

theorem longLibrary_refused :
    ∃ shown, bareTree.isFile ((abiDir ⟨.single, ["j"]⟩ .debug .x86).child longLibrary) =
      .error (.system .nameTooLong shown) := by
  have plain : Plain longLibrary := FilePath.plain_replicate (by decide) (by decide)
  have noNul : FilePath.anyNul [longLibrary] = false := FilePath.noNul_replicate (by decide) 300
  have notUp : ∀ name ∈ [] ++ [longLibrary], name ≠ ".." := by simpa using plain.2.2.1
  have dir : abiDir ⟨.single, ["j"]⟩ .debug .x86 = ⟨.single, ["j", "debug", "x86"]⟩ := by decide +kernel
  rw [FilePath.child_plain plain, dir]
  have asked := isFile_long bareTree_based notUp (by simp) noNul (by decide +kernel)
  rw [if_pos (by decide)] at asked
  exact ⟨_, asked⟩

-- A library whose name is too long is not there, and yet is not reported as missing: the system refuses to be asked.
theorem long_name_breaks_check :
    (¬ ∃ content, bareTree.Contains ((abiDir ⟨.single, ["j"]⟩ .debug .x86).child longLibrary) content) ∧
      ∃ shown, checkNamed bareTree ⟨.single, ["j"]⟩ (.text "debug") [.x86] [longLibrary] =
          .error (.mishap (.file (.system .nameTooLong shown))) ∧
        (require bareTree ⟨.single, ["j"]⟩ (.text "debug") [.x86] [longLibrary]).1 =
          .error (.mishap (.file (.system .nameTooLong shown))) := by
  have known : Variant.parse (.text "debug") = .ok .debug := parse_text .debug
  obtain ⟨shown, refused⟩ := longLibrary_refused
  have broken : checkNamed bareTree ⟨.single, ["j"]⟩ (.text "debug") [.x86] [longLibrary] =
      .error (.mishap (.file (.system .nameTooLong shown))) := by
    rw [checkNamed_known known, check_alone refused]
    rfl
  refine ⟨?_, shown, broken, by rw [require_broken broken]⟩
  rintro ⟨content, m, executable, located, there⟩
  cases (isFile_of_located located there).symm.trans refused

end Placement

end AbiBuild
