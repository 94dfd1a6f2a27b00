import AbiBuild.Proofs.Files.Refusals
import AbiBuild.Proofs.Placement.Bounds

namespace AbiBuild
open AbiBuild.Text

def Node.isForeign (abi : Abi) : Node → Bool
  | .file content _ => (Elf.machine? content).any (· ≠ abi.machine)
  | _ => false

def Node.foreignMachine? (abi : Abi) : Node → Option Nat
  | .file content _ => (Elf.machine? content).filter (· ≠ abi.machine)
  | _ => none

theorem Node.foreignMachine?_isSome (abi : Abi) (node : Node) :
    (node.foreignMachine? abi).isSome = node.isForeign abi := by
  cases node with
  | file content executable => exact Option.isSome_filter
  | directory => rfl
  | link target => rfl

namespace Placement
open FileTree

def Finding.of (abi : Abi) : Option Node → Finding
  | some (.file content _) =>
    match Elf.machine? content with
    | some machine => if machine = abi.machine then .right else .foreign machine
    | none => .right
  | _ => .absent

-- The pairs that something holds of, architecture by architecture.
def pairsWhere (architectures : List Abi) (libraries : List String) (holds : Abi → String → Bool) :
    List (String × Abi) :=
  architectures.flatMap fun abi => (libraries.filter (holds abi)).map fun library => (library, abi)

def mismatchesWhere (architectures : List Abi) (libraries : List String) (found : Abi → String → Option Node) :
    List Mismatch :=
  architectures.flatMap fun abi => libraries.filterMap fun library =>
    ((found abi library).bind (Node.foreignMachine? abi)).map fun machine => ⟨library, abi, machine⟩

def Mismatch.pair (m : Mismatch) : String × Abi := (m.library, m.abi)

-- What is wrong where each library is as it says: some are not there, others are for another machine.
def lacking (architectures : List Abi) (libraries : List String) (found : Abi → String → Option Node) :
    List (String × Abi) :=
  pairsWhere architectures libraries (fun abi library => !(found abi library).any Node.isFile) ++
    pairsWhere architectures libraries fun abi library => (found abi library).any (Node.isForeign abi)

def labels (pairs : List (String × Abi)) : List (String × Labelled) :=
  pairs.map fun pair => (pair.1, .known pair.2)

variable {t : FileTree} {root path : FilePath} {l : Location} {names : List String} {v : Variant} {abi : Abi}
  {library : String} {libraries : List String} {architectures : List Abi} {r report : Report} {finding : Finding}
  {found : Abi → String → Option Node} {node? : Option Node} {cause : Failure}

theorem mem_pairsWhere {holds : Abi → String → Bool} : (library, abi) ∈ pairsWhere architectures libraries holds ↔
    abi ∈ architectures ∧ library ∈ libraries ∧ holds abi library = true := by
  simp only [pairsWhere, List.mem_flatMap, List.mem_map, List.mem_filter, Prod.mk.injEq]
  constructor
  · rintro ⟨abi', among, library', ⟨inside, yes⟩, rfl, rfl⟩
    exact ⟨among, inside, yes⟩
  · rintro ⟨among, inside, yes⟩
    exact ⟨abi, among, library, ⟨inside, yes⟩, rfl, rfl⟩

theorem pairsWhere_congr {holds other : Abi → String → Bool}
    (same : ∀ abi ∈ architectures, ∀ library ∈ libraries, holds abi library = other abi library) :
    pairsWhere architectures libraries holds = pairsWhere architectures libraries other := by
  unfold pairsWhere
  refine List.flatMap_congr fun abi member => ?_
  rw [List.filter_congr (same abi member)]

theorem any_of_files {one other : Option Node} {holds : Node → Bool}
    (onFiles : ∀ node, holds node = true → node.isFile = true)
    (among : ∀ content executable, one = some (.file content executable) → other = some (.file content executable))
    (yes : one.any holds = true) : other.any holds = true := by
  obtain ⟨node, there, holds'⟩ := (Option.any_eq_true _ _).mp yes
  have file := onFiles node holds'
  cases node with
  | file content executable => exact (Option.any_eq_true _ _).mpr ⟨_, among _ _ there, holds'⟩
  | directory => cases file
  | link target => cases file

theorem isForeign_file (node : Node) (foreign : node.isForeign abi = true) : node.isFile = true := by
  cases node with
  | file content executable => rfl
  | directory => cases foreign
  | link target => cases foreign

theorem lacking_congr {other : Abi → String → Option Node} (same : ∀ abi ∈ architectures, ∀ library ∈ libraries,
      ∀ content executable, found abi library = some (.file content executable) ↔
        other abi library = some (.file content executable)) :
    lacking architectures libraries found = lacking architectures libraries other := by
  have any_same : ∀ holds : Node → Bool, (∀ node, holds node = true → node.isFile = true) →
      ∀ abi ∈ architectures, ∀ library ∈ libraries, (found abi library).any holds = (other abi library).any holds := by
    intro holds onFiles abi member library inside
    have files := same abi member library inside
    rw [Bool.eq_iff_iff]
    exact ⟨any_of_files onFiles fun _ _ => (files _ _).mp, any_of_files onFiles fun _ _ => (files _ _).mpr⟩
  unfold lacking
  congr 1
  · exact pairsWhere_congr fun abi member library inside => by rw [any_same _ (fun _ => id) abi member library inside]
  · exact pairsWhere_congr fun abi member library inside => any_same _ isForeign_file abi member library inside

theorem Finding.of_other {node? : Option Node} (other : node?.any Node.isFile = false) :
    Finding.of abi node? = .absent := by
  cases node? with
  | none => rfl
  | some node =>
    cases node with
    | file content executable => cases other
    | directory => rfl
    | link target => rfl

theorem Finding.of_congr {one other : Option Node} (same : ∀ content,
      (∃ executable, one = some (.file content executable)) ↔ ∃ executable, other = some (.file content executable)) :
    Finding.of abi one = Finding.of abi other := by
  have files : ∀ {node? : Option Node}, node?.any Node.isFile = true →
      ∃ content executable, node? = some (.file content executable) := fun {node?} seen => by
    obtain ⟨node, there, file⟩ := (Option.any_eq_true _ _).mp seen
    cases node with
    | file content executable => exact ⟨content, executable, there⟩
    | directory => cases file
    | link target => cases file
  cases first : one.any Node.isFile with
  | true =>
    obtain ⟨content, executable, rfl⟩ := files first
    obtain ⟨executable', rfl⟩ := (same content).mp ⟨executable, rfl⟩
    rfl
  | false =>
    cases second : other.any Node.isFile with
    | true =>
      obtain ⟨content, executable, rfl⟩ := files second
      obtain ⟨executable', rfl⟩ := (same content).mpr ⟨executable, rfl⟩
      cases first
    | false => rw [of_other first, of_other second]

theorem inspect_eq (t : FileTree) (path : FilePath) (abi : Abi) :
    inspect t path abi = (t.isFile path).map fun _ => Finding.of abi (t.target? path) := by
  unfold inspect
  cases asked : t.isFile path with
  | error fault => rfl
  | ok answer =>
    have seen := isFile_target asked
    simp only [bind, Except.bind, Except.map]
    cases answer with
    | false =>
      rw [Finding.of_other seen.symm]
      rfl
    | true =>
      obtain ⟨content, contains⟩ := target_isFile.mp seen.symm
      obtain ⟨executable, there⟩ := contains_target.mp contains
      simp only [if_true, contains.read, there, Finding.of]
      cases Elf.machine? content <;> rfl

theorem inspect_target (ran : inspect t path abi = .ok finding) : finding = .of abi (t.target? path) := by
  rw [inspect_eq] at ran
  cases asked : t.isFile path with
  | ok answer =>
    rw [asked] at ran
    cases ran
    rfl
  | error fault =>
    rw [asked] at ran
    cases ran

theorem inspect_found (wellFormed : t.WellFormed) (hosts : Hosts t root l) (plain : ∀ name ∈ names, name ≠ "..")
    (nonempty : names ≠ []) (reached : ∀ content executable, t.node? (l ++ names) = some (.file content executable) →
      Stands t root l ∧ Nameable names) (ran : inspect t (root.under names) abi = .ok finding) :
    finding = .of abi (t.node? (l ++ names)) := by
  rw [inspect_target ran]
  refine Finding.of_congr fun content => ?_
  rw [← contains_target]
  constructor
  · intro contains
    exact (read_under hosts plain nonempty contains.read).2
  · rintro ⟨executable, node⟩
    obtain ⟨stands, nameable⟩ := reached content executable node
    exact ⟨_, executable, locate_there stands (hosts.stands stands).2 wellFormed plain nonempty nameable node, node⟩

theorem check_refused {fault : FileFault} (refused : check t root v architectures libraries = .error fault) :
    ∃ abi ∈ architectures, ∃ library ∈ libraries, t.isFile ((abiDir root v abi).child library) = .error fault := by
  have each : Fails (fun fault => ∃ abi ∈ architectures, ∃ library ∈ libraries,
      t.isFile ((abiDir root v abi).child library) = .error fault) (check t root v architectures libraries) := by
    refine Fails.foldlM (fun abi among r => Fails.foldlM (fun library inside r => ?_) r) Report.empty
    refine Fails.bind (fun fault refused => ?_) fun _ _ => Fails.ok _
    rw [inspect_eq] at refused
    exact ⟨abi, among, library, inside, map_error refused⟩
  exact each fault refused

theorem add_lists (r : Report) (library : String) (abi : Abi) (found : Option Node) :
    (r.add library abi (.of abi found)).missing =
      r.missing ++ (if found.any Node.isFile then [] else [(library, abi)]) ∧
    (r.add library abi (.of abi found)).mismatched = r.mismatched ++
      ((found.bind (Node.foreignMachine? abi)).map fun machine => Mismatch.mk library abi machine).toList := by
  unfold Finding.of
  cases found with
  | none => simp [Report.add]
  | some node =>
    cases node with
    | directory => simp [Report.add, Node.isFile, Node.foreignMachine?]
    | link target => simp [Report.add, Node.isFile, Node.foreignMachine?]
    | file content executable =>
      cases machine : Elf.machine? content with
      | none => simp [Report.add, Node.isFile, Node.foreignMachine?, machine]
      | some machine' =>
        by_cases own : machine' = abi.machine
        · simp [Report.add, Node.isFile, Node.foreignMachine?, machine, own]
        · simp [Report.add, Node.isFile, Node.foreignMachine?, machine, own, Option.filter_some]

theorem checkAbi_lists (known : ∀ library ∈ libraries, ∀ finding,
      inspect t ((abiDir root v abi).child library) abi = .ok finding → finding = .of abi (found abi library))
    (ran : checkAbi t root v libraries r abi = .ok report) :
    report.missing = r.missing ++ pairsWhere [abi] libraries (fun abi library => !(found abi library).any Node.isFile) ∧
    report.mismatched = r.mismatched ++ mismatchesWhere [abi] libraries found := by
  unfold checkAbi at ran
  -- Induction on the libraries that are still to be looked at.
  induction libraries generalizing r with
  | nil =>
    cases ran
    simp [pairsWhere, mismatchesWhere]
  | cons library rest ih =>
    rw [List.foldlM_cons] at ran
    obtain ⟨next, first, ran⟩ := bind_ok ran
    obtain ⟨finding, seen, first⟩ := bind_ok first
    cases first
    obtain ⟨missing, mismatched⟩ := ih (fun other member => known other (List.mem_cons_of_mem _ member)) ran
    obtain ⟨absent, foreign⟩ := add_lists r library abi (found abi library)
    rw [known library (by simp) finding seen] at missing mismatched
    rw [missing, mismatched, absent, foreign]
    simp only [pairsWhere, mismatchesWhere, List.flatMap_cons, List.flatMap_nil, List.append_nil, List.filter_cons,
      List.filterMap_cons]
    constructor
    · cases (found abi library).any Node.isFile <;> simp
    · cases (found abi library).bind (Node.foreignMachine? abi) <;> simp

theorem check_lists (known : ∀ abi ∈ architectures, ∀ library ∈ libraries, ∀ finding,
      inspect t ((abiDir root v abi).child library) abi = .ok finding → finding = .of abi (found abi library))
    (ran : architectures.foldlM (checkAbi t root v libraries) r = .ok report) :
    report.missing =
      r.missing ++ pairsWhere architectures libraries (fun abi library => !(found abi library).any Node.isFile) ∧
    report.mismatched = r.mismatched ++ mismatchesWhere architectures libraries found := by
  induction architectures generalizing r with
  | nil =>
    cases ran
    simp [pairsWhere, mismatchesWhere]
  | cons abi rest ih =>
    rw [List.foldlM_cons] at ran
    obtain ⟨next, first, ran⟩ := bind_ok ran
    obtain ⟨own, ownForeign⟩ := checkAbi_lists (known abi (by simp)) first
    obtain ⟨others, othersForeign⟩ := ih (fun other member => known other (List.mem_cons_of_mem _ member)) ran
    rw [others, othersForeign, own, ownForeign]
    simp [pairsWhere, mismatchesWhere]

theorem map_pair_filterMap (abi : Abi) (machine? : String → Option Nat) (libraries : List String) :
    (libraries.filterMap fun library => (machine? library).map fun machine => Mismatch.mk library abi machine).map
        Mismatch.pair =
      (libraries.filter fun library => (machine? library).isSome).map fun library => (library, abi) := by
  induction libraries with
  | nil => rfl
  | cons library rest ih =>
    rw [List.filterMap_cons, List.filter_cons]
    cases machine? library with
    | none => exact ih
    | some machine => exact congrArg ((library, abi) :: ·) ih

theorem mismatchesWhere_pairs (architectures : List Abi) (libraries : List String)
    (found : Abi → String → Option Node) : (mismatchesWhere architectures libraries found).map Mismatch.pair =
      pairsWhere architectures libraries fun abi library => (found abi library).any (Node.isForeign abi) := by
  unfold mismatchesWhere pairsWhere
  rw [List.map_flatMap]
  refine List.flatMap_congr fun abi _ => ?_
  have foreign : ∀ node? : Option Node,
      (node?.bind (Node.foreignMachine? abi)).isSome = node?.any (Node.isForeign abi) := by
    intro node?
    cases node? with
    | none => rfl
    | some node => exact node.foreignMachine?_isSome abi
  simp only [map_pair_filterMap, foreign]

theorem check_pairs (known : ∀ abi ∈ architectures, ∀ library ∈ libraries, ∀ finding,
      inspect t ((abiDir root v abi).child library) abi = .ok finding → finding = .of abi (found abi library))
    (ran : check t root v architectures libraries = .ok report) :
    report.pairs = lacking architectures libraries found := by
  obtain ⟨missing, mismatched⟩ := check_lists known ran
  have foreign := mismatchesWhere_pairs architectures libraries found
  have pairs : report.pairs = report.missing ++ report.mismatched.map Mismatch.pair := rfl
  unfold lacking
  rw [pairs, missing, mismatched, ← foreign]
  rfl

theorem demand_pairs (report : Report) :
    report.passed = true ∧ (demand report).1 = .ok report ∧ report.pairs = [] ∨
      report.passed = false ∧ ∃ first others, (demand report).1 = .error (.missing first others) ∧
        first :: others = labels report.pairs := by
  unfold demand
  cases passed : report.passed with
  | true =>
    simp only [Report.passed, Bool.and_eq_true, List.isEmpty_iff] at passed
    exact .inl ⟨rfl, rfl, by simp [Report.pairs, passed.1, passed.2]⟩
  | false =>
    cases pairs : report.pairs with
    | nil =>
      obtain ⟨missing, mismatched⟩ := List.append_eq_nil_iff.mp pairs
      simp [Report.passed, missing, List.map_eq_nil_iff.mp mismatched] at passed
    | cons first others => exact .inr ⟨rfl, _, _, rfl, rfl⟩

-- What a check that is made says: nothing is lacking, or all that is.
theorem require_pairs (known : ∀ abi ∈ architectures, ∀ library ∈ libraries, ∀ finding,
      inspect t ((abiDir root v abi).child library) abi = .ok finding → finding = .of abi (found abi library)) :
    (∃ report, (require t root (.text v.text) architectures libraries).1 = .ok report ∧
        lacking architectures libraries found = []) ∨
      (∃ fault, (require t root (.text v.text) architectures libraries).1 = .error (.mishap (.file fault))) ∨
      ∃ first others, (require t root (.text v.text) architectures libraries).1 = .error (.missing first others) ∧
        first :: others = labels (lacking architectures libraries found) := by
  have demanded : ∀ report, report.pairs = lacking architectures libraries found →
      (∃ report', (demand report).1 = .ok report' ∧ lacking architectures libraries found = []) ∨
      ∃ first others, (demand report).1 = .error (.missing first others) ∧
        first :: others = labels (lacking architectures libraries found) := by
    intro report same
    rw [← same]
    exact (demand_pairs report).imp (fun passed => ⟨report, passed.2⟩) fun failed => failed.2
  unfold require
  rw [checkNamed_known (parse_text v)]
  cases asked : check t root v architectures libraries with
  | error fault => exact .inr (.inl ⟨fault, rfl⟩)
  | ok report => exact (demanded report (check_pairs known asked)).imp_right .inr

end Placement

end AbiBuild
