import AbiBuild.Ndk
import AbiBuild.Proofs.Config.Accepted
import AbiBuild.Proofs.Files.Refusals
import AbiBuild.Proofs.Files.Resolving

namespace AbiBuild.Ndk

-- What lies in the directory of an SDK's installations: the pinned version, or any entry named like a version.
inductive Offers (t : FileTree) (pinned : Option String) (all : FilePath) : FilePath → Prop
  | pinned {version : String} (wanted : pinned = some version) (some_ : version ≠ "")
      (there : t.isDirectory (all.child version) = .ok true) : Offers t pinned all (all.child version)
  | listed {entries : List String} {entry : String} {numbered : List Nat × String}
      (there : t.isDirectory all = .ok true) (lists : t.names all = .ok entries) (member : entry ∈ entries)
      (named : versionOf entry = some numbered) : Offers t pinned all (all.child entry)

inductive Asks (pinned : Option String) (all : FilePath) : FilePath → Prop
  | pinned {version : String} (wanted : pinned = some version) (some_ : version ≠ "") :
      Asks pinned all (all.child version)
  | all : Asks pinned all all

-- What yields an NDK. A directory that is configured is the only source.
inductive Source (t : FileTree) (environ : Environment) (pinned : Option String) : Option FilePath → FilePath → Prop
  | configured {dir : FilePath} (there : t.isDirectory dir = .ok true) : Source t environ pinned (some dir) dir
  | named {name value : String} (among : name ∈ ndkVariables) (set : setting? environ name = some value)
      (there : t.isDirectory (.ofText value) = .ok true) : Source t environ pinned none (.ofText value)
  | installed {name value : String} {dir : FilePath} (among : name ∈ sdkVariables)
      (set : setting? environ name = some value) (offers : Offers t pinned ((FilePath.ofText value).child "ndk") dir) :
      Source t environ pinned none dir

inductive Asked (environ : Environment) (pinned : Option String) : Option FilePath → FilePath → Prop
  | configured {dir : FilePath} : Asked environ pinned (some dir) dir
  | named {name value : String} (among : name ∈ ndkVariables) (set : setting? environ name = some value) :
      Asked environ pinned none (.ofText value)
  | installed {name value : String} {p : FilePath} (among : name ∈ sdkVariables)
      (set : setting? environ name = some value) (asks : Asks pinned ((FilePath.ofText value).child "ndk") p) :
      Asked environ pinned none p

def propertiesOf (dir : FilePath) : FilePath := dir.child "source.properties"

-- What breaks the search off, and what it breaks off with: a name too long to ask about, properties that are no
-- text, and versions that cannot be compared.
inductive Slip (t : FileTree) (configured : Option FilePath) (pinned : Option String) (environ : Environment) :
    Mishap → Prop
  | long {p : FilePath} {shown : String} (asked : Asked environ pinned configured p)
      (refused : t.isDirectory p = .error (.system .nameTooLong shown)) :
      Slip t configured pinned environ (.file (.system .nameTooLong shown))
  | properties {dir : FilePath} {shown : String} (found : search t configured pinned environ = .ok (some dir))
      (refused : t.isFile (propertiesOf dir) = .error (.system .nameTooLong shown)) :
      Slip t configured pinned environ (.file (.system .nameTooLong shown))
  | coding {dir : FilePath} {cause : Text.Utf8Error} (found : search t configured pinned environ = .ok (some dir))
      (refused : t.readText (propertiesOf dir) = .error (.notText cause)) :
      Slip t configured pinned environ (.file (.notText cause))
  | version {dir : FilePath} {wanted actual : String} {fault : Version.Fault}
      (found : search t configured pinned environ = .ok (some dir)) (asked : pinned = some wanted)
      (some_ : wanted ≠ "") (stated : revision t dir = .ok (some actual)) (told : actual ≠ "")
      (odd : Version.parse actual = .error fault ∨ Version.parse wanted = .error fault) :
      Slip t configured pinned environ (.value (.version fault))

def Broken (t : FileTree) (configured : Option FilePath) (pinned : Option String) (environ : Environment)
    (cause : Failure) : Prop :=
  ∃ mishap, cause = .mishap mishap ∧ Slip t configured pinned environ mishap

-- A failure reports that there is no NDK, which is so, or the search is broken off.
def Missed (t : FileTree) (configured : Option FilePath) (pinned : Option String) (environ : Environment)
    (cause : Failure) : Prop :=
  (∃ fault, cause = .ndk fault) ∧ (∀ dir, ¬ Source t environ pinned configured dir) ∨
    Broken t configured pinned environ cause

variable {t : FileTree} {configured : Option FilePath} {pinned : Option String} {environ : Environment}
  {dir all sdk p : FilePath} {names entries : List String} {name value entry : String} {fault : FileFault}
  {cause : Failure} {notices : List Notice} {numbered : List Nat × String} {list : List (List Nat × String)}

theorem filter_nonempty {s : Option String} : s.filter (!·.isEmpty) = some value ↔ s = some value ∧ value ≠ "" := by
  rw [Option.filter_eq_some_iff]
  simp

theorem newest_mem (found : newest list = some numbered) : numbered ∈ list := by
  induction list generalizing numbered with
  | nil => cases found
  | cons a rest ih =>
    unfold newest at found
    split at found
    · cases found
      exact List.mem_cons_self
    · rename_i b later
      cases found
      split
      · exact List.mem_cons_of_mem _ (ih later)
      · exact List.mem_cons_self

theorem newest_none (none_ : newest list = none) : list = [] := by
  cases list with
  | nil => rfl
  | cons a rest =>
    unfold newest at none_
    split at none_ <;> cases none_

theorem versionOf_name (named : versionOf name = some numbered) : numbered.2 = name := by
  unfold versionOf at named
  split at named
  · cases named
    rfl
  · cases named

theorem newestName_mem (found : newestName names = some name) :
    name ∈ names ∧ ∃ numbered, versionOf name = some numbered := by
  obtain ⟨numbered, newest_, rfl⟩ := Option.map_eq_some_iff.mp found
  obtain ⟨entry, member, named⟩ := List.mem_filterMap.mp (newest_mem newest_)
  rw [versionOf_name named]
  exact ⟨member, numbered, named⟩

theorem newestName_none (none_ : newestName names = none) : ∀ name ∈ names, versionOf name = none :=
  List.filterMap_eq_nil_iff.mp (newest_none (Option.map_eq_none_iff.mp none_))

-- Both searches through variables ask each that is set, in order, until one gives an answer.
def firstOf (ask : String → Except FileFault (Option FilePath)) (environ : Environment) :
    List String → Except FileFault (Option FilePath)
  | [] => .ok none
  | name :: rest =>
    match setting? environ name with
    | none => firstOf ask environ rest
    | some value => do
      match ← ask value with
      | some path => return some path
      | none => firstOf ask environ rest

def directory? (t : FileTree) (value : String) : Except FileFault (Option FilePath) :=
  (t.isDirectory (.ofText value)).map fun there => if there then some (.ofText value) else none

theorem firstDirectory_eq : firstDirectory t environ names = firstOf (directory? t) environ names := by
  induction names with
  | nil => rfl
  | cons name rest ih =>
    unfold firstDirectory firstOf
    cases setting? environ name with
    | none => exact ih
    | some value =>
      unfold directory?
      dsimp only
      cases t.isDirectory (.ofText value) with
      | error fault => rfl
      | ok there =>
        cases there with
        | true => rfl
        | false => exact ih

theorem firstInstalled_eq : firstInstalled t environ pinned names =
    firstOf (fun value => installed t (.ofText value) pinned) environ names := by
  induction names with
  | nil => rfl
  | cons name rest ih =>
    unfold firstInstalled firstOf
    cases setting? environ name with
    | none => exact ih
    | some value =>
      dsimp only
      cases installed t (.ofText value) pinned with
      | error fault => rfl
      | ok found =>
        cases found with
        | none => exact ih
        | some path => rfl

variable {ask : String → Except FileFault (Option FilePath)} {answer : Except FileFault (Option FilePath)}

theorem firstOf_cons (ran : firstOf ask environ (name :: names) = answer) :
    (∀ value, setting? environ name = some value → ask value = .ok none) ∧ firstOf ask environ names = answer ∨
      ∃ value, setting? environ name = some value ∧ ask value = answer ∧ answer ≠ .ok none := by
  unfold firstOf at ran
  cases set : setting? environ name with
  | none =>
    rw [set] at ran
    refine .inl ⟨fun _ other => ?_, ran⟩
    cases other
  | some value =>
    rw [set] at ran
    dsimp only at ran
    cases asked : ask value with
    | error fault =>
      rw [asked] at ran
      subst ran
      exact .inr ⟨value, rfl, asked, nofun⟩
    | ok found =>
      rw [asked] at ran
      cases found with
      | none =>
        refine .inl ⟨fun other same => ?_, ran⟩
        cases same
        exact asked
      | some path =>
        subst ran
        exact .inr ⟨value, rfl, asked, nofun⟩

theorem firstOf_answer (ran : firstOf ask environ names = answer) (other : answer ≠ .ok none) :
    ∃ name ∈ names, ∃ value, setting? environ name = some value ∧ ask value = answer := by
  induction names with
  | nil => exact absurd ran.symm other
  | cons first rest ih =>
    rcases firstOf_cons ran with ⟨_, ran⟩ | ⟨value, set, asked, _⟩
    · obtain ⟨name, member, found⟩ := ih ran
      exact ⟨name, List.mem_cons_of_mem _ member, found⟩
    · exact ⟨first, List.mem_cons_self, value, set, asked⟩

theorem firstOf_none (ran : firstOf ask environ names = .ok none) :
    ∀ name ∈ names, ∀ value, setting? environ name = some value → ask value = .ok none := by
  induction names with
  | nil => exact fun _ member => by cases member
  | cons first rest ih =>
    rcases firstOf_cons ran with ⟨own, ran⟩ | ⟨_, _, _, some_⟩
    · intro name member
      rcases List.mem_cons.mp member with rfl | later
      · exact own
      · exact ih ran name later
    · exact absurd rfl some_

theorem directory?_some (asked : directory? t value = .ok (some dir)) :
    dir = .ofText value ∧ t.isDirectory (.ofText value) = .ok true := by
  unfold directory? at asked
  cases there : t.isDirectory (.ofText value) with
  | error fault =>
    rw [there] at asked
    cases asked
  | ok answer =>
    rw [there] at asked
    cases answer with
    | true =>
      cases asked
      exact ⟨rfl, rfl⟩
    | false => cases asked

theorem directory?_none (asked : directory? t value = .ok none) : t.isDirectory (.ofText value) = .ok false := by
  unfold directory? at asked
  cases there : t.isDirectory (.ofText value) with
  | error fault =>
    rw [there] at asked
    cases asked
  | ok answer =>
    rw [there] at asked
    cases answer with
    | true => cases asked
    | false => rfl

-- Without the pinned version the newest one is taken.
def newestBelow (t : FileTree) (all : FilePath) : Except FileFault (Option FilePath) := do
  if ← t.isDirectory all then return (newestName (← t.names all)).map all.child
  else return none

theorem newestBelow_parts (ran : newestBelow t all = .ok (some dir)) : t.isDirectory all = .ok true ∧
    ∃ entries name, t.names all = .ok entries ∧ newestName entries = some name ∧ dir = all.child name := by
  obtain ⟨there, asked, ran⟩ := bind_ok ran
  cases there with
  | false => cases ran
  | true =>
    obtain ⟨entries, lists, ran⟩ := bind_ok ran
    obtain ⟨name, newest_, rfl⟩ := Option.map_eq_some_iff.mp (Except.ok.inj ran)
    exact ⟨asked, entries, name, lists, newest_, rfl⟩

theorem newestBelow_some (ran : newestBelow t all = .ok (some dir)) : Offers t pinned all dir := by
  obtain ⟨there, entries, name, lists, newest_, rfl⟩ := newestBelow_parts ran
  obtain ⟨member, numbered, named⟩ := newestName_mem newest_
  exact .listed there lists member named

theorem newestBelow_none (ran : newestBelow t all = .ok none) (there : t.isDirectory all = .ok true)
    (lists : t.names all = .ok entries) : ∀ entry ∈ entries, versionOf entry = none := by
  unfold newestBelow at ran
  rw [there, lists] at ran
  exact newestName_none (Option.map_eq_none_iff.mp (Except.ok.inj ran))

theorem newestBelow_error (ran : newestBelow t all = .error fault) : t.isDirectory all = .error fault := by
  unfold newestBelow at ran
  cases there : t.isDirectory all with
  | error other =>
    rw [there] at ran
    cases ran
    rfl
  | ok answer =>
    rw [there] at ran
    cases answer with
    | false => cases ran
    | true =>
      obtain ⟨entries, lists⟩ := FileTree.names_directory there
      rw [lists] at ran
      cases ran

theorem installed_cases (ran : installed t sdk pinned = answer) :
    (∃ version, pinned = some version ∧ version ≠ "" ∧
      (t.isDirectory ((sdk.child "ndk").child version) = .ok true ∧
          answer = .ok (some ((sdk.child "ndk").child version)) ∨
        ∃ fault, t.isDirectory ((sdk.child "ndk").child version) = .error fault ∧ answer = .error fault)) ∨
    (∀ version, pinned = some version → version ≠ "" →
      t.isDirectory ((sdk.child "ndk").child version) = .ok false) ∧ newestBelow t (sdk.child "ndk") = answer := by
  unfold installed at ran
  dsimp only at ran
  cases wanted : pinned.filter (!·.isEmpty) with
  | none =>
    rw [wanted] at ran
    refine .inr ⟨fun version same some_ => ?_, ran⟩
    rw [filter_nonempty.mpr ⟨same, some_⟩] at wanted
    cases wanted
  | some version =>
    rw [wanted] at ran
    obtain ⟨same, some_⟩ := filter_nonempty.mp wanted
    cases there : t.isDirectory ((sdk.child "ndk").child version) with
    | error fault =>
      simp only [there, bind, Except.bind] at ran
      exact .inl ⟨version, same, some_, .inr ⟨fault, there, ran.symm⟩⟩
    | ok found =>
      cases found with
      | true =>
        simp only [there, bind, Except.bind] at ran
        exact .inl ⟨version, same, some_, .inl ⟨there, ran.symm⟩⟩
      | false =>
        simp only [there, bind, Except.bind] at ran
        refine .inr ⟨fun other also _ => ?_, ran⟩
        rw [same] at also
        cases also
        exact there

theorem installed_some (ran : installed t sdk pinned = .ok (some dir)) : Offers t pinned (sdk.child "ndk") dir := by
  rcases installed_cases ran with ⟨version, wanted, some_, ⟨there, same⟩ | ⟨_, _, same⟩⟩ | ⟨_, newest_⟩
  · cases same
    exact .pinned wanted some_ there
  · cases same
  · exact newestBelow_some newest_

theorem installed_none (ran : installed t sdk pinned = .ok none) :
    ∀ dir, ¬ Offers t pinned (sdk.child "ndk") dir := by
  rcases installed_cases ran with ⟨_, _, _, ⟨_, same⟩ | ⟨_, _, same⟩⟩ | ⟨unpinned, newest_⟩
  · cases same
  · cases same
  · intro dir offers
    cases offers with
    | pinned wanted some_ there =>
      rw [unpinned _ wanted some_] at there
      cases there
    | listed there lists member named =>
      rw [newestBelow_none newest_ there lists _ member] at named
      cases named

theorem installed_error (ran : installed t sdk pinned = .error fault) :
    ∃ p, Asks pinned (sdk.child "ndk") p ∧ t.isDirectory p = .error fault := by
  rcases installed_cases ran with ⟨version, wanted, some_, ⟨_, same⟩ | ⟨_, refused, same⟩⟩ | ⟨_, newest_⟩
  · cases same
  · cases same
    exact ⟨_, .pinned wanted some_, refused⟩
  · exact ⟨_, .all, newestBelow_error newest_⟩

theorem asked_slip (asked : Asked environ pinned configured p) (refused : t.isDirectory p = .error fault) :
    Slip t configured pinned environ (.file fault) := by
  obtain ⟨shown, rfl⟩ := FileTree.isDirectory_tooLong refused
  exact .long asked refused

theorem search_unconfigured (ran : search t none pinned environ = .ok (some dir)) :
    firstOf (directory? t) environ ndkVariables = .ok (some dir) ∨
      firstOf (directory? t) environ ndkVariables = .ok none ∧
        firstOf (fun value => installed t (.ofText value) pinned) environ sdkVariables = .ok (some dir) := by
  obtain ⟨found, first, ran⟩ := bind_ok ran
  have first := mapError_ok first
  rw [firstDirectory_eq] at first
  cases found with
  | some chosen =>
    cases ran
    exact .inl first
  | none =>
    have second := mapError_ok ran
    rw [firstInstalled_eq] at second
    exact .inr ⟨first, second⟩

theorem search_some (ran : search t configured pinned environ = .ok (some dir)) :
    Source t environ pinned configured dir := by
  cases configured with
  | some chosen =>
    obtain ⟨there, asked, ran⟩ := bind_ok ran
    cases there with
    | false => cases ran
    | true =>
      cases ran
      exact .configured (mapError_ok asked)
  | none =>
    rcases search_unconfigured ran with first | ⟨_, second⟩
    · obtain ⟨name, among, value, set, asked⟩ := firstOf_answer first (by simp)
      obtain ⟨rfl, there⟩ := directory?_some asked
      exact .named among set there
    · obtain ⟨name, among, value, set, below⟩ := firstOf_answer second (by simp)
      exact .installed among set (installed_some below)

theorem search_none (ran : search t configured pinned environ = .ok none) :
    ∀ dir, ¬ Source t environ pinned configured dir := by
  unfold search at ran
  cases configured with
  | some chosen =>
    obtain ⟨there, _, ran⟩ := bind_ok ran
    cases there <;> cases ran
  | none =>
    obtain ⟨found, first, ran⟩ := bind_ok ran
    have first := mapError_ok first
    rw [firstDirectory_eq] at first
    cases found with
    | some chosen => cases ran
    | none =>
      have second := mapError_ok ran
      rw [firstInstalled_eq] at second
      intro dir source
      cases source with
      | named among set there =>
        rw [directory?_none (firstOf_none first _ among _ set)] at there
        cases there
      | installed among set offers => exact installed_none (firstOf_none second _ among _ set) dir offers

theorem search_fails : Fails (Missed t configured pinned environ) (search t configured pinned environ) := by
  unfold search
  cases configured with
  | some chosen =>
    have refusal : ∀ fault, t.isDirectory chosen = .error fault →
        Missed t (some chosen) pinned environ (.mishap (.file fault)) := fun fault refused =>
      .inr ⟨_, rfl, asked_slip .configured refused⟩
    refine Fails.bind (.mapError refusal) fun there asked => ?_
    cases there with
    | true => exact .ok _
    | false =>
      refine .error (.inl ⟨⟨_, rfl⟩, fun dir source => ?_⟩)
      cases source with
      | configured there =>
        rw [mapError_ok asked] at there
        cases there
  | none =>
    refine Fails.bind (.mapError fun fault refused => ?_) fun found _ => ?_
    · rw [firstDirectory_eq] at refused
      obtain ⟨name, among, value, set, asked⟩ := firstOf_answer refused (by simp)
      exact .inr ⟨_, rfl, asked_slip (.named among set) (FileTree.map_error asked)⟩
    · cases found with
      | some chosen => exact .ok _
      | none =>
        refine .mapError fun fault refused => ?_
        rw [firstInstalled_eq] at refused
        obtain ⟨name, among, value, set, below⟩ := firstOf_answer refused (by simp)
        obtain ⟨p, asks, refused⟩ := installed_error below
        exact .inr ⟨_, rfl, asked_slip (.installed among set asks) refused⟩

theorem revision_slip (found : search t configured pinned environ = .ok (some dir)) :
    Fails (Broken t configured pinned environ) (revision t dir) := by
  unfold revision
  refine Fails.bind (.mapError fun fault refused => ?_) fun there asked => ?_
  · obtain ⟨shown, rfl⟩ := FileTree.isFile_tooLong refused
    exact ⟨_, rfl, .properties found refused⟩
  · cases there with
    | false => exact .ok _
    | true =>
      refine Fails.bind (.mapError fun fault refused => ?_) fun _ _ => .ok _
      obtain ⟨cause, rfl⟩ := FileTree.readText_refused (mapError_ok asked) refused
      exact ⟨_, rfl, .coding found refused⟩

theorem compareTexts_odd {s text : String} {fault : Version.Fault}
    (refused : Version.compareTexts s text = .error fault) :
    Version.parse s = .error fault ∨ Version.parse text = .error fault := by
  unfold Version.compareTexts at refused
  cases first : Version.parse s with
  | error other =>
    rw [first] at refused
    cases refused
    exact .inl rfl
  | ok left =>
    rw [first] at refused
    cases second : Version.parse text with
    | error other =>
      rw [second] at refused
      cases refused
      exact .inr rfl
    | ok right =>
      rw [second] at refused
      cases refused

theorem mismatch_slip {stated : Option String} (found : search t configured pinned environ = .ok (some dir))
    (read : revision t dir = .ok stated) :
    Fails (Broken t configured pinned environ) (mismatch dir pinned stated) := by
  unfold mismatch
  split
  · rename_i wanted actual asked told
    obtain ⟨pinned_, some_⟩ := filter_nonempty.mp asked
    obtain ⟨rfl, answered⟩ := filter_nonempty.mp told
    split
    · exact .ok _
    · exact .ok _
    · rename_i fault refused
      exact .error ⟨_, rfl, .version found pinned_ some_ read answered (compareTexts_odd refused)⟩
  · exact .ok _

theorem mismatch_warns {stated : Option String} (ran : mismatch dir pinned stated = .ok notices) :
    notices = [] ∨ ∃ text, notices = [.warning .ndk text] := by
  unfold mismatch at ran
  split at ran
  · split at ran
    · cases ran
      exact .inl rfl
    · cases ran
      exact .inr ⟨_, rfl⟩
    · cases ran
  · cases ran
    exact .inl rfl

theorem find_found (ran : find t configured pinned environ = .ok (dir, notices)) :
    search t configured pinned environ = .ok (some dir) ∧ Source t environ pinned configured dir ∧
      (notices = [] ∨ ∃ text, notices = [.warning .ndk text]) := by
  obtain ⟨found, searched, ran⟩ := bind_ok ran
  cases found with
  | none => cases ran
  | some chosen =>
    obtain ⟨stated, _, ran⟩ := bind_ok ran
    obtain ⟨told, warned, ran⟩ := bind_ok ran
    cases ran
    exact ⟨searched, search_some searched, mismatch_warns warned⟩

theorem find_fails (t : FileTree) (configured : Option FilePath) (pinned : Option String) (environ : Environment) :
    Fails (Missed t configured pinned environ) (find t configured pinned environ) := by
  refine search_fails.bind fun found searched => ?_
  cases found with
  | none => exact .error (.inl ⟨⟨_, rfl⟩, search_none searched⟩)
  | some dir =>
    refine ((revision_slip searched).bind fun stated read => ?_).mono fun cause slip => .inr slip
    exact (mismatch_slip searched read).bind fun _ _ => .ok _

-- What is found is what a source yields, with at most a warning. What is reported is that no source yields any. The
-- slips apart there is nothing else, whatever the versions are.
theorem find_reported (t : FileTree) (configured : Option FilePath) (pinned : Option String) (environ : Environment) :
    (∀ dir notices, find t configured pinned environ = .ok (dir, notices) →
      search t configured pinned environ = .ok (some dir) ∧ Source t environ pinned configured dir ∧
        (notices = [] ∨ ∃ text, notices = [.warning .ndk text])) ∧
    Fails (Missed t configured pinned environ) (find t configured pinned environ) :=
  ⟨fun _ _ => find_found, find_fails t configured pinned environ⟩

-- A comparison that cannot be made breaks off what has been found.
theorem find_breaks_off {wanted actual : String} {fault : Version.Fault}
    (searched : search t configured (some wanted) environ = .ok (some dir)) (some_ : wanted ≠ "")
    (stated : revision t dir = .ok (some actual)) (told : actual ≠ "")
    (odd : Version.compareTexts actual wanted = .error fault) :
    find t configured (some wanted) environ = .error (.mishap (.value (.version fault))) := by
  have broken : mismatch dir (some wanted) (some actual) = .error (.mishap (.value (.version fault))) := by
    unfold mismatch
    rw [filter_nonempty.mpr ⟨rfl, some_⟩, filter_nonempty.mpr ⟨rfl, told⟩]
    simp only [odd]
    rfl
  unfold find
  rw [searched]
  show (revision t dir >>= fun read => mismatch dir (some wanted) read >>= fun notices => pure (dir, notices)) = _
  rw [stated]
  show (mismatch dir (some wanted) (some actual) >>= fun notices => pure (dir, notices)) = _
  rw [broken]
  rfl

def numberedTree : FileTree := ⟨[], [
  (["ndk"], .directory),
  (["ndk", "source.properties"], .file (Text.encode "Pkg.Revision = 22.1.7171670\n") false)]⟩

-- Where a release is asked for by its name, an NDK that is there is not returned.
theorem release_name_breaks_off :
    Source numberedTree [] (some "r22b") (some ⟨.single, ["ndk"]⟩) ⟨.single, ["ndk"]⟩ ∧
      revision numberedTree ⟨.single, ["ndk"]⟩ = .ok (some "22.1.7171670") ∧
      find numberedTree (some ⟨.single, ["ndk"]⟩) (some "r22b") [] =
        .error (.mishap (.value (.version (.malformed "r22b")))) := by
  have there : numberedTree.isDirectory ⟨.single, ["ndk"]⟩ = .ok true := ok_of_toOption (by decide +kernel)
  have stated : revision numberedTree ⟨.single, ["ndk"]⟩ = .ok (some "22.1.7171670") :=
    ok_of_toOption (by decide +kernel)
  have searched : search numberedTree (some ⟨.single, ["ndk"]⟩) (some "r22b") [] =
      .ok (some ⟨.single, ["ndk"]⟩) := ok_of_toOption (by decide +kernel)
  exact ⟨.configured there, stated,
    find_breaks_off searched (by decide) stated (by decide) (by decide +kernel)⟩

end AbiBuild.Ndk
