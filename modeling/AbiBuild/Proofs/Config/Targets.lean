import AbiBuild.Proofs.Config.Accepted

namespace AbiBuild.Abi

inductive Entry
  | itself (abi : Abi)
  | named (name : String)

-- An architecture itself goes by the name that the packager knows it by.
def Entry.value : Entry → Value
  | itself abi => .text abi.text
  | named name => .text name

-- Which architecture an entry is meant for. Blanks around a name do not count.
def Entry.Denotes : Entry → Abi → Prop
  | itself own, abi => own = abi
  | named name, abi => Text.strip name = abi.text ∨ Text.strip name = abi.shortName

-- The entries come to one architecture before they come to another.
def Sooner (entries : List Entry) (a b : Abi) : Prop :=
  ∃ before entry after, entries = before ++ entry :: after ∧ entry.Denotes a ∧ ∀ earlier ∈ before, ¬ earlier.Denotes b

-- What a declaration comes to: each architecture once, and in the order of the entries.
structure Normalised (entries : List Entry) (list : List Abi) : Prop where
  distinct : list.Nodup
  exact : ∀ abi, abi ∈ list ↔ ∃ entry ∈ entries, entry.Denotes abi
  order : list.Pairwise (Sooner entries)

-- What is reported of a declaration: that there is nothing in it, or its first name that no architecture has.
inductive Reported : List Entry → Fault → Prop
  | nothing : Reported [] .noneDeclared
  | unmapped {before after : List Entry} {name : String} (mapped : ∀ entry ∈ before, ∃ abi, entry.Denotes abi)
      (unknown : ∀ abi, ¬ (Entry.named name).Denotes abi) :
      Reported (before ++ .named name :: after) (.unmapped (.text name))

variable {a b abi : Abi} {found declared list more : List Abi} {entry : Entry} {entries others : List Entry}
  {s : String} {fault : Fault}

theorem named?_iff : named? s = some abi ↔ s = abi.text ∨ s = abi.shortName := by
  constructor
  · intro found
    have named := List.find?_some found
    simp only [Bool.or_eq_true, decide_eq_true_eq] at named
    exact named.imp Eq.symm Eq.symm
  · rintro (rfl | rfl)
    · exact named?_text abi
    · exact named?_shortName abi

theorem parse_value_iff : parse entry.value = .ok abi ↔ entry.Denotes abi := by
  cases entry with
  | itself own =>
    show parse (.text own.text) = .ok abi ↔ own = abi
    rw [parse_text]
    exact ⟨Except.ok.inj, fun same => same ▸ rfl⟩
  | named name =>
    refine Iff.trans ?_ named?_iff
    show parse (.text name) = .ok abi ↔ _
    unfold parse
    rw [Value.display]
    cases named? (Text.strip name) <;> simp

theorem parse_value_error (failed : parse entry.value = .error fault) :
    ∃ name, entry = .named name ∧ fault = .unmapped (.text name) ∧ ∀ abi, ¬ entry.Denotes abi := by
  have unknown : ∀ abi, ¬ entry.Denotes abi := fun abi denotes => by
    rw [parse_value_iff.mpr denotes] at failed
    cases failed
  cases entry with
  | itself own => exact absurd rfl (unknown own)
  | named name =>
    refine ⟨name, rfl, ?_, unknown⟩
    unfold parse at failed
    split at failed
    · cases failed
    · cases failed
      rfl

theorem distinct_eq (found declared : List Abi) :
    distinct found declared = found ++ (distinct [] declared).filter (· ∉ found) := by
  induction declared generalizing found with
  | nil => simp [distinct]
  | cons a rest ih =>
    have first : distinct [] (a :: rest) = a :: (distinct [] rest).filter (· ∉ [a]) := ih [a]
    show distinct (if found.contains a then found else found ++ [a]) rest = _
    rw [first]
    split
    · rename_i there
      have known : a ∈ found := by simpa using there
      rw [ih found, List.filter_cons_of_neg (by simpa using known), List.filter_filter]
      congr 1
      refine List.filter_congr fun b _ => ?_
      by_cases same : b = a
      · simp [same, known]
      · simp [same]
    · rename_i fresh
      have new : a ∉ found := by simpa using fresh
      rw [ih (found ++ [a]), List.filter_cons_of_pos (by simpa using new), List.filter_filter]
      simp [List.mem_append, not_or, Bool.decide_and]

theorem distinct_cons (a : Abi) (rest : List Abi) :
    distinct [] (a :: rest) = a :: (distinct [] rest).filter (· ∉ [a]) :=
  distinct_eq [a] rest

theorem mem_distinct_iff : abi ∈ distinct [] declared ↔ abi ∈ declared := by
  induction declared with
  | nil => simp [distinct]
  | cons a rest ih =>
    rw [distinct_cons]
    simp only [List.mem_cons, List.mem_filter, ih]
    by_cases same : abi = a <;> simp [same]

theorem distinct_append (declared more : List Abi) :
    distinct [] (declared ++ more) = distinct [] declared ++ (distinct [] more).filter (· ∉ distinct [] declared) := by
  have onward : ∀ found, distinct found (declared ++ more) = distinct (distinct found declared) more := by
    induction declared with
    | nil => exact fun _ => rfl
    | cons a rest ih => exact fun found => ih _
  rw [onward, distinct_eq]

theorem distinct_order (declared : List Abi) : (distinct [] declared).Pairwise fun a b =>
    ∃ before after, declared = before ++ a :: after ∧ b ∉ before := by
  induction declared with
  | nil => simp [distinct]
  | cons a rest ih =>
    rw [distinct_cons]
    refine List.pairwise_cons.mpr ⟨fun b _ => ⟨[], rest, rfl, by simp⟩, ?_⟩
    refine (ih.filter _).imp_of_mem fun {c d} _ later sooner => ?_
    obtain ⟨before, after, rfl, unmet⟩ := sooner
    have other : d ≠ a := by simpa using (List.mem_filter.mp later).2
    exact ⟨a :: before, after, rfl, by simp [other, unmet]⟩

def Answers (entries : List Entry) (declared : List Abi) : Prop :=
  entries.map (parse ∘ Entry.value) = declared.map .ok

theorem Answers.mem (answers : Answers entries declared) : abi ∈ declared ↔ ∃ entry ∈ entries, entry.Denotes abi := by
  have injective : Function.Injective (Except.ok : Abi → Except Fault Abi) := fun _ _ => Except.ok.inj
  rw [← List.mem_map_of_injective injective, ← answers, List.mem_map]
  simp only [Function.comp_apply, parse_value_iff]

theorem Answers.sooner (answers : Answers entries declared)
    (split_ : ∃ before after, declared = before ++ a :: after ∧ b ∉ before) : Sooner entries a b := by
  obtain ⟨before, after, rfl, unmet⟩ := split_
  unfold Answers at answers
  rw [List.map_append, List.map_cons] at answers
  obtain ⟨front, back, rfl, earlier, answers⟩ := List.map_eq_append_iff.mp answers
  obtain ⟨entry, rest, rfl, own, _⟩ := List.map_eq_cons_iff.mp answers
  rw [Function.comp_apply] at own
  refine ⟨front, entry, rest, rfl, parse_value_iff.mp own, fun other member denotes => unmet ?_⟩
  exact (Answers.mem earlier).mpr ⟨other, member, denotes⟩

theorem Answers.denotes (answers : Answers entries declared) (member : entry ∈ entries) : ∃ abi, entry.Denotes abi := by
  have parsed := List.mem_map_of_mem (f := parse ∘ Entry.value) member
  rw [answers, Function.comp_apply] at parsed
  obtain ⟨abi, _, own⟩ := List.mem_map.mp parsed
  exact ⟨abi, parse_value_iff.mp own.symm⟩

theorem resolve_ok_iff : resolve (entries.map Entry.value) = .ok list ↔
    entries ≠ [] ∧ ∃ declared, Answers entries declared ∧ list = distinct [] declared := by
  unfold resolve Answers
  cases entries with
  | nil => simp
  | cons entry rest =>
    rw [if_neg (by simp)]
    constructor
    · intro ran
      cases parsed : ((entry :: rest).map Entry.value).mapM parse with
      | error fault => rw [parsed] at ran; cases ran
      | ok declared =>
        rw [parsed] at ran
        cases ran
        exact ⟨by simp, declared, by rw [← mapM_ok_iff.mp parsed, List.map_map], rfl⟩
    · rintro ⟨_, declared, answers, rfl⟩
      have parsed : ((entry :: rest).map Entry.value).mapM parse = .ok declared :=
        mapM_ok_iff.mpr (by rw [← answers, List.map_map])
      rw [parsed]
      rfl

theorem resolve_normalised (ran : resolve (entries.map Entry.value) = .ok list) : Normalised entries list := by
  obtain ⟨_, declared, answers, rfl⟩ := resolve_ok_iff.mp ran
  exact {
    distinct := distinct_nodup List.nodup_nil
    exact := fun _ => mem_distinct_iff.trans answers.mem
    order := (distinct_order declared).imp answers.sooner }

theorem resolve_reported (ran : resolve (entries.map Entry.value) = .error fault) : Reported entries fault := by
  unfold resolve at ran
  split at ran
  · rename_i nothing
    cases ran
    cases entries with
    | nil => exact .nothing
    | cons entry rest => cases nothing
  · cases parsed : (entries.map Entry.value).mapM parse with
    | ok declared => rw [parsed] at ran; cases ran
    | error own =>
      rw [parsed] at ran
      cases ran
      obtain ⟨before, v, after, whole, went, failed⟩ := mapM_error parsed
      obtain ⟨front, back, rfl, rfl, behind⟩ := List.map_eq_append_iff.mp whole
      obtain ⟨entry, rest, rfl, rfl, rfl⟩ := List.map_eq_cons_iff.mp behind
      obtain ⟨name, rfl, rfl, unknown⟩ := parse_value_error failed
      refine .unmapped (fun other member => ?_) unknown
      obtain ⟨abi, own⟩ := went other.value (List.mem_map_of_mem member)
      exact ⟨abi, parse_value_iff.mp own⟩

theorem Reported.refused (reported : Reported entries fault) :
    entries = [] ∨ ∃ entry ∈ entries, ∀ abi, ¬ entry.Denotes abi := by
  cases reported with
  | nothing => exact .inl rfl
  | unmapped mapped unknown => exact .inr ⟨_, by simp, unknown⟩

theorem resolve_refused_iff : (∃ fault, resolve (entries.map Entry.value) = .error fault) ↔
    entries = [] ∨ ∃ entry ∈ entries, ∀ abi, ¬ entry.Denotes abi := by
  constructor
  · rintro ⟨fault, ran⟩
    exact (resolve_reported ran).refused
  · intro refused
    cases ran : resolve (entries.map Entry.value) with
    | error fault => exact ⟨fault, rfl⟩
    | ok list =>
      obtain ⟨nonempty, declared, answers, _⟩ := resolve_ok_iff.mp ran
      rcases refused with nothing | ⟨entry, member, unknown⟩
      · exact absurd nothing nonempty
      · obtain ⟨abi, denotes⟩ := answers.denotes member
        exact absurd denotes (unknown abi)

theorem resolve_itself (nonempty : list ≠ []) (nodup : list.Nodup) :
    resolve ((list.map Entry.itself).map Entry.value) = .ok list := by
  rw [List.map_map]
  exact resolve_named nonempty nodup

theorem resolve_append (first : resolve (entries.map Entry.value) = .ok list)
    (second : resolve (others.map Entry.value) = .ok more) :
    resolve ((entries ++ others).map Entry.value) = .ok (list ++ more.filter (· ∉ list)) := by
  obtain ⟨nonempty, declared, answers, rfl⟩ := resolve_ok_iff.mp first
  obtain ⟨_, later, further, rfl⟩ := resolve_ok_iff.mp second
  refine resolve_ok_iff.mpr ⟨by simp [nonempty], declared ++ later, ?_, (distinct_append declared later).symm⟩
  unfold Answers at answers further ⊢
  rw [List.map_append, List.map_append, answers, further]

-- A declaration is refused exactly where there is nothing in it or an entry that no architecture is meant by, and the
-- first such name is reported. Whatever it comes to stands for itself, and more entries add what is new in them.
theorem targets_normalised :
    (∀ entries : List Entry, (∃ fault, resolve (entries.map Entry.value) = .error fault) ↔
      entries = [] ∨ ∃ entry ∈ entries, ∀ abi, ¬ entry.Denotes abi) ∧
    (∀ (entries : List Entry) fault, resolve (entries.map Entry.value) = .error fault → Reported entries fault) ∧
    (∀ (entries : List Entry) list, resolve (entries.map Entry.value) = .ok list →
      Normalised entries list ∧ resolve ((list.map Entry.itself).map Entry.value) = .ok list) ∧
    ∀ (entries others : List Entry) list more, resolve (entries.map Entry.value) = .ok list →
      resolve (others.map Entry.value) = .ok more →
      resolve ((entries ++ others).map Entry.value) = .ok (list ++ more.filter (· ∉ list)) :=
  ⟨fun _ => resolve_refused_iff, fun _ _ => resolve_reported,
    fun _ _ ran => ⟨resolve_normalised ran, resolve_itself (resolve_nonempty ran) (resolve_nodup ran)⟩,
    fun _ _ _ _ => resolve_append⟩

-- Entries in all their forms, two of them for one architecture, more to add to them, and some that none is meant by.
def padded : List Entry := [.named " arm ", .itself .x86, .named "armeabi-v7a", .named "x86_64\t"]

def added : List Entry := [.named "arm64", .named "x86"]

def foreign : List Entry := [.named "x86", .named " mips", .named "ARM"]

theorem padded_normalised :
    resolve (padded.map Entry.value) = .ok [.arm, .x86, .x86_64] ∧ Normalised padded [.arm, .x86, .x86_64] ∧
      resolve ((padded ++ added).map Entry.value) = .ok [.arm, .x86, .x86_64, .arm64] ∧
      ∃ fault, resolve (foreign.map Entry.value) = .error fault ∧ Reported foreign fault ∧ fault.name = " mips" := by
  have ran : resolve (padded.map Entry.value) = .ok [.arm, .x86, .x86_64] := ok_of_toOption (by decide +kernel)
  have more : resolve (added.map Entry.value) = .ok [.arm64, .x86] := ok_of_toOption (by decide +kernel)
  refine ⟨ran, (targets_normalised.2.2.1 _ _ ran).1, targets_normalised.2.2.2 _ _ _ _ ran more, ?_⟩
  have named : (match resolve (foreign.map Entry.value) with
      | .error fault => fault.name
      | .ok _ => "") = " mips" := by decide +kernel
  cases refused : resolve (foreign.map Entry.value) with
  | ok list => simp [refused] at named
  | error fault => exact ⟨fault, rfl, targets_normalised.2.1 _ _ refused, by simpa [refused] using named⟩

end AbiBuild.Abi
