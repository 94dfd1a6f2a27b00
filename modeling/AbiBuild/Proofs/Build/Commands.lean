import AbiBuild.Proofs.Build.Layout
import AbiBuild.Proofs.Config.Accepted

namespace AbiBuild
open AbiBuild.Text Build

def Command.leaves (c : Command) : FilePath := Command.outputDir c.tail

variable {c : Config} {cargo : String} {abi : Abi} {p : Profile} {path : FilePath} {word : String}

theorem text_ne_option (absolute : path.root ≠ .relative) (option : word.toList.head? = some '-') :
    path.text ≠ word := by
  intro same
  rw [← same, FilePath.text_absolute absolute] at option
  cases option

theorem abiDir_text (normal : c.targetDir.Normal) (absolute : c.targetDir.root ≠ .relative) (abi : Abi) :
    FilePath.ofText (c.abiDir abi).text = c.abiDir abi := by
  have place : c.abiDir abi = c.targetDir.under [abi.text] := FilePath.child_plain (abi_plain abi)
  rw [place]
  refine FilePath.ofText_text (normal.under ?_) absolute
  simpa using (abi_plain abi).proper

theorem valueOf_skip {option : String} {rest : List String} (other : word ≠ option) :
    Command.valueOf option (word :: rest) = Command.valueOf option rest := by
  rw [Command.valueOf, if_neg other]

theorem valueOf_found {option value : String} {rest : List String} :
    Command.valueOf option (option :: value :: rest) = some value := by
  rw [Command.valueOf, if_pos rfl]
  rfl

theorem build_leaves (normal : c.targetDir.Normal) (target : c.targetDir.root ≠ .relative)
    (module : c.modulePath.root ≠ .relative) : (Command.build c cargo abi p).leaves =
      c.outputDir abi (if "--release" ∈ c.arguments then .release else p) := by
  have manifest : c.manifest.root ≠ .relative := by
    unfold Config.manifest
    rw [FilePath.child_plain (by decide)]
    exact module
  have place : (c.abiDir abi).root ≠ .relative := by
    unfold Config.abiDir
    rw [FilePath.child_plain (abi_plain abi)]
    exact target
  have free : ∀ option, option.toList.head? = some '-' → c.manifest.text ≠ option ∧ abi.triple ≠ option ∧
      (c.abiDir abi).text ≠ option := by
    intro option dash
    refine ⟨text_ne_option manifest dash, ?_, text_ne_option place dash⟩
    rintro rfl
    revert dash
    cases abi <;> decide
  have words : ∃ rest, (Command.build c cargo abi p).tail = ["build", "--lib", "--manifest-path", c.manifest.text,
      "--target", abi.triple, "--target-dir", (c.abiDir abi).text] ++ rest ∧
      rest = p.arguments ++ (if c.verbose then ["--verbose"] else []) ++ c.arguments :=
    ⟨_, by simp [Command.build], rfl⟩
  obtain ⟨rest, words, own⟩ := words
  have triple : Command.triple (Command.build c cargo abi p).tail = abi.triple := by
    rw [words]
    unfold Command.triple
    simp only [List.cons_append, List.nil_append]
    rw [valueOf_skip (by decide), valueOf_skip (by decide), valueOf_skip (by decide),
      valueOf_skip (free "--target" rfl).1, valueOf_found]
    rfl
  have directory : Command.targetDir (Command.build c cargo abi p).tail = c.abiDir abi := by
    rw [words]
    unfold Command.targetDir
    simp only [List.cons_append, List.nil_append]
    rw [valueOf_skip (by decide), valueOf_skip (by decide), valueOf_skip (by decide),
      valueOf_skip (free "--target-dir" rfl).1, valueOf_skip (by decide), valueOf_skip (free "--target-dir" rfl).2.1,
      valueOf_found]
    exact abiDir_text normal target abi
  have profile : Command.profile (Command.build c cargo abi p).tail =
      if "--release" ∈ c.arguments then .release else p := by
    obtain ⟨notManifest, notTriple, notPlace⟩ := free "--release" rfl
    have asked : "--release" ∈ (Command.build c cargo abi p).tail ↔ p = .release ∨ "--release" ∈ c.arguments := by
      rw [words, own]
      cases p <;> cases c.verbose <;>
        simp [Profile.arguments, Ne.symm notManifest, Ne.symm notTriple, Ne.symm notPlace]
    unfold Command.profile
    simp only [asked]
    cases p <;> by_cases named : "--release" ∈ c.arguments <;> simp [named]
  unfold Command.leaves Command.outputDir
  rw [triple, directory, profile]
  rfl

end AbiBuild
