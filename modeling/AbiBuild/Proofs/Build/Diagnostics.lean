import AbiBuild.Proofs.Build.Cancellation

namespace AbiBuild.Build
open AbiBuild.Text FileTree

-- A job's process is the one that the compiler started, and its result one of those that a job can come to.
def Answered (j : Job) (compiler : Compiler) : Phase → Prop
  | .running process _ | .stopping process | .exited process => compiler j.command = .started process
  | .unmarking process _ => compiler j.command = .started process ∧ process.status = 0
  | .ended result => j.Ends compiler true result
  | _ => True

variable {b : Builder} {compiler : Compiler} {variant : Value} {j : Job} {jobs : List Job} {phase : Phase}
  {w v : Workshop} {plan : Builder.Plan} {moves : List Move} {last : Pool} {workers : Nat} {process : Process}
  {result : Compilation} {r : FileTree.Trail} {text : String}

theorem afterPreparing_answered (next : Phase) (further : Answered j compiler next) :
    Answered j compiler (j.afterPreparing r next w).1 := by
  unfold Job.afterPreparing
  cases r.fault with
  | none => exact further
  | some fault =>
    simp only
    split
    · exact .unprepared (by assumption)
    · trivial

theorem step_answered (answered : Answered j compiler phase) : Answered j compiler (j.step compiler phase w).1 := by
  cases phase with
  | ready =>
    simp only [Job.step]
    split
    · exact .cancelled rfl
    · trivial
  | discarding => exact afterPreparing_answered .makingHome trivial
  | makingHome => exact afterPreparing_answered .clearing trivial
  | clearing => exact afterPreparing_answered .marking trivial
  | marking => exact afterPreparing_answered .starting trivial
  | starting =>
    simp only [Job.step]
    generalize taken : j.launch compiler w = r
    cases launches taken with
    | unfit => trivial
    | refused _ answer => exact .unstarted answer
    | started _ answer => exact answer
  | running process polls =>
    simp only [Job.step, Job.poll]
    split
    · split <;> exact answered
    · exact answered
  | stopping process =>
    simp only [Job.step]
    generalize taken : j.stop process w = r
    cases stops taken with
    | unread => trivial
    | called => exact .stopped answered rfl
  | exited process =>
    simp only [Job.step]
    generalize taken : j.judge process w = r
    cases judges taken with
    | failed said exit => exact .failed answered said exit
    | collected _ exit => exact ⟨answered, exit⟩
    | _ => trivial
  | unmarking process artifacts =>
    simp only [Job.step, Job.unmark]
    cases w.tree.unlinkIfThere j.marker with
    | error fault => trivial
    | ok after => exact .built answered.1 answered.2
  | ended result => exact answered
  | broken cause => trivial

theorem ended_ends (distinct : (jobs.map Job.abi).Nodup)
    (reached : Pool.Reaches compiler workers (Pool.start jobs w) moves last) (member : (j, .ended result) ∈ last.jobs) :
    j.Ends compiler true result := by
  have compatible : Compatible compiler jobs (fun _ => True) (fun j phase _ => Answered j compiler phase) :=
    ⟨by simp, fun _ _ _ _ _ own => step_answered own, fun _ _ _ _ _ _ _ _ _ _ kept => kept, by simp,
      fun _ _ _ _ _ own => own⟩
  have start : Sound jobs (fun _ => True) (fun j phase _ => Answered j compiler phase) (Pool.start jobs w) :=
    start_sound trivial fun _ _ => trivial
  exact (reaches_sound compatible distinct start reached).own _ member

theorem exited_fails (distinct : (jobs.map Job.abi).Nodup)
    (reached : Pool.Reaches compiler workers (Pool.start jobs w) moves last) (said : process.own.said = .ok text)
    (exit : process.status ≠ 0)
    (leaves : (Pool.start jobs w).Leaves compiler moves j (.exited process) v) :
    (j, .ended (j.failed (Job.diagnostic text process.status) (some process.status) process.seconds)) ∈
      last.jobs := by
  have first : (j.step compiler (.exited process) v).1 =
      .ended (j.failed (Job.diagnostic text process.status) (some process.status) process.seconds) := by
    simp only [Job.step, Job.judge, said]
    rw [if_pos exit]
  generalize j.failed (Job.diagnostic text process.status) (some process.status) process.seconds = result at first ⊢
  have closed : ∀ phase w, phase = .ended result → (j.step compiler phase w).1 = .ended result := by
    rintro phase w rfl
    rfl
  have among := leaves_planned distinct reached leaves
  rw [← reaches_jobs distinct reached] at among
  obtain ⟨⟨k, next⟩, member, rfl⟩ := List.mem_map.mp among
  have same := leaves_stays closed distinct reached leaves first member
  exact same ▸ member

theorem gathered_result {i : Invocation} (distinct : (jobs.map Job.abi).Nodup)
    (reached : Pool.Reaches compiler workers (Pool.start jobs w) moves last) (member : (j, .ended result) ∈ last.jobs)
    (gathered : Pool.gather plan.invocation (last.jobs.map Prod.snd) = .ok i) : i.result? j.abi = some result := by
  have abis : (last.jobs.map fun s => s.1.abi) = jobs.map Job.abi := by
    rw [← reaches_jobs distinct reached, List.map_map]
    rfl
  obtain ⟨_, rfl⟩ := gather_ok gathered
  refine record_ended (abis ▸ distinct) (fun s inside other same => ?_) member
  obtain ⟨k, phase⟩ := s
  cases same
  exact (ended_ends distinct reached inside).abi

theorem diagnostic_lines (inked : inkedLines text ≠ []) (status : Int) :
    lines (Job.diagnostic text status) = lastPart 20 (inkedLines text) := by
  have some_ : tailLines text 20 ≠ "" := fun none_ => inked ((tailLines_eq_empty (by decide)).mp none_)
  rw [← lines_tailLines]
  simp [Job.diagnostic, some_]

theorem diagnostic_silent (silent : inkedLines text = []) (status : Int) :
    Job.diagnostic text status = s!"cargo exited with status {status}" := by
  have none_ : tailLines text 20 = "" := (tailLines_eq_empty (by decide)).mpr silent
  simp [Job.diagnostic, none_]

-- Texts first, then runs, in whatever order the steps fall.
theorem diagnostics_keep_tail :
    (∀ (s : String) (m n : Int), 1 ≤ m → 1 ≤ n →
      lines (tailLines s n) <:+ inkedLines s ∧
      ((lines (tailLines s n)).length : Int) = min n (inkedLines s).length ∧
      tailLines (tailLines s m) n = tailLines s (min m n) ∧
      (tailLines s n = "" ↔ ∀ line ∈ lines s, isBlankText line = true)) ∧
    ∀ (b : Builder) compiler variant w plan moves last, b.Runs compiler variant w plan moves last →
      (∀ j result, (j, .ended result) ∈ last.jobs → result.ok = false →
        ∃ line ∈ lines result.diagnostic, isBlankText line = false) ∧
      ∀ j process v, (Pool.start plan.jobs (w.noting plan.notices)).Leaves compiler moves j (.exited process) v →
        process.status ≠ 0 → ∀ text, process.own.said = .ok text → ∃ diagnostic,
          (j, .ended (j.failed diagnostic (some process.status) process.seconds)) ∈ last.jobs ∧
          (∀ i, Pool.gather plan.invocation (last.jobs.map Prod.snd) = .ok i →
            i.result? j.abi = some (j.failed diagnostic (some process.status) process.seconds)) ∧
          (∃ line ∈ lines diagnostic, isBlankText line = false) ∧
          (inkedLines text ≠ [] → lines diagnostic <:+ inkedLines text ∧
            (lines diagnostic).length = min 20 (inkedLines text).length) ∧
          (inkedLines text = [] → diagnostic = s!"cargo exited with status {process.status}") := by
  refine ⟨fun s m n first second => ⟨?_, ?_, tailLines_tailLines first second s, ?_⟩,
    fun b compiler variant w plan moves last runs => ?_⟩
  · rw [lines_tailLines]
    exact lastPart_suffix n _
  · rw [lines_tailLines]
    exact length_lastPart second _
  · rw [tailLines_eq_empty second, inkedLines, List.filter_eq_nil_iff]
    simp
  · have distinct := plan_distinct runs.planned
    refine ⟨fun j result member lost => ?_, fun j process v leaves exit text said => ?_⟩
    · exact exists_inked_line ((ended_ends distinct runs.reached member).reason lost)
    · have member := exited_fails distinct runs.reached said exit leaves
      refine ⟨Job.diagnostic text process.status, member, fun i => gathered_result distinct runs.reached member,
        exists_inked_line (diagnostic_inked text process.status), fun inked => ?_,
        fun silent => diagnostic_silent silent process.status⟩
      rw [diagnostic_lines inked]
      have length := length_lastPart (n := 20) (by decide) (inkedLines text)
      exact ⟨lastPart_suffix 20 _, by omega⟩

-- The one process ends with lines of other separators than line feeds and a blank one, the other with none but blank.
def failingCompiler : Compiler := .ofBehaviours fun triple =>
  { sampleBehaviour [1] 101 with
    stderr := if triple = Abi.x86.triple then " \n\t\n" else "error: a\u2028\x0B \r\nerror: b\x85" }

def inTurn : List Move := List.replicate 8 (.advance 0) ++ List.replicate 8 (.advance 1)

def Phase.said : Phase → Option (Int × String)
  | .exited process => process.own.said.toOption.map fun text => (process.status, text)
  | _ => none

theorem leaves_said {p : Pool} {front : List Move} {index : Nat} {exit : Int} {text : String} (rest : List Move)
    (found : (p.after compiler front).jobs[index]?.bind (fun s => s.2.said) = some (exit, text)) :
    ∃ j process v, p.Leaves compiler (front ++ .advance index :: rest) j (.exited process) v ∧
      process.status = exit ∧ process.own.said = .ok text := by
  obtain ⟨⟨j, phase⟩, there, spoken⟩ := Option.bind_eq_some_iff.mp found
  cases phase with
  | exited process =>
    obtain ⟨_, said, same⟩ := Option.map_eq_some_iff.mp spoken
    cases same
    exact ⟨j, _, _, ⟨front, index, rest, rfl, there, rfl⟩, rfl, ok_of_toOption said⟩
  | _ => cases spoken

theorem failed_processes_speak :
    tailLines (tailLines "a\u2028 \rb\x85c" 3) 2 = "b\nc" ∧ ∃ plan last,
      sampleBuilder.Runs failingCompiler (.text "debug") (.opening Sample.tree false) plan inTurn last ∧
        (∃ j diagnostic seconds, (j, .ended (j.failed diagnostic (some 101) seconds)) ∈ last.jobs ∧
          lines diagnostic = ["error: a", "error: b"]) ∧
        ∃ j seconds, (j, .ended (j.failed "cargo exited with status 101" (some 101) seconds)) ∈ last.jobs := by
  obtain ⟨texts, builds⟩ := diagnostics_keep_tail
  have followed : (sampleBuilder.follow failingCompiler (.text "debug") (.opening Sample.tree false) inTurn).map
      (fun r => ([(7, 0), (15, 1)] : List (Nat × Nat)).map fun at_ =>
        ((Pool.start r.1.jobs ((Workshop.opening Sample.tree false).noting r.1.notices)).after failingCompiler
          (inTurn.take at_.1)).jobs[at_.2]?.bind fun s => s.2.said) =
      some [some (101, "error: a\u2028\x0B \nerror: b\x85"), some (101, " \n\t\n")] := by
    decide +kernel
  obtain ⟨⟨plan, last⟩, walked, facts⟩ := Option.map_eq_some_iff.mp followed
  simp only [List.map_cons, List.map_nil, List.cons.injEq, and_true] at facts
  have runs := follow_runs walked
  have each := (builds _ _ _ _ _ _ _ runs).2
  refine ⟨?_, plan, last, runs, ?_, ?_⟩
  · rw [(texts _ 3 2 (by decide) (by decide)).2.2.1]
    decide +kernel
  · obtain ⟨j, process, v, leaves, exit, said⟩ := leaves_said (List.replicate 8 (.advance 1)) facts.1
    obtain ⟨diagnostic, member, _, _, tail, _⟩ := each j process v leaves (by simp [exit]) _ said
    have kept : inkedLines "error: a\u2028\x0B \nerror: b\x85" = ["error: a", "error: b"] := by decide +kernel
    obtain ⟨suffix, length⟩ := tail (by simp [kept])
    refine ⟨j, diagnostic, process.seconds, exit ▸ member, ?_⟩
    rw [kept] at suffix length
    exact suffix.eq_of_length length
  · obtain ⟨j, process, v, leaves, exit, said⟩ := leaves_said [] facts.2
    obtain ⟨diagnostic, member, _, _, _, silent⟩ := each j process v leaves (by simp [exit]) _ said
    have same := silent (by decide +kernel)
    rw [exit] at member same
    rw [same] at member
    exact ⟨j, process.seconds, member⟩

end AbiBuild.Build
