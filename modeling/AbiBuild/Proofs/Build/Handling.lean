import AbiBuild.Build.Job

namespace AbiBuild.Build

inductive Job.Launches (j : Job) (compiler : Compiler) (w : Workshop) : Phase × Workshop → Prop
  | unfit (unfit : j.call.fault? = some fault) : Launches j compiler w (.broken (.mishap (.value fault)), w)
  | refused (fit : j.call.fault? = none) (answer : compiler j.command = .refused reason) :
      Launches j compiler w (.ended (j.failed s!"cannot run {j.cargo}: {reason}" none (.zero false)),
        { w with calls := w.calls ++ [j.call] })
  | started (fit : j.call.fault? = none) (answer : compiler j.command = .started process) :
      Launches j compiler w (.running process 0,
        { w with calls := w.calls ++ [j.call], alive := w.alive ++ [j.abi] })

inductive Job.Stops (j : Job) (p : Process) (w : Workshop) : Phase × Workshop → Prop
  | unread (garbled : p.stopped.said = .error cause) :
      Stops j p w (.broken (.mishap (.file (.notText cause))),
        { w.reap j.abi with tree := w.tree.depositAll p.left })
  | called (said : p.stopped.said = .ok text) :
      Stops j p w (.ended (j.failed "cancelled" (some p.stopped.status) p.stopped.seconds),
        { w.reap j.abi with tree := w.tree.depositAll p.left })

inductive Job.Judges (j : Job) (p : Process) (w : Workshop) : Phase × Workshop → Prop
  | unread (garbled : p.own.said = .error cause) :
      Judges j p w (.broken (.mishap (.file (.notText cause))), w)
  | failed (said : p.own.said = .ok text) (exit : p.status ≠ 0) :
      Judges j p w (.ended (j.failed (Job.diagnostic text p.status) (some p.status) p.seconds),
        w.note (.error .compilation s!"{j.abi.text}: cargo failed with status {p.status}"))
  | uncollected (said : p.own.said = .ok text) (exit : p.status = 0)
      (refused : j.collect w.tree = .error fault) : Judges j p w (.broken (.mishap (.file fault)), w)
  | collected (said : p.own.said = .ok text) (exit : p.status = 0)
      (found : j.collect w.tree = .ok artifacts) : Judges j p w (.unmarking p artifacts, w)

variable {j : Job} {compiler : Compiler} {process : Process} {w : Workshop} {r : Phase × Workshop}

theorem launches (taken : j.launch compiler w = r) : j.Launches compiler w r := by
  unfold Job.launch at taken
  subst taken
  cases fit : j.call.fault? with
  | some fault => exact .unfit fit
  | none =>
    cases answer : compiler j.command with
    | refused reason => exact .refused fit answer
    | started process => exact .started fit answer

theorem stops (taken : j.stop process w = r) : j.Stops process w r := by
  unfold Job.stop at taken
  subst taken
  cases said : process.stopped.said with
  | error cause => exact .unread said
  | ok text => exact .called said

theorem judges (taken : j.judge process w = r) : j.Judges process w r := by
  unfold Job.judge at taken
  subst taken
  cases said : process.own.said with
  | error cause => exact .unread said
  | ok text =>
    by_cases exit : process.status = 0
    · cases found : j.collect w.tree with
      | error fault => simpa [exit, found] using Job.Judges.uncollected said exit found
      | ok artifacts => simpa [exit, found] using Job.Judges.collected said exit found
    · simpa [exit] using Job.Judges.failed said exit

end AbiBuild.Build
