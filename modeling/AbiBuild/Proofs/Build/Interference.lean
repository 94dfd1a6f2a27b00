import AbiBuild.Build.Pool
import Mathlib.Data.List.Nodup

namespace AbiBuild.Build

-- `Common` holds of the workshop between any two steps, `Own` of each job in its phase.
structure Compatible (compiler : Compiler) (jobs : List Job) (Common : Workshop → Prop)
    (Own : Job → Phase → Workshop → Prop) : Prop where
  common : ∀ j ∈ jobs, ∀ phase w, Common w → Own j phase w → Common (j.step compiler phase w).2
  own : ∀ j ∈ jobs, ∀ phase w, Common w → Own j phase w →
    Own j (j.step compiler phase w).1 (j.step compiler phase w).2
  others : ∀ j ∈ jobs, ∀ phase w, Common w → Own j phase w → ∀ k ∈ jobs, k.abi ≠ j.abi →
    ∀ other, Own k other w → Own k other (j.step compiler phase w).2
  cancel : ∀ w, Common w → Common { w with cancelled := true }
  ownCancel : ∀ j ∈ jobs, ∀ phase w, Common w → Own j phase w → Own j phase { w with cancelled := true }

structure Sound (jobs : List Job) (Common : Workshop → Prop) (Own : Job → Phase → Workshop → Prop)
    (p : Pool) : Prop where
  jobs : p.jobs.map Prod.fst = jobs
  common : Common p.workshop
  own : ∀ s ∈ p.jobs, Own s.1 s.2 p.workshop

variable {compiler : Compiler} {jobs : List Job} {Common : Workshop → Prop}
  {Own : Job → Phase → Workshop → Prop} {p last : Pool} {moves : List Move} {workers : Nat}

theorem Pool.apply_advance {index : Nat} {j : Job} {phase : Phase} (found : p.jobs[index]? = some (j, phase)) :
    p.apply compiler (.advance index) =
      ⟨p.jobs.set index (j, (j.step compiler phase p.workshop).1), (j.step compiler phase p.workshop).2⟩ := by
  simp only [Pool.apply, found]

theorem Pool.apply_idle {index : Nat} (none_ : p.jobs[index]? = none) :
    p.apply compiler (.advance index) = p := by
  simp only [Pool.apply, none_]

theorem Sound.mem (sound : Sound jobs Common Own p) {s : Job × Phase} (member : s ∈ p.jobs) :
    s.1 ∈ jobs := sound.jobs ▸ List.mem_map_of_mem member

theorem Sound.apart (sound : Sound jobs Common Own p) (distinct : (jobs.map Job.abi).Nodup)
    {i k : Nat} {s r : Job × Phase} (first : p.jobs[i]? = some s) (second : p.jobs[k]? = some r)
    (other : i ≠ k) : s.1.abi ≠ r.1.abi := by
  rw [← sound.jobs, List.map_map] at distinct
  intro same
  have left : (p.jobs.map (Job.abi ∘ Prod.fst))[i]? = some s.1.abi := by simp [first]
  have right : (p.jobs.map (Job.abi ∘ Prod.fst))[k]? = some s.1.abi := by simp [second, same]
  have bound : i < (p.jobs.map (Job.abi ∘ Prod.fst)).length := (List.getElem?_eq_some_iff.mp left).1
  exact other ((List.getElem?_inj bound distinct).mp (left.trans right.symm))

theorem apply_sound (compatible : Compatible compiler jobs Common Own)
    (distinct : (jobs.map Job.abi).Nodup) (sound : Sound jobs Common Own p) (move : Move) :
    Sound jobs Common Own (p.apply compiler move) := by
  cases move with
  | cancel =>
    refine ⟨sound.jobs, compatible.cancel _ sound.common, fun s member => ?_⟩
    exact compatible.ownCancel _ (sound.mem member) _ _ sound.common (sound.own s member)
  | advance index =>
    cases found : p.jobs[index]? with
    | none =>
      rw [Pool.apply_idle found]
      exact sound
    | some s =>
      obtain ⟨j, phase⟩ := s
      rw [Pool.apply_advance found]
      have present := List.mem_of_getElem? found
      have known := sound.mem present
      have own := sound.own _ present
      refine ⟨?_, compatible.common j known phase _ sound.common own, fun r member => ?_⟩
      · obtain ⟨bound, here⟩ := List.getElem?_eq_some_iff.mp found
        have bound' : index < (p.jobs.map Prod.fst).length := by simpa using bound
        have same : (p.jobs.map Prod.fst)[index] = j := by simp [here]
        have kept := List.set_getElem_self bound'
        rw [same] at kept
        rw [List.map_set]
        exact kept.trans sound.jobs
      · obtain ⟨k, at_⟩ := List.mem_iff_getElem?.mp member
        rw [List.getElem?_set] at at_
        split at at_
        · split at at_
          · cases at_
            exact compatible.own j known phase _ sound.common own
          · cases at_
        · rename_i apart
          have there := List.mem_of_getElem? at_
          exact compatible.others j known phase _ sound.common own r.1 (sound.mem there)
            (sound.apart distinct at_ found (Ne.symm apart)) r.2 (sound.own r there)

theorem reaches_sound (compatible : Compatible compiler jobs Common Own)
    (distinct : (jobs.map Job.abi).Nodup) (sound : Sound jobs Common Own p)
    (reached : Pool.Reaches compiler workers p moves last) : Sound jobs Common Own last := by
  -- Induction on the moves.
  induction reached with
  | nil => exact sound
  | cons _ _ ih => exact ih (apply_sound compatible distinct sound _)

theorem reaches_jobs (distinct : (jobs.map Job.abi).Nodup) {w : Workshop}
    (reached : Pool.Reaches compiler workers (Pool.start jobs w) moves last) :
    last.jobs.map Prod.fst = jobs := by
  have anything : Compatible compiler jobs (fun _ => True) (fun _ _ _ => True) :=
    ⟨by simp, by simp, by simp, by simp, by simp⟩
  have start : Sound jobs (fun _ => True) (fun _ _ _ => True) (Pool.start jobs w) :=
    ⟨by simp [Pool.start, Function.comp_def], trivial, by simp⟩
  exact (reaches_sound anything distinct start reached).jobs

theorem Compatible.also {Also : Job → Phase → Workshop → Prop} (base : Compatible compiler jobs Common Own)
    (own : ∀ j ∈ jobs, ∀ phase w, Common w → Own j phase w → Also j phase w →
      Also j (j.step compiler phase w).1 (j.step compiler phase w).2)
    (others : ∀ j ∈ jobs, ∀ phase w, Common w → Own j phase w → ∀ k ∈ jobs, k.abi ≠ j.abi →
      ∀ other, Own k other w → Also k other w → Also k other (j.step compiler phase w).2)
    (cancel : ∀ j ∈ jobs, ∀ phase w, Also j phase w → Also j phase { w with cancelled := true }) :
    Compatible compiler jobs Common (fun j phase w => Own j phase w ∧ Also j phase w) where
  common j member phase w common both := base.common j member phase w common both.1
  own j member phase w common both :=
    ⟨base.own j member phase w common both.1, own j member phase w common both.1 both.2⟩
  others j member phase w common both k inside apart other theirs :=
    ⟨base.others j member phase w common both.1 k inside apart other theirs.1,
      others j member phase w common both.1 k inside apart other theirs.1 theirs.2⟩
  cancel := base.cancel
  ownCancel j member phase w common both :=
    ⟨base.ownCancel j member phase w common both.1, cancel j member phase w both.2⟩

theorem start_sound {w : Workshop} (common : Common w) (own : ∀ j ∈ jobs, Own j .ready w) :
    Sound jobs Common Own (Pool.start jobs w) := by
  refine ⟨by simp [Pool.start, Function.comp_def], common, fun s member => ?_⟩
  obtain ⟨j, inside, rfl⟩ := List.mem_map.mp member
  exact own j inside

end AbiBuild.Build
