
namespace AbiBuild

variable {α β ε : Type} {x : Except ε α} {f : α → Except ε β} {r : β} {list : List α} {results : List β} {cause : ε}

theorem bind_ok (ran : (x >>= f) = .ok r) : ∃ a, x = .ok a ∧ f a = .ok r := by
  cases x with
  | error cause => cases ran
  | ok a => exact ⟨a, rfl, ran⟩

theorem mapError_ok {ε' : Type} {g : ε → ε'} {a : α} (ran : x.mapError g = .ok a) : x = .ok a := by
  cases x with
  | error cause => cases ran
  | ok b =>
    cases ran
    rfl

theorem ok_of_toOption {a : α} (ran : x.toOption = some a) : x = .ok a := by
  cases x with
  | error cause => cases ran
  | ok b =>
    cases ran
    rfl

def Fails (ends : ε → Prop) (x : Except ε α) : Prop := ∀ cause, x = .error cause → ends cause

namespace Fails

variable {ends other : ε → Prop}

theorem ok (a : α) : Fails ends (.ok a) := fun _ failed => by cases failed

theorem error {cause : ε} (end_ : ends cause) : Fails ends (.error cause : Except ε α) := by
  intro other same
  cases same
  exact end_

theorem bind (first : Fails ends x) (onward : ∀ a, x = .ok a → Fails ends (f a)) : Fails ends (x >>= f) := by
  cases x with
  | error cause => exact error (first cause rfl)
  | ok a => exact onward a rfl

theorem behind {a : α} (went : x = .ok a) (onward : Fails ends (f a)) : Fails ends (x >>= f) := by
  rw [went]
  exact onward

theorem mapError {ε' : Type} {g : ε → ε'} {ends : ε' → Prop} (each : Fails (fun cause => ends (g cause)) x) :
    Fails ends (x.mapError g) := by
  cases x with
  | error cause => exact error (each cause rfl)
  | ok a => exact ok a

theorem map {g : α → β} (first : Fails ends x) : Fails ends (x.map g) := by
  cases x with
  | error cause => exact error (first cause rfl)
  | ok a => exact ok _

theorem mapM {list : List α} (each : ∀ a ∈ list, Fails ends (f a)) : Fails ends (list.mapM f) := by
  induction list with
  | nil => exact ok _
  | cons a rest ih =>
    rw [List.mapM_cons]
    refine (each a (by simp)).bind fun b _ => ?_
    exact (ih fun c member => each c (List.mem_cons_of_mem _ member)).bind fun _ _ => ok _

theorem foldlM {step : β → α → Except ε β} {list : List α} (each : ∀ a ∈ list, ∀ b, Fails ends (step b a)) (b : β) :
    Fails ends (list.foldlM step b) := by
  induction list generalizing b with
  | nil => exact ok b
  | cons a rest ih =>
    rw [List.foldlM_cons]
    exact (each a (by simp) b).bind fun next _ => ih (fun c member => each c (List.mem_cons_of_mem _ member)) next

theorem mono (first : Fails ends x) (weaker : ∀ cause, ends cause → other cause) : Fails other x :=
  fun cause failed => weaker cause (first cause failed)

end Fails

theorem mapM_ok_iff : list.mapM f = .ok results ↔ list.map f = results.map .ok := by
  induction list generalizing results with
  | nil => cases results <;> simp [pure, Except.pure]
  | cons a rest ih =>
    rw [List.mapM_cons, List.map_cons]
    constructor
    · intro ran
      obtain ⟨b, first, ran⟩ := bind_ok ran
      obtain ⟨others, later, same⟩ := bind_ok ran
      cases same
      rw [List.map_cons, first, ih.mp later]
    · intro same
      cases results with
      | nil => cases same
      | cons b others =>
        obtain ⟨first, later⟩ := List.cons.inj same
        rw [first, ih.mpr later]
        rfl

theorem mapM_error (ran : list.mapM f = .error cause) :
    ∃ before a after, list = before ++ a :: after ∧ (∀ b ∈ before, ∃ result, f b = .ok result) ∧
      f a = .error cause := by
  induction list with
  | nil => cases ran
  | cons a rest ih =>
    rw [List.mapM_cons] at ran
    cases first : f a with
    | error own =>
      rw [first] at ran
      cases ran
      exact ⟨[], a, rest, rfl, by simp, first⟩
    | ok result =>
      cases later : rest.mapM f with
      | ok others =>
        rw [first, later] at ran
        cases ran
      | error own =>
        rw [first, later] at ran
        cases ran
        obtain ⟨before, b, after, rfl, went, failed⟩ := ih later
        refine ⟨a :: before, b, after, rfl, fun c member => ?_, failed⟩
        rcases List.mem_cons.mp member with rfl | earlier
        · exact ⟨result, first⟩
        · exact went c earlier

end AbiBuild
