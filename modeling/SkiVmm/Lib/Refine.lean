import Mathlib.Data.Option.Basic

/-!
# `Lib.Refine` — steps that may fail, and what a refinement of them keeps

`Refines P view f g`: the step `f` on concrete states does what `g` does on the states that `view` shows,
failures included, as long as the concrete states meet `P`, and it keeps `P`. A refinement of one step is a
refinement of every loop over it (`Refines.foldlM`).
-/

namespace SkiVmm.Lib

variable {α α' β : Type}

/-- What every step keeps holds at the end of a loop that does not fail. -/
theorem foldlM_keeps {P : α → Prop} {f : α → β → Option α} (hf : ∀ {a b a'}, P a → f a b = some a' → P a')
    {l : List β} {a a' : α} (ha : P a) (h : l.foldlM f a = some a') : P a' := by
  induction l generalizing a with
  | nil =>
    obtain rfl := Option.some.inj h
    exact ha
  | cons b l ih =>
    rw [List.foldlM_cons] at h
    obtain ⟨a₁, hstep, hrest⟩ := Option.bind_eq_some_iff.mp h
    exact ih (hf ha hstep) hrest

/-- `f` does on the states with `P` what `g` does on their views. -/
structure Refines (P : α → Prop) (view : α → α') (f : α → β → Option α) (g : α' → β → Option α') : Prop where
  keeps : ∀ {a b a'}, P a → f a b = some a' → P a'
  view_eq : ∀ {a} (b), P a → (f a b).map view = g (view a) b

namespace Refines

variable {P : α → Prop} {view : α → α'} {f : α → β → Option α} {g : α' → β → Option α'}

/-- Both parts at once, for one concrete state and one input. -/
theorem of_step (h : ∀ {a} b, P a → (∀ a', f a b = some a' → P a') ∧ (f a b).map view = g (view a) b) :
    Refines P view f g :=
  ⟨fun {_ b a'} ha hf => (h b ha).1 a' hf, fun b ha => (h b ha).2⟩

/-- **The rule for loops.** -/
theorem foldlM (h : Refines P view f g) :
    Refines P view (fun a (l : List β) => l.foldlM f a) (fun a' l => l.foldlM g a') := by
  refine ⟨foldlM_keeps h.keeps, fun {a} l ha => ?_⟩
  induction l generalizing a with
  | nil => rfl
  | cons b l ih =>
    rw [List.foldlM_cons, List.foldlM_cons, ← h.view_eq b ha]
    cases hstep : f a b with
    | none => rfl
    | some a₁ => exact ih (h.keeps ha hstep)

end Refines

end SkiVmm.Lib
