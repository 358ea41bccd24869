import Mathlib.Logic.Function.Basic

/-!
# `Lib.Mutex` — a mutex and the threads that hold it

`Guards holds mutex` says that the owner recorded in the mutex is the one thread that is in a critical section, where
`holds` says of each thread whether it is in one. There are three kinds of steps: a thread takes the mutex, gives it
back, or moves on without changing sides.
-/

namespace SkiVmm.Lib

open Function (update)

variable {α : Type} {holds : α → Bool} {mutex : Option α} {a b : α}

def Guards (holds : α → Bool) (mutex : Option α) : Prop := ∀ a, holds a = true ↔ mutex = some a

/-- **Mutual exclusion.** -/
theorem Guards.exclusive (h : Guards holds mutex) (ha : holds a = true) (hb : holds b = true) : b = a :=
  Option.some.inj (((h b).mp hb).symm.trans ((h a).mp ha))

/-- A mutex that nobody holds is free. -/
theorem Guards.eq_none (h : Guards holds mutex) (hfree : ∀ a, holds a = false) : mutex = none := by
  cases mutex with
  | none => rfl
  | some a => exact absurd ((h a).mpr rfl) (Bool.eq_false_iff.mp (hfree a))

variable [DecidableEq α]

theorem Guards.acquire (h : Guards holds none) (a : α) : Guards (update holds a true) (some a) := by
  intro b
  by_cases hb : b = a
  · subst hb
    rw [Function.update_self]
    exact iff_of_true rfl rfl
  · rw [Function.update_of_ne hb]
    refine iff_of_false (fun hholds => ?_) fun heq => hb (Option.some.inj heq).symm
    exact absurd ((h b).mp hholds) nofun

theorem Guards.release (h : Guards holds mutex) (ha : holds a = true) : Guards (update holds a false) none := by
  intro b
  refine iff_of_false (fun hholds => ?_) nofun
  by_cases hb : b = a
  · subst hb
    rw [Function.update_self] at hholds
    cases hholds
  · rw [Function.update_of_ne hb] at hholds
    exact hb (h.exclusive ha hholds)

theorem Guards.move (h : Guards holds mutex) {x : Bool} (ha : holds a = x) : Guards (update holds a x) mutex := by
  rwa [← ha, Function.update_eq_self]

end SkiVmm.Lib
