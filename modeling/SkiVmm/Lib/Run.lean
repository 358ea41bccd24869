import Mathlib.Logic.Basic

/-!
# `Lib.Run` — computations that may stop, and runs of them

* Evaluation of `Except` computations, and their inversion: what is known of the parts when the whole has
  succeeded.
* `Run step guard s is t`: the inputs `is` lead from `s` to `t`, each one accepted by the step function and by a
  guard on the state before it. `Run.invariant` is the rule for what holds along a run, `Run.map` the one for a run that
  another one follows step by step, `exists_of_measure` the one for what can be reached.
-/

namespace SkiVmm.Lib

variable {ε α β : Type}

@[simp] theorem ok_bind (a : α) (f : α → Except ε β) : (Except.ok a >>= f) = f a := rfl

@[simp] theorem error_bind (e : ε) (f : α → Except ε β) : (Except.error e >>= f) = .error e := rfl

/-- A sequence that succeeds has succeeded in both parts. -/
theorem exists_of_bind_eq_ok {x : Except ε α} {f : α → Except ε β} {b : β} (h : x >>= f = .ok b) :
    ∃ a, x = .ok a ∧ f a = .ok b := by
  cases x with
  | error e => cases h
  | ok a => exact ⟨a, rfl, h⟩

theorem bind_ne_error {x : Except ε α} {f : α → Except ε β} {e : ε} (hx : x ≠ .error e) (hf : ∀ a, f a ≠ .error e) :
    x >>= f ≠ .error e := by
  cases x with
  | error e' =>
    intro h
    cases h
    exact hx rfl
  | ok a => exact hf a

theorem ok_ne_error (a : α) (e : ε) : (Except.ok a : Except ε α) ≠ .error e := by
  intro h
  cases h

theorem ite_ne_error {c : Prop} [Decidable c] {x y : Except ε α} {e : ε} (hx : x ≠ .error e) (hy : y ≠ .error e) :
    (if c then x else y) ≠ .error e := by
  split
  · exact hx
  · exact hy

/-- A computation that was evaluated, with a check of its result. -/
theorem exists_of_toOption_any {x : Except ε α} {p : α → Bool} (h : x.toOption.any p = true) :
    ∃ a, x = .ok a ∧ p a = true := by
  cases x with
  | error e => cases h
  | ok a => exact ⟨a, rfl, h⟩

/-- What every step keeps holds at the end of a loop. -/
theorem foldlM_invariant {P : α → Prop} {f : α → β → Except ε α} (hf : ∀ {a b a'}, P a → f a b = .ok a' → P a')
    {l : List β} {a a' : α} (ha : P a) (h : l.foldlM f a = .ok a') : P a' := by
  induction l generalizing a with
  | nil =>
    cases h
    exact ha
  | cons b l ih =>
    rw [List.foldlM_cons] at h
    obtain ⟨a₁, hstep, hrest⟩ := exists_of_bind_eq_ok h
    exact ih (hf ha hstep) hrest

section Run
variable {σ ι : Type} {step : σ → ι → Except ε σ} {guard : σ → ι → Prop} {s t : σ} {is : List ι}

inductive Run (step : σ → ι → Except ε σ) (guard : σ → ι → Prop) : σ → List ι → σ → Prop
  | nil (s : σ) : Run step guard s [] s
  | cons {s t u : σ} {i : ι} {is : List ι} (hguard : guard s i) (hstep : step s i = .ok t)
      (hrun : Run step guard t is u) : Run step guard s (i :: is) u

/-- **The invariant rule**: what every guarded step keeps holds along a run. -/
theorem Run.invariant {P : σ → Prop} (hrun : Run step guard s is t)
    (hstep : ∀ {s i t}, P s → guard s i → step s i = .ok t → P t) (hs : P s) : P t := by
  induction hrun with
  | nil s => exact hs
  | cons hguard hok _ ih => exact ih (hstep hs hguard hok)

/-- A weaker guard. -/
theorem Run.mono {guard' : σ → ι → Prop} (hrun : Run step guard s is t) (hguard : ∀ s i, guard s i → guard' s i) :
    Run step guard' s is t := by
  induction hrun with
  | nil s => exact .nil s
  | cons hi hok _ ih => exact .cons (hguard _ _ hi) hok ih

/-- One more step at the end. -/
theorem Run.concat {u : σ} {i : ι} (hrun : Run step guard s is t) (hguard : guard t i) (hstep : step t i = .ok u) :
    Run step guard s (is ++ [i]) u := by
  induction hrun with
  | nil s => exact .cons hguard hstep (.nil u)
  | cons hguard' hok _ ih => exact .cons hguard' hok (ih hguard hstep)

/-- Two runs, one after the other. -/
theorem Run.append {u : σ} {is' : List ι} (hrun : Run step guard s is t) (hrun' : Run step guard t is' u) :
    Run step guard s (is ++ is') u := by
  induction hrun with
  | nil s => exact hrun'
  | cons hguard hok _ ih => exact .cons hguard hok (ih hrun')

/-- **The simulation rule**: a run whose steps are matched one by one is matched. -/
theorem Run.map {σ' ι' ε' : Type} {step' : σ' → ι' → Except ε' σ'} {guard' : σ' → ι' → Prop} (f : σ → σ') (g : ι → ι')
    (hstep : ∀ {s i t}, guard s i → step s i = .ok t → guard' (f s) (g i) ∧ step' (f s) (g i) = .ok (f t))
    (hrun : Run step guard s is t) : Run step' guard' (f s) (is.map g) (f t) := by
  induction hrun with
  | nil s => exact .nil (f s)
  | cons hguard hok _ ih =>
    obtain ⟨hguard', hok'⟩ := hstep hguard hok
    exact .cons hguard' hok' ih

/-- The state after a list of inputs, each of which passes a check. -/
def exec (step : σ → ι → Except ε σ) (check : σ → ι → Bool) : σ → List ι → Option σ
  | s, [] => some s
  | s, i :: is => if check s i then (step s i).toOption.bind fun s => exec step check s is else none

/-- A run found by evaluation. -/
theorem run_of_exec {check : σ → ι → Bool} (hcheck : ∀ s i, check s i = true → guard s i)
    (h : exec step check s is = some t) : Run step guard s is t := by
  induction is generalizing s with
  | nil =>
    cases h
    exact .nil t
  | cons i is ih =>
    unfold exec at h
    split at h
    · next hi =>
      cases hstep : step s i with
      | error e =>
        rw [hstep] at h
        cases h
      | ok u =>
        rw [hstep] at h
        exact .cons (hcheck s i hi) hstep (ih h)
    · cases h

/-- A run found by evaluation, to a state with a property that can be decided. -/
theorem exists_run_of_exec {check : σ → ι → Bool} {p : σ → Bool} (hcheck : ∀ s i, check s i = true → guard s i)
    (h : (exec step check s is).any p = true) : ∃ t, Run step guard s is t ∧ p t = true := by
  obtain ⟨t, ht, hp⟩ := (Option.any_eq_true ..).mp h
  exact ⟨t, run_of_exec hcheck ht, hp⟩

end Run

/-- **The rule for reaching a goal**: from each state that keeps `I` and is not at the goal, another one with a smaller
    measure can be reached. -/
theorem exists_of_measure {σ : Type} {I G : σ → Prop} (μ : σ → Nat) (h : ∀ s, I s → G s ∨ ∃ t, I t ∧ μ t < μ s)
    {s : σ} (hs : I s) : ∃ t, I t ∧ G t := by
  induction hμ : μ s using Nat.strongRecOn generalizing s with
  | _ n ih =>
    rcases h s hs with hgoal | ⟨t, ht, hlt⟩
    · exact ⟨s, hs, hgoal⟩
    · exact ih (μ t) (hμ ▸ hlt) ht rfl

end SkiVmm.Lib
