import Mathlib.Data.Nat.Init
import Mathlib.Tactic.Ring
import Mathlib.Algebra.Order.Ring.Nat

/-!
# `Lib.Odometer` — three wheels that carry

A counter with three wheels, the slowest first: the second wheel has `n₂` teeth, the last `n₃`, and the
first is unbounded. `wheels n₂ n₃ k` is what the wheels show after `k` clicks; `wheels_succ` says how one
more click moves them (with the carries), and `wheels_exists_unique` that every reading below the bound is
shown exactly once. Readings grow lexicographically (`wheels_lt`).
-/

namespace SkiVmm.Lib

/-- The reading after `k` clicks: `(k / (n₂ * n₃), (k / n₃) mod n₂, k mod n₃)`. -/
def wheels (n₂ n₃ k : Nat) : Nat × Nat × Nat :=
  (k / (n₂ * n₃), k / n₃ % n₂, k % n₃)

/-- One click of the wheels, with carries from right to left. -/
def click (n₂ n₃ : Nat) : Nat × Nat × Nat → Nat × Nat × Nat
  | (a, b, c) =>
    if c + 1 < n₃ then (a, b, c + 1)
    else if b + 1 < n₂ then (a, b + 1, 0)
    else (a + 1, 0, 0)

/-- Adding one without a carry out of the last digit. -/
theorem succ_div_mod_no_carry {k n : Nat} (h : k % n + 1 < n) :
    (k + 1) / n = k / n ∧ (k + 1) % n = k % n + 1 := by
  have hn : 0 < n := by omega
  have hk : k + 1 = (k % n + 1) + n * (k / n) := by
    have := Nat.mod_add_div k n
    omega
  constructor
  · rw [hk, Nat.add_mul_div_left _ _ hn, Nat.div_eq_of_lt h, Nat.zero_add]
  · rw [hk, Nat.add_mul_mod_self_left, Nat.mod_eq_of_lt h]

/-- Adding one with a carry out of the last digit. -/
theorem succ_div_mod_carry {k n : Nat} (hn : 0 < n) (h : ¬ k % n + 1 < n) :
    (k + 1) / n = k / n + 1 ∧ (k + 1) % n = 0 := by
  have hlt := Nat.mod_lt k hn
  have hk : k + 1 = n * (k / n + 1) := by
    have := Nat.mod_add_div k n
    rw [Nat.mul_add, Nat.mul_one]
    omega
  constructor
  · rw [hk, Nat.mul_div_cancel_left _ hn]
  · rw [hk, Nat.mul_mod_right]

theorem wheels_zero (n₂ n₃ : Nat) : wheels n₂ n₃ 0 = (0, 0, 0) := by simp [wheels]

/-- **The reading after one more click.** -/
theorem wheels_succ {n₂ n₃ : Nat} (h₂ : 0 < n₂) (h₃ : 0 < n₃) (k : Nat) :
    wheels n₂ n₃ (k + 1) = click n₂ n₃ (wheels n₂ n₃ k) := by
  have hdiv : ∀ m, m / (n₂ * n₃) = m / n₃ / n₂ := by
    intro m
    rw [Nat.div_div_eq_div_mul, Nat.mul_comm]
  simp only [wheels, click, hdiv]
  by_cases hc : k % n₃ + 1 < n₃
  · obtain ⟨hd, hm⟩ := succ_div_mod_no_carry hc
    rw [if_pos hc, hd, hm]
  · obtain ⟨hd, hm⟩ := succ_div_mod_carry h₃ hc
    rw [if_neg hc, hd, hm]
    by_cases hb : k / n₃ % n₂ + 1 < n₂
    · obtain ⟨hd', hm'⟩ := succ_div_mod_no_carry hb
      rw [if_pos hb, hd', hm']
    · obtain ⟨hd', hm'⟩ := succ_div_mod_carry h₂ hb
      rw [if_neg hb, hd', hm']

/-- The number of clicks is recovered from the reading. -/
theorem wheels_value (n₂ n₃ k : Nat) :
    ((wheels n₂ n₃ k).1 * n₂ + (wheels n₂ n₃ k).2.1) * n₃ + (wheels n₂ n₃ k).2.2 = k := by
  have h₁ := Nat.mod_add_div (k / n₃) n₂
  have h₂ := Nat.mod_add_div k n₃
  have hdiv : k / (n₂ * n₃) = k / n₃ / n₂ := by rw [Nat.div_div_eq_div_mul, Nat.mul_comm]
  have hq : k / n₃ / n₂ * n₂ + k / n₃ % n₂ = k / n₃ := by
    rw [Nat.mul_comm, Nat.add_comm]
    exact h₁
  simp only [wheels, hdiv, hq]
  rw [Nat.mul_comm, Nat.add_comm]
  exact h₂

theorem wheels_injective {n₂ n₃ k k' : Nat} (h : wheels n₂ n₃ k = wheels n₂ n₃ k') : k = k' := by
  rw [← wheels_value n₂ n₃ k, ← wheels_value n₂ n₃ k', h]

/-- The reading with first wheel `a`, second `b` and last `c` is shown after `(a * n₂ + b) * n₃ + c`
    clicks. -/
theorem wheels_of_digits {n₂ n₃ a b c : Nat} (hb : b < n₂) (hc : c < n₃) :
    wheels n₂ n₃ ((a * n₂ + b) * n₃ + c) = (a, b, c) := by
  have hdiv : ((a * n₂ + b) * n₃ + c) / n₃ = a * n₂ + b := by
    rw [Nat.add_comm, Nat.add_mul_div_right _ _ (by omega), Nat.div_eq_of_lt hc, Nat.zero_add]
  have hmod : ((a * n₂ + b) * n₃ + c) % n₃ = c := by
    rw [Nat.add_comm, Nat.add_mul_mod_self_right, Nat.mod_eq_of_lt hc]
  have hfst : ((a * n₂ + b) * n₃ + c) / (n₂ * n₃) = (a * n₂ + b) / n₂ := by
    rw [Nat.mul_comm n₂ n₃, ← Nat.div_div_eq_div_mul, hdiv]
  have hd₂ : (a * n₂ + b) / n₂ = a := by
    rw [Nat.add_comm, Nat.add_mul_div_right _ _ (by omega), Nat.div_eq_of_lt hb, Nat.zero_add]
  have hm₂ : (a * n₂ + b) % n₂ = b := by
    rw [Nat.add_comm, Nat.add_mul_mod_self_right, Nat.mod_eq_of_lt hb]
  simp only [wheels, hdiv, hmod, hfst, hd₂, hm₂]

/-- **Every reading below the bound is shown exactly once** within the first `n₁ * n₂ * n₃` clicks. -/
theorem wheels_exists_unique {n₁ n₂ n₃ a b c : Nat} (ha : a < n₁) (hb : b < n₂) (hc : c < n₃) :
    ∃! k, k < n₁ * n₂ * n₃ ∧ wheels n₂ n₃ k = (a, b, c) := by
  refine ⟨(a * n₂ + b) * n₃ + c, ⟨?_, wheels_of_digits hb hc⟩, ?_⟩
  · have hrow : a * n₂ + b + 1 ≤ n₁ * n₂ := by
      calc a * n₂ + b + 1 ≤ a * n₂ + n₂ := by omega
        _ = (a + 1) * n₂ := by ring
        _ ≤ n₁ * n₂ := Nat.mul_le_mul_right _ ha
    calc (a * n₂ + b) * n₃ + c < (a * n₂ + b) * n₃ + n₃ := by omega
      _ = (a * n₂ + b + 1) * n₃ := by ring
      _ ≤ n₁ * n₂ * n₃ := Nat.mul_le_mul_right _ hrow
  · rintro k ⟨_, hk⟩
    exact wheels_injective (hk.trans (wheels_of_digits hb hc).symm)

/-- The first wheel stays below `n₁` exactly for the first `n₁ * n₂ * n₃` clicks. -/
theorem wheels_fst_lt_iff {n₁ n₂ n₃ k : Nat} (h₂ : 0 < n₂) (h₃ : 0 < n₃) :
    (wheels n₂ n₃ k).1 < n₁ ↔ k < n₁ * n₂ * n₃ := by
  rw [wheels, Nat.div_lt_iff_lt_mul (Nat.mul_pos h₂ h₃), Nat.mul_assoc]

/-- Later readings are lexicographically larger. -/
theorem wheels_lt {n₂ n₃ k k' : Nat} (h : k < k') :
    Prod.Lex (· < ·) (Prod.Lex (· < ·) (· < ·)) (wheels n₂ n₃ k) (wheels n₂ n₃ k') := by
  have hdiv : ∀ m, m / (n₂ * n₃) = m / n₃ / n₂ := by
    intro m
    rw [Nat.div_div_eq_div_mul, Nat.mul_comm]
  have hle : k / n₃ ≤ k' / n₃ := Nat.div_le_div_right (Nat.le_of_lt h)
  have hle' : k / n₃ / n₂ ≤ k' / n₃ / n₂ := Nat.div_le_div_right hle
  have hk := Nat.mod_add_div k n₃
  have hk' := Nat.mod_add_div k' n₃
  have hq := Nat.mod_add_div (k / n₃) n₂
  have hq' := Nat.mod_add_div (k' / n₃) n₂
  simp only [wheels, hdiv]
  rcases Nat.lt_or_eq_of_le hle' with hlt | heq
  · exact Prod.Lex.left _ _ hlt
  · rw [heq]
    refine Prod.Lex.right _ ?_
    rw [heq] at hq
    rcases Nat.lt_or_eq_of_le hle with hlt | heq₂
    · exact Prod.Lex.left _ _ (by omega)
    · rw [heq₂]
      refine Prod.Lex.right _ ?_
      rw [heq₂] at hk
      omega

end SkiVmm.Lib
