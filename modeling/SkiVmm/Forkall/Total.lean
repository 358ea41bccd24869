import Mathlib.Data.Set.Card
import SkiVmm.Forkall.Input

/-!
# `Forkall.Total` — the number of tests that `ski_input_init` announces

`ski_input_init` checks the configuration and returns the number of tests, which becomes the number of rounds of
the parent. It multiplies the sizes of the three ranges, as `int`s, and widens the product afterwards. The calls of
`ski_input_fork_init` select `space` many positions: the product of the three sizes, except in pairs mode, where the
second range advances together with the first one and does not count.

`skiInputInit_explores_iff` says when the two numbers agree.
-/

namespace SkiVmm.Forkall

open Lib

/-! ## `ski_input_init` -/

/-- `MAX_SKI_INTPUT_INT_RANGE` -/
def maxSkiInputIntRange : Nat := 256 * 1024

/-- `total_tests`: a product of three `int`s. -/
def totalTests (s : InputState) : Int :=
  toCInt (toCInt (s.input1Range.rangeN * s.input2Range.rangeN) * s.interleavingRange.rangeN)

/-- `ski_input_init` on the ranges and files that it has loaded. A file that is named must have entries, so it is
    loaded exactly if it was named. The assertions on other options (directories, concurrency, tracing) are left
    out. -/
def skiInputInit (s : InputState) : Option Int :=
  let r₁ := s.input1Range
  let r₂ := s.input2Range
  let r₃ := s.interleavingRange
  if -- `ski_input_env_load_int_range`
     r₁.rangeN ≤ maxSkiInputIntRange ∧ r₂.rangeN ≤ maxSkiInputIntRange ∧ r₃.rangeN ≤ maxSkiInputIntRange ∧
     0 < r₁.rangeN ∧ 0 < r₂.rangeN ∧ 0 < r₃.rangeN ∧
     r₁.relative = false ∧ r₃.relative = false ∧
     (r₁.fromFileSingle = false → r₂.fromFileSingle = false) ∧
     r₁.fromFilePairs = r₂.fromFilePairs ∧
     r₃.fromFileSingle = false ∧ r₃.fromFilePairs = false ∧
     (r₁.fromFileSingle = true → 0 < s.inputFileN) ∧
     (r₁.fromFilePairs = true → 0 < s.inputPairsFileN) ∧
     ¬ (0 < s.inputFileN ∧ 0 < s.inputPairsFileN)
  then some (totalTests s)
  else none

theorem skiInputInit_some {s : InputState} {total : Int} (h : skiInputInit s = some total) :
    s.Accepted ∧ total = totalTests s := by
  unfold skiInputInit at h
  simp only at h
  split at h
  · next hok =>
    obtain ⟨-, -, -, h₁, h₂, h₃, hrel, -, hsingle, hpairs, -, -, hfile, hpairsFile, -⟩ := hok
    exact ⟨⟨h₁, h₂, h₃, hrel, hsingle, hpairs, hfile, hpairsFile⟩, (Option.some.inj h).symm⟩
  · cases h

/-! ## The positions selected -/

/-- Call `k` of `ski_input_fork_init` selects the values at the positions `w`. -/
def Selects (s : InputState) (k : Nat) (w : Nat × Nat × Nat) : Prop :=
  ∃ before, forkInitCalls s k = some before ∧ before.input1Range.iterator < before.input1Range.rangeN ∧
    before.positions = w

/-- The positions that some call selects. -/
def selectedPositions (s : InputState) : Set (Nat × Nat × Nat) := { w | ∃ k, Selects s k w }

/-- The number of tests is the number of positions, and that many rounds select every position once. -/
def Explores (s : InputState) (total : Int) : Prop :=
  total = (selectedPositions s).ncard ∧ ∀ w ∈ selectedPositions s, ∃! k : Nat, (k : Int) < total ∧ Selects s k w

/-- The number of positions that are selected: in pairs mode the second range does not count. -/
def InputState.space (s : InputState) : Nat :=
  if s.input1Range.fromFilePairs then s.input1Range.rangeN * s.interleavingRange.rangeN else s.combinations

/-- The positions after `k` calls in pairs mode: the second range advances with the first one. -/
def pairWheels (n₂ n₃ k : Nat) : Nat × Nat × Nat := (k / n₃, k / n₃ % n₂, k % n₃)

theorem walk_pairWheels {s : InputState} (h : s.Accepted) (hp : s.input1Range.fromFilePairs = true) :
    Walk s (s.input1Range.rangeN * s.interleavingRange.rangeN)
      (pairWheels s.input2Range.rangeN s.interleavingRange.rangeN) where
  start := by simp [pairWheels]
  next := by
    intro k _
    have hlt := Nat.mod_lt k h.range3_nonempty
    simp only [nextPositions, InputState.atPositions, pairWheels, hp, or_true, if_true]
    by_cases hc : k % s.interleavingRange.rangeN + 1 < s.interleavingRange.rangeN
    · obtain ⟨hd, hm⟩ := succ_div_mod_no_carry hc
      rw [if_neg (Nat.not_le.mpr hc), hd, hm]
    · obtain ⟨hd, hm⟩ := succ_div_mod_carry h.range3_nonempty hc
      have hfull : k % s.interleavingRange.rangeN + 1 = s.interleavingRange.rangeN := by omega
      rw [if_pos (Nat.not_lt.mp hc), hd, hm, hfull, Nat.mod_self, Nat.mod_add_mod]
  inside_iff := fun k => Nat.div_lt_iff_lt_mul h.range3_nonempty

theorem pairWheels_injective {n₂ n₃ k k' : Nat} (h : pairWheels n₂ n₃ k = pairWheels n₂ n₃ k') : k = k' := by
  obtain ⟨hd, hrest⟩ := Prod.mk.inj h
  obtain ⟨-, hm⟩ := Prod.mk.inj hrest
  rw [← Nat.div_add_mod k n₃, ← Nat.div_add_mod k' n₃, hd, hm]

/-- The iterators walk through `space` many positions and never come back to one. -/
theorem exists_walk {s : InputState} (h : s.Accepted) : ∃ w, Walk s s.space w ∧ Function.Injective w := by
  unfold InputState.space
  cases hp : s.input1Range.fromFilePairs with
  | false => exact ⟨_, walk_wheels h hp, fun _ _ => wheels_injective⟩
  | true => exact ⟨_, walk_pairWheels h hp, fun _ _ => pairWheels_injective⟩

section Walks
variable {s : InputState} {n : Nat} {w : Nat → Nat × Nat × Nat}

/-- Call `k` selects the positions that the walk is at. -/
theorem Walk.selects_iff (hw : Walk s n w) (h : s.Accepted) (h₀ : s.positions = (0, 0, 0)) {k : Nat}
    {x : Nat × Nat × Nat} : Selects s k x ↔ k < n ∧ w k = x := by
  obtain ⟨sel, hk⟩ := forkInitCalls_walk hw h h₀ k
  unfold Selects
  rw [hk]
  constructor
  · rintro ⟨before, hb, hin, rfl⟩
    obtain rfl := Option.some.inj hb
    have hlt : min k n < n := (hw.inside_iff _).mp hin
    have hkn : k < n := by omega
    rw [Nat.min_eq_left (Nat.le_of_lt hkn)]
    exact ⟨hkn, rfl⟩
  · rintro ⟨hkn, rfl⟩
    rw [Nat.min_eq_left (Nat.le_of_lt hkn)]
    exact ⟨_, rfl, (hw.inside_iff k).mpr hkn, rfl⟩

theorem Walk.ncard_selectedPositions (hw : Walk s n w) (hinj : Function.Injective w) (h : s.Accepted)
    (h₀ : s.positions = (0, 0, 0)) : (selectedPositions s).ncard = n := by
  have hset : selectedPositions s = ((Finset.range n).image w : Finset (Nat × Nat × Nat)) := by
    ext x
    simp [selectedPositions, hw.selects_iff h h₀]
  rw [hset, Set.ncard_coe_finset, Finset.card_image_of_injective _ hinj, Finset.card_range]

end Walks

/-- The rounds explore the positions if there are as many of them. -/
theorem explores_iff {s : InputState} (h : s.Accepted) (h₀ : s.positions = (0, 0, 0)) (total : Int) :
    Explores s total ↔ total = s.space := by
  obtain ⟨w, hw, hinj⟩ := exists_walk h
  unfold Explores
  rw [hw.ncard_selectedPositions hinj h h₀]
  refine ⟨fun hexp => hexp.1, fun heq => ⟨heq, ?_⟩⟩
  rintro x ⟨k, hk⟩
  obtain ⟨hlt, rfl⟩ := (hw.selects_iff h h₀).mp hk
  refine ⟨k, ⟨?_, hk⟩, ?_⟩
  · rw [heq]
    exact_mod_cast hlt
  · rintro k' ⟨-, hk'⟩
    exact hinj ((hw.selects_iff h h₀).mp hk').2

/-! ## The total -/

theorem space_le_combinations {s : InputState} (h : s.Accepted) : s.space ≤ s.combinations := by
  unfold InputState.space
  split
  · unfold InputState.combinations
    exact Nat.mul_le_mul_right _ (Nat.le_mul_of_pos_right _ h.range2_nonempty)
  · exact Nat.le_refl _

/-- The products of `int`s wrap around only once, in the end. -/
theorem totalTests_eq (s : InputState) : totalTests s = toCInt s.combinations := by
  unfold totalTests toCInt InputState.combinations
  rw [Int.bmod_mul_bmod]
  push_cast
  rfl

/-- A number is the `int` of another one if it is in the range of `int` and differs by a multiple of `2 ^ 32`. -/
theorem toCInt_eq_iff {x : Int} {n : Nat} : toCInt x = n ↔ n < 2 ^ 31 ∧ (2 ^ 32 : Int) ∣ x - n := by
  unfold toCInt
  constructor
  · intro heq
    have hlt := Int.bmod_lt (x := x) (m := 2 ^ 32) (by decide)
    have hmod : (2 ^ 32 : Int) ∣ x - x.bmod (2 ^ 32) := by
      have := Int.dvd_self_sub_bmod (x := x) (m := 2 ^ 32)
      exact_mod_cast this
    rw [heq] at hlt hmod
    refine ⟨?_, hmod⟩
    omega
  · rintro ⟨hlt, q, hq⟩
    have hx : x = n + (2 ^ 32 : Nat) * q := by
      push_cast
      omega
    rw [hx, Int.add_mul_bmod_self_left]
    exact Int.bmod_eq_of_le (by omega) (by omega)

/-- **When the announced number of tests is right.** The number that `ski_input_init` returns is the number of
    positions that the calls of `ski_input_fork_init` select, so that as many rounds select every position once, if
    and only if that number of positions fits an `int` and differs from the product of the three sizes by a multiple
    of `2 ^ 32`. Outside pairs mode the two are the same, and the product of the sizes must be below `2 ^ 31`; in
    pairs mode the product must not notice the size of the second range. -/
theorem skiInputInit_explores_iff {s : InputState} {total : Int} (h : skiInputInit s = some total)
    (h₀ : s.positions = (0, 0, 0)) :
    Explores s total ↔ s.space < 2 ^ 31 ∧ 2 ^ 32 ∣ s.combinations - s.space := by
  obtain ⟨hacc, htotal⟩ := skiInputInit_some h
  have hle := space_le_combinations hacc
  rw [explores_iff hacc h₀, htotal, totalTests_eq, toCInt_eq_iff]
  refine and_congr_right fun _ => ?_
  rw [← Int.natCast_sub hle]
  exact_mod_cast Iff.rfl

theorem skiInputInit_twoByTwo_explores : Explores twoByTwo 8 :=
  (skiInputInit_explores_iff (show skiInputInit twoByTwo = some 8 by decide) rfl).mpr (by decide)

/-- The pairs of lines `0` and `1` of a file, named by both ranges. -/
def twoPairs : InputState where
  input1Range :=
    { range := fun i => i, rangeN := 2, iterator := 0, relative := false, fromFileSingle := false,
      fromFilePairs := true }
  input2Range :=
    { range := fun i => i, rangeN := 2, iterator := 0, relative := false, fromFileSingle := false,
      fromFilePairs := true }
  interleavingRange :=
    { range := fun i => i, rangeN := 1, iterator := 0, relative := false, fromFileSingle := false,
      fromFilePairs := false }
  inputFile := fun _ => 0
  inputFileN := 0
  inputPairsFile := fun i _ => i
  inputPairsFileN := 2
  inputNumber := (0, 0)
  seed := 0

/-- Three plain ranges of the given sizes. -/
def plainRanges (n₁ n₂ n₃ : Nat) : InputState where
  input1Range :=
    { range := fun i => i, rangeN := n₁, iterator := 0, relative := false, fromFileSingle := false,
      fromFilePairs := false }
  input2Range :=
    { range := fun i => i, rangeN := n₂, iterator := 0, relative := false, fromFileSingle := false,
      fromFilePairs := false }
  interleavingRange :=
    { range := fun i => i, rangeN := n₃, iterator := 0, relative := false, fromFileSingle := false,
      fromFilePairs := false }
  inputFile := fun _ => 0
  inputFileN := 0
  inputPairsFile := fun _ _ => 0
  inputPairsFileN := 0
  inputNumber := (0, 0)
  seed := 0

/-- Four tests are announced for two pairs, and none for `2 ^ 32` combinations. -/
theorem skiInputInit_total_wrong :
    (skiInputInit twoPairs = some 4 ∧ ¬ Explores twoPairs 4) ∧
    skiInputInit (plainRanges 2048 2048 1024) = some 0 ∧ ¬ Explores (plainRanges 2048 2048 1024) 0 := by
  have hpairs : skiInputInit twoPairs = some 4 := by decide
  have hplain : skiInputInit (plainRanges 2048 2048 1024) = some 0 := by decide
  refine ⟨⟨hpairs, ?_⟩, hplain, ?_⟩
  · rw [explores_iff (skiInputInit_some hpairs).1 rfl]
    decide
  · rw [explores_iff (skiInputInit_some hplain).1 rfl]
    decide

end SkiVmm.Forkall
