import SkiVmm.Forkall.Config

/-!
# `Forkall.Lookup` — where `ski_input_get_current` and its relative sibling look

A range value can be an index into a file. `ski_input_get_current` replaces an index past the end by the last one;
`ski_input_get_current_relative` takes the remainder. Neither looks at the sign, and `strtoll` reads negative numbers.

The functions here repeat the two look-ups and write down each array index with the number of entries loaded
(`getCurrentTraced_fst`, `getCurrentRelativeTraced_fst`: the values are those of `Forkall.Input`).

* `lookups_inBounds_iff` — which accepted configurations look only at loaded entries, in all calls of the walk.
* `relative_offset_iff` — when the second input is the first one plus the offset, as the comment on case 1 has it.
-/

namespace SkiVmm.Forkall

open Lib

/-! ## Look-ups -/

/-- An array index, and the number of entries that were loaded into the array. -/
structure Lookup where
  index : Int
  entries : Int
  deriving DecidableEq, Repr

def Lookup.InBounds (l : Lookup) : Prop := 0 ≤ l.index ∧ l.index < l.entries

instance (l : Lookup) : Decidable l.InBounds := inferInstanceAs (Decidable (_ ∧ _))

/-- `range->range[range->iterator]` -/
def SkiInputIntRange.lookup (r : SkiInputIntRange) : Lookup := ⟨r.iterator, r.rangeN⟩

/-- An index past the end is replaced by the last one. -/
def clamp (n v : Int) : Int := if v ≥ n then n - 1 else v

/-- `ski_input_get_current`, with its look-ups. -/
def getCurrentTraced (s : InputState) (r : SkiInputIntRange) (inputNo : Fin 2) : Option (Int × List Lookup) :=
  if r.fromFileSingle then
    if 0 < s.inputFileN then
      let i := clamp s.inputFileN r.value
      some (s.inputFile i, [r.lookup, ⟨i, s.inputFileN⟩])
    else none
  else if r.fromFilePairs then
    if 0 < s.inputPairsFileN then
      let i := clamp s.inputPairsFileN r.value
      some (s.inputPairsFile i inputNo, [r.lookup, ⟨i, s.inputPairsFileN⟩])
    else none
  else some (r.value, [r.lookup])

/-- `ski_input_get_current_relative`, with its look-ups. -/
def getCurrentRelativeTraced (s : InputState) (r₁ r₂ : SkiInputIntRange) : Option (Int × List Lookup) :=
  if r₂.relative && !r₁.relative then
    if r₁.fromFileSingle then
      if 0 < s.inputFileN then
        if !r₂.fromFileSingle then
          let i := r₁.value.tmod s.inputFileN
          some (longLong (s.inputFile i + r₂.value), [r₁.lookup, ⟨i, s.inputFileN⟩, r₂.lookup])
        else
          let i := (longLong (r₁.value + r₂.value)).tmod s.inputFileN
          some (s.inputFile i, [r₁.lookup, r₂.lookup, ⟨i, s.inputFileN⟩])
      else none
    else some (longLong (r₁.value + r₂.value), [r₁.lookup, r₂.lookup])
  else none

def secondInputTraced (s : InputState) : Option (Int × List Lookup) :=
  if !s.input2Range.relative then
    if s.input1Range.fromFilePairs then getCurrentTraced s s.input1Range ⟨1, Nat.one_lt_two⟩
    else getCurrentTraced s s.input2Range ⟨1, Nat.one_lt_two⟩
  else getCurrentRelativeTraced s s.input1Range s.input2Range

/-- The look-ups of one call of `ski_input_fork_init`, which makes none past the end of the first range. -/
def callLookups (s : InputState) : List Lookup :=
  if s.input1Range.iterator ≥ s.input1Range.rangeN then []
  else
    match getCurrentTraced s s.input1Range ⟨0, Nat.two_pos⟩, secondInputTraced s with
    | none, _ => []
    | some (_, l₀), none => l₀
    | some (_, l₀), some (_, l₁) => l₀ ++ l₁

theorem getCurrentTraced_fst (s : InputState) (r : SkiInputIntRange) (inputNo : Fin 2) :
    (getCurrentTraced s r inputNo).map Prod.fst = skiInputGetCurrent s r inputNo := by
  unfold getCurrentTraced skiInputGetCurrent clamp
  split_ifs <;> rfl

theorem getCurrentRelativeTraced_fst (s : InputState) (r₁ r₂ : SkiInputIntRange) :
    (getCurrentRelativeTraced s r₁ r₂).map Prod.fst = skiInputGetCurrentRelative s r₁ r₂ := by
  unfold getCurrentRelativeTraced skiInputGetCurrentRelative
  split_ifs <;> rfl

theorem secondInputTraced_fst (s : InputState) : (secondInputTraced s).map Prod.fst = secondInput s := by
  unfold secondInputTraced secondInput
  split_ifs
  · exact getCurrentTraced_fst _ _ _
  · exact getCurrentTraced_fst _ _ _
  · exact getCurrentRelativeTraced_fst _ _ _

/-! ## The bounds of one look-up -/

section Bounds
variable {n v : Int} (hn : 0 < n)
include hn

theorem clamp_inBounds_iff : Lookup.InBounds ⟨clamp n v, n⟩ ↔ 0 ≤ v := by
  unfold Lookup.InBounds clamp
  dsimp only
  split_ifs <;> omega

/-- The remainder of C has the sign of the dividend. -/
theorem tmod_inBounds_iff : Lookup.InBounds ⟨v.tmod n, n⟩ ↔ 0 ≤ v ∨ n ∣ v := by
  unfold Lookup.InBounds
  dsimp only
  constructor
  · rintro ⟨hnonneg, -⟩
    by_contra hno
    obtain ⟨hneg, hdvd⟩ := not_or.mp hno
    have hpos : 0 < (-v).tmod n := by
      refine lt_of_le_of_ne (Int.tmod_nonneg n (by omega)) fun hzero => hdvd ?_
      exact Int.dvd_neg.mp (Int.dvd_of_tmod_eq_zero hzero.symm)
    rw [Int.neg_tmod] at hpos
    omega
  · rintro (hv | hdvd)
    · exact ⟨Int.tmod_nonneg n hv, Int.tmod_lt_of_pos v hn⟩
    · rw [Int.tmod_eq_zero_of_dvd hdvd]
      exact ⟨Int.le_refl 0, hn⟩

end Bounds

section Ranges
variable {s : InputState} {r r₁ r₂ : SkiInputIntRange} {v : Int} {ls : List Lookup}

theorem SkiInputIntRange.lookup_inBounds (h : r.iterator < r.rangeN) : r.lookup.InBounds :=
  ⟨Int.natCast_nonneg _, Int.ofNat_lt.mpr h⟩

/-- The index that `ski_input_get_current` takes from a range must not be negative. -/
theorem getCurrentTraced_inBounds_iff {inputNo : Fin 2} (h : getCurrentTraced s r inputNo = some (v, ls))
    (hr : r.iterator < r.rangeN) :
    (∀ l ∈ ls, l.InBounds) ↔ (r.fromFileSingle = true ∨ r.fromFilePairs = true → 0 ≤ r.value) := by
  have hin := r.lookup_inBounds hr
  unfold getCurrentTraced at h
  split_ifs at h with hs hn hp hn
  · cases h
    simp [hin, hs, clamp_inBounds_iff hn]
  · cases h
    simp [hin, hp, clamp_inBounds_iff hn]
  · cases h
    simp [hin, hs, hp]

/-- `ski_input_get_current_relative` also stays in bounds when a negative index is a multiple of the size. -/
theorem getCurrentRelativeTraced_inBounds_iff (h : getCurrentRelativeTraced s r₁ r₂ = some (v, ls))
    (hr₁ : r₁.iterator < r₁.rangeN) (hr₂ : r₂.iterator < r₂.rangeN) :
    (∀ l ∈ ls, l.InBounds) ↔
      (r₁.fromFileSingle = true → r₂.fromFileSingle = false → 0 ≤ r₁.value ∨ s.inputFileN ∣ r₁.value) ∧
      (r₁.fromFileSingle = true → r₂.fromFileSingle = true →
        0 ≤ longLong (r₁.value + r₂.value) ∨ s.inputFileN ∣ longLong (r₁.value + r₂.value)) := by
  have hin₁ := r₁.lookup_inBounds hr₁
  have hin₂ := r₂.lookup_inBounds hr₂
  unfold getCurrentRelativeTraced at h
  split_ifs at h with hrel hs hn hs₂
  · cases h
    have hs₂' : r₂.fromFileSingle = false := by simpa using hs₂
    simp [hin₁, hin₂, hs, hs₂', tmod_inBounds_iff hn]
  · cases h
    have hs₂' : r₂.fromFileSingle = true := by simpa using hs₂
    simp [hin₁, hin₂, hs, hs₂', tmod_inBounds_iff hn]
  · cases h
    simp [hin₁, hin₂, hs]

end Ranges

/-! ## The look-ups of a call -/

/-- The indices at the current positions are fine: not negative, or for a sum a multiple of the size. -/
def InputState.IndicesOk (s : InputState) : Prop :=
  (s.input1Range.fromFileSingle = true ∨ s.input1Range.fromFilePairs = true → 0 ≤ s.input1Range.value) ∧
  (s.input2Range.fromFileSingle = true → s.input2Range.relative = false → 0 ≤ s.input2Range.value) ∧
  (s.input2Range.fromFileSingle = true → s.input2Range.relative = true →
    0 ≤ longLong (s.input1Range.value + s.input2Range.value) ∨
      s.inputFileN ∣ longLong (s.input1Range.value + s.input2Range.value))

section Call
variable {s : InputState} (h : s.Accepted)
include h

/-- A second range that refers to the file comes with a first one that does. -/
theorem InputState.Accepted.single_of_single₂ (hs : s.input2Range.fromFileSingle = true) :
    s.input1Range.fromFileSingle = true := by
  by_contra hno
  rw [h.single_of_single (by simpa using hno)] at hs
  cases hs

/-- The two values of a call, with their look-ups. -/
theorem exists_traced : ∃ v₀ l₀ v₁ l₁,
    getCurrentTraced s s.input1Range ⟨0, Nat.two_pos⟩ = some (v₀, l₀) ∧ secondInputTraced s = some (v₁, l₁) := by
  obtain ⟨sel, hsel⟩ := Option.isSome_iff_exists.mp (selectionAt_isSome h s.positions)
  simp only [selectionAt, Option.bind_eq_bind, Option.bind_eq_some_iff] at hsel
  obtain ⟨n₀, h₀, n₁, h₁, -⟩ := hsel
  have h₀' : skiInputGetCurrent s s.input1Range ⟨0, Nat.two_pos⟩ = some n₀ := h₀
  have h₁' : secondInput s = some n₁ := h₁
  rw [← getCurrentTraced_fst] at h₀'
  rw [← secondInputTraced_fst] at h₁'
  obtain ⟨⟨v₀, l₀⟩, ht₀, -⟩ := Option.map_eq_some_iff.mp h₀'
  obtain ⟨⟨v₁, l₁⟩, ht₁, -⟩ := Option.map_eq_some_iff.mp h₁'
  exact ⟨v₀, l₀, v₁, l₁, ht₀, ht₁⟩

/-- **One call** looks at loaded entries only if the indices at its positions are fine. -/
theorem callLookups_inBounds_iff
    (hexcl : ¬ (s.input1Range.fromFilePairs = true ∧ s.input1Range.fromFileSingle = true))
    (h₁ : s.input1Range.iterator < s.input1Range.rangeN) (h₂ : s.input2Range.iterator < s.input2Range.rangeN) :
    (∀ l ∈ callLookups s, l.InBounds) ↔ s.IndicesOk := by
  obtain ⟨v₀, l₀, v₁, l₁, ht₀, ht₁⟩ := exists_traced h
  have hcall : callLookups s = l₀ ++ l₁ := by
    rw [callLookups, if_neg (Nat.not_le.mpr h₁), ht₀, ht₁]
  have hb₀ := getCurrentTraced_inBounds_iff ht₀ h₁
  rw [hcall, List.forall_mem_append, hb₀]
  unfold InputState.IndicesOk
  unfold secondInputTraced at ht₁
  split_ifs at ht₁ with hrel hp
  · -- pairs: the second input is read at the index of the first one
    have hs₂ : s.input2Range.fromFileSingle = false := by
      refine h.single_of_single ?_
      simpa using fun hs => hexcl ⟨hp, hs⟩
    rw [getCurrentTraced_inBounds_iff ht₁ h₁]
    simp [hs₂]
  · have hrel' : s.input2Range.relative = false := by simpa using hrel
    have hp₂ : s.input2Range.fromFilePairs = false := by
      rw [← h.pairs_eq]
      simpa using hp
    rw [getCurrentTraced_inBounds_iff ht₁ h₂]
    simp [hrel', hp₂]
  · have hrel' : s.input2Range.relative = true := by simpa using hrel
    rw [getCurrentRelativeTraced_inBounds_iff ht₁ h₁ h₂]
    simp only [hrel', Bool.true_eq_false, false_imp_iff, imp_true_iff, true_and]
    refine and_congr_right fun hfirst => ?_
    constructor
    · rintro ⟨-, hsum⟩ hs₂ -
      exact hsum (h.single_of_single₂ hs₂) hs₂
    · intro hsum
      exact ⟨fun hs₁ _ => .inl (hfirst (.inl hs₁)), fun _ hs₂ => hsum hs₂ trivial⟩

/-- The walk visits every position of the first range and, outside pairs mode, every pair of positions of the two. -/
theorem exists_covering_walk : ∃ w, Walk s s.space w ∧ (∀ k, (w k).2.1 < s.input2Range.rangeN) ∧
    (∀ i < s.input1Range.rangeN, ∃ k < s.space, (w k).1 = i) ∧
    (s.input1Range.fromFilePairs = false → ∀ i < s.input1Range.rangeN, ∀ j < s.input2Range.rangeN,
      ∃ k < s.space, (w k).1 = i ∧ (w k).2.1 = j) := by
  unfold InputState.space
  cases hp : s.input1Range.fromFilePairs with
  | false =>
    have hcover : ∀ i < s.input1Range.rangeN, ∀ j < s.input2Range.rangeN, ∃ k < s.combinations,
        (wheels s.input2Range.rangeN s.interleavingRange.rangeN k).1 = i ∧
        (wheels s.input2Range.rangeN s.interleavingRange.rangeN k).2.1 = j := by
      intro i hi j hj
      obtain ⟨k, ⟨hk, hw⟩, -⟩ := wheels_exists_unique hi hj h.range3_nonempty
      exact ⟨k, hk, by rw [hw], by rw [hw]⟩
    refine ⟨_, walk_wheels h hp, fun k => Nat.mod_lt _ h.range2_nonempty, fun i hi => ?_, fun _ => hcover⟩
    obtain ⟨k, hk, heq, -⟩ := hcover i hi 0 h.range2_nonempty
    exact ⟨k, hk, heq⟩
  | true =>
    refine ⟨_, walk_pairWheels h hp, fun k => Nat.mod_lt _ h.range2_nonempty, fun i hi => ?_, nofun⟩
    refine ⟨i * s.interleavingRange.rangeN, Nat.mul_lt_mul_of_pos_right hi h.range3_nonempty, ?_⟩
    exact Nat.mul_div_cancel i h.range3_nonempty

end Call

/-- The ranges give indices of entries only: none is negative, except that the sum of two may be a multiple of the
    size of the file. -/
def InputState.NonNegativeIndices (s : InputState) : Prop :=
  (s.input1Range.fromFileSingle = true ∨ s.input1Range.fromFilePairs = true →
    ∀ i < s.input1Range.rangeN, 0 ≤ s.input1Range.range i) ∧
  (s.input2Range.fromFileSingle = true → s.input2Range.relative = false →
    ∀ j < s.input2Range.rangeN, 0 ≤ s.input2Range.range j) ∧
  (s.input2Range.fromFileSingle = true → s.input2Range.relative = true →
    ∀ i < s.input1Range.rangeN, ∀ j < s.input2Range.rangeN,
      0 ≤ longLong (s.input1Range.range i + s.input2Range.range j) ∨
        s.inputFileN ∣ longLong (s.input1Range.range i + s.input2Range.range j))

/-- The indices of all positions of a walk. -/
theorem nonNegativeIndices_iff {s : InputState} (h : s.Accepted)
    (hexcl : ¬ (s.input1Range.fromFilePairs = true ∧ s.input1Range.fromFileSingle = true))
    {w : Nat → Nat × Nat × Nat} (hw : Walk s s.space w) (hb : ∀ k, (w k).2.1 < s.input2Range.rangeN)
    (hcover : ∀ i < s.input1Range.rangeN, ∃ k < s.space, (w k).1 = i)
    (hcover₂ : s.input1Range.fromFilePairs = false → ∀ i < s.input1Range.rangeN, ∀ j < s.input2Range.rangeN,
      ∃ k < s.space, (w k).1 = i ∧ (w k).2.1 = j) :
    (∀ k < s.space, (s.atPositions (w k)).IndicesOk) ↔ s.NonNegativeIndices := by
  constructor
  · intro hall
    have hnopairs : s.input2Range.fromFileSingle = true → s.input1Range.fromFilePairs = false := fun hs₂ => by
      simpa using fun hp => hexcl ⟨hp, h.single_of_single₂ hs₂⟩
    refine ⟨fun hf i hi => ?_, fun hs₂ hrel j hj => ?_, fun hs₂ hrel i hi j hj => ?_⟩
    · obtain ⟨k, hk, rfl⟩ := hcover i hi
      exact (hall k hk).1 hf
    · obtain ⟨k, hk, -, rfl⟩ := hcover₂ (hnopairs hs₂) 0 h.range1_nonempty j hj
      exact (hall k hk).2.1 hs₂ hrel
    · obtain ⟨k, hk, rfl, rfl⟩ := hcover₂ (hnopairs hs₂) i hi j hj
      exact (hall k hk).2.2 hs₂ hrel
  · rintro ⟨hfirst, hsecond, hsum⟩ k hk
    have ha := (hw.inside_iff k).mpr hk
    exact ⟨fun hf => hfirst hf _ ha, fun hs₂ hrel => hsecond hs₂ hrel _ (hb k),
      fun hs₂ hrel => hsum hs₂ hrel _ ha _ (hb k)⟩

/-- **When all look-ups hit loaded entries.** Over all calls of `ski_input_fork_init` on a configuration that
    `ski_input_init` accepts, the two look-up functions use indices of loaded entries only, if and only if the values
    that are used as file indices are not negative; a sum of two, taken in 64 bits, may also be a multiple of the number
    of lines. -/
theorem lookups_inBounds_iff {c : InputConfig} {m : Memory} {s : InputState} (h : c.AcceptedAs m s) :
    (∀ k before, forkInitCalls s k = some before → ∀ l ∈ callLookups before, l.InBounds) ↔ s.NonNegativeIndices := by
  obtain ⟨hload, total, hinit⟩ := h
  have hloaded := InputConfig.load_loaded hload
  have hacc := (skiInputInit_some hinit).1
  obtain ⟨w, hw, hb, hcover, hcover₂⟩ := exists_covering_walk hacc
  rw [← nonNegativeIndices_iff hacc hloaded.exclusive hw hb hcover hcover₂]
  -- the look-ups depend on the positions, not on what was selected before
  have hpos : ∀ k < s.space, (∀ l ∈ callLookups (s.atPositions (w k)), l.InBounds) ↔
      (s.atPositions (w k)).IndicesOk := by
    intro k hk
    have hat : (s.atPositions (w k)).Accepted :=
      ⟨hacc.range1_nonempty, hacc.range2_nonempty, hacc.range3_nonempty, hacc.range1_not_relative,
        hacc.single_of_single, hacc.pairs_eq, hacc.file_loaded, hacc.pairs_loaded⟩
    exact callLookups_inBounds_iff hat hloaded.exclusive ((hw.inside_iff k).mpr hk) (hb k)
  constructor
  · intro hall k hk
    obtain ⟨sel, hk'⟩ := forkInitCalls_walk hw hacc hloaded.positions k
    rw [Nat.min_eq_left (Nat.le_of_lt hk)] at hk'
    have hin := hall k _ hk'
    exact (hpos k hk).mp hin
  · intro hall k before hbefore
    obtain ⟨sel, hk'⟩ := forkInitCalls_walk hw hacc hloaded.positions k
    rw [hk'] at hbefore
    cases hbefore
    by_cases hk : k < s.space
    · rw [Nat.min_eq_left (Nat.le_of_lt hk)]
      exact (hpos k hk).mpr (hall k hk)
    · rw [Nat.min_eq_right (Nat.not_lt.mp hk)]
      have hdone : ¬ (w s.space).1 < s.input1Range.rangeN := fun hlt => Nat.lt_irrefl _ ((hw.inside_iff _).mp hlt)
      have hnone : callLookups ((s.atPositions (w s.space)).select sel) = [] := if_pos (Nat.not_lt.mp hdone)
      rw [hnone]
      exact List.forall_mem_nil _

theorem load_seven : skiInputLoadInputFile (some ['7']) = some [7] := by
  have hload : loadEntries sscanfInt skiInputFileMax ['7'] [] = some [7] := by
    have hline : fgets (512 - 1) ['7'] = some (['7'], []) := by decide
    rw [loadEntries_line hline (show sscanfInt ['7'] = some 7 by decide) (by decide), loadEntries_nil]
    rfl
  rw [skiInputLoadInputFile, loadFile, hload]
  rfl

/-- The first line of a file, and the number 1. -/
theorem firstLine_accepted : (oneTest ['@', '0'] ['1'] ['7']).AcceptedAs ⟨fun _ => 0, fun _ => (0, 0)⟩
    (oneTestState ⟨false, true, false⟩ ⟨false, false, false⟩ 0 1 [7]) := by
  have hfirst : scanField (scanFlags ['@', '0']).2 = some (.single 0, []) := by decide
  have hsecond : scanField (scanFlags ['1']).2 = some (.single 1, []) := by decide
  exact ⟨oneTest_load hfirst hsecond load_seven, 1, by decide⟩

theorem lookups_inBounds_first_line :
    (oneTest ['@', '0'] ['1'] ['7']).AcceptedAs ⟨fun _ => 0, fun _ => (0, 0)⟩
      (oneTestState ⟨false, true, false⟩ ⟨false, false, false⟩ 0 1 [7]) ∧
    ∀ k before, forkInitCalls (oneTestState ⟨false, true, false⟩ ⟨false, false, false⟩ 0 1 [7]) k = some before →
      ∀ l ∈ callLookups before, l.InBounds := by
  refine ⟨firstLine_accepted, (lookups_inBounds_iff firstLine_accepted).mpr ⟨?_, nofun, nofun⟩⟩
  decide

/-- Line `-5` of the file. -/
theorem negative_index_looked_up : ∃ s : InputState,
    (oneTest ['@', '-', '5'] ['1'] ['7']).AcceptedAs ⟨fun _ => 0, fun _ => (0, 0)⟩ s ∧
      (⟨-5, 1⟩ : Lookup) ∈ callLookups s ∧ ¬ Lookup.InBounds ⟨-5, 1⟩ := by
  have hfirst : scanField (scanFlags ['@', '-', '5']).2 = some (.single (-5), []) := by decide
  have hsecond : scanField (scanFlags ['1']).2 = some (.single 1, []) := by decide
  have hload := oneTest_load hfirst hsecond load_seven
  exact ⟨_, ⟨hload, 1, by decide⟩, by decide, by decide⟩

/-! ## The second input relative to the first one -/

/-- A sum of two `int`s that is cut to an `int`. -/
theorem toCInt_add_eq_iff {a b d : Int} (ha : InInt a) (hb : InInt b) :
    toCInt (longLong (a + d)) = b + d ↔ a = b ∧ InInt (b + d) := by
  have hlong : toCInt (longLong (a + d)) = toCInt (a + d) := Int.bmod_bmod_of_dvd (by decide)
  rw [hlong]
  constructor
  · intro heq
    have hin := toCInt_inInt (a + d)
    have hdvd : (2 ^ 32 : Int) ∣ (a + d) - (b + d) := by
      rw [← heq]
      exact_mod_cast Int.dvd_self_sub_bmod
    obtain ⟨q, hq⟩ := hdvd
    rw [heq] at hin
    unfold InInt at ha hb
    exact ⟨by omega, hin⟩
  · rintro ⟨rfl, hin⟩
    exact toCInt_of_inInt hin

/-- The input numbers of one call, when the first range refers to the file and the second one is an offset. -/
theorem skiInputForkInit_inputNumber {s t : InputState} {newInput : Bool} (h : s.Accepted)
    (hcall : skiInputForkInit s = some (t, newInput)) (hin : s.input1Range.iterator < s.input1Range.rangeN)
    (hsingle : s.input1Range.fromFileSingle = true) (hrel : s.input2Range.relative = true)
    (hplain : s.input2Range.fromFileSingle = false) :
    t.inputNumber = (toCInt (s.inputFile (clamp s.inputFileN s.input1Range.value)),
      toCInt (longLong (s.inputFile (s.input1Range.value.tmod s.inputFileN) + s.input2Range.value))) := by
  have hn := h.file_loaded hsingle
  have h₀ : skiInputGetCurrent s s.input1Range 0 = some (s.inputFile (clamp s.inputFileN s.input1Range.value)) := by
    rw [skiInputGetCurrent, if_pos hsingle, if_pos hn, clamp]
  have h₁ : secondInput s
      = some (longLong (s.inputFile (s.input1Range.value.tmod s.inputFileN) + s.input2Range.value)) := by
    simp [secondInput, skiInputGetCurrentRelative, hrel, h.range1_not_relative, hsingle, hplain, hn]
  rw [skiInputForkInit, if_neg (Nat.not_le.mpr hin), h₀, h₁] at hcall
  cases hcall
  rfl

/-- **When the second input is the first one plus the offset** (case 1 of the comment), for a test whose file index is
    not negative: the line that the remainder of the index names must have the number of the line that the index
    itself, or the end of the file, names; and the sum must be an `int`. -/
theorem relative_offset_iff {c : InputConfig} {m : Memory} {s : InputState} (h : c.AcceptedAs m s)
    (hsingle : s.input1Range.fromFileSingle = true) (hrel : s.input2Range.relative = true)
    (hplain : s.input2Range.fromFileSingle = false) {k : Nat} {before after : InputState} {newInput : Bool}
    (hk : forkInitCalls s k = some before) (hcall : skiInputForkInit before = some (after, newInput))
    (hin : before.input1Range.iterator < before.input1Range.rangeN) (hpos : 0 ≤ before.input1Range.value) :
    after.inputNumber.2 = after.inputNumber.1 + before.input2Range.value ↔
      s.inputFile (before.input1Range.value % s.inputFileN)
          = s.inputFile (min before.input1Range.value (s.inputFileN - 1)) ∧
        InInt (s.inputFile (min before.input1Range.value (s.inputFileN - 1)) + before.input2Range.value) := by
  obtain ⟨hload, total, hinit⟩ := h
  have hloaded := InputConfig.load_loaded hload
  have hacc := (skiInputInit_some hinit).1
  have hn := hacc.file_loaded hsingle
  -- the calls before change neither the ranges nor the file
  obtain ⟨w, hw, -⟩ := exists_covering_walk hacc
  obtain ⟨sel, hk'⟩ := forkInitCalls_walk hw hacc hloaded.positions k
  obtain rfl := Option.some.inj (hk'.symm.trans hk)
  have hnumber := skiInputForkInit_inputNumber (hacc.forkInitCalls hk) hcall hin hsingle hrel hplain
  rw [hnumber]
  generalize ((s.atPositions (w (min k s.space))).select sel).input1Range.value = v at hpos ⊢
  have hclamp : clamp s.inputFileN v = min v (s.inputFileN - 1) := by
    unfold clamp
    split_ifs <;> omega
  have hfirst := hloaded.entries (min v (s.inputFileN - 1)) (by omega) (by omega)
  have hbase := hloaded.entries (v % s.inputFileN) (Int.emod_nonneg _ (by omega)) (Int.emod_lt_of_pos _ hn)
  change toCInt (longLong (s.inputFile (v.tmod s.inputFileN) + _)) = toCInt (s.inputFile (clamp s.inputFileN v)) + _ ↔ _
  rw [hclamp, Int.tmod_eq_emod_of_nonneg hpos, toCInt_of_inInt hfirst]
  exact toCInt_add_eq_iff hbase hfirst

theorem load_ten_twenty : skiInputLoadInputFile (some ['1', '0', '\n', '2', '0']) = some [10, 20] := by
  have hload : loadEntries sscanfInt skiInputFileMax ['1', '0', '\n', '2', '0'] [] = some [10, 20] := by
    have hline₀ : fgets (512 - 1) ['1', '0', '\n', '2', '0'] = some (['1', '0', '\n'], ['2', '0']) := by decide
    have hline₁ : fgets (512 - 1) ['2', '0'] = some (['2', '0'], []) := by decide
    rw [loadEntries_line hline₀ (show sscanfInt ['1', '0'] = some 10 by decide) (by decide),
      loadEntries_line hline₁ (show sscanfInt ['2', '0'] = some 20 by decide) (by decide), loadEntries_nil]
    rfl
  rw [skiInputLoadInputFile, loadFile, hload]
  rfl

theorem relative_offset_second_line : ∃ after : InputState,
    skiInputForkInit (oneTestState ⟨false, true, false⟩ ⟨false, false, true⟩ 1 5 [10, 20]) = some (after, true) ∧
      after.inputNumber.2 = after.inputNumber.1 + 5 := by
  have hfirst : scanField (scanFlags ['@', '1']).2 = some (.single 1, []) := by decide
  have hsecond : scanField (scanFlags ['+', '5']).2 = some (.single 5, []) := by decide
  have hload := oneTest_load hfirst hsecond load_ten_twenty
  have hk : forkInitCalls (oneTestState ⟨false, true, false⟩ ⟨false, false, true⟩ 1 5 [10, 20]) 0
      = some (oneTestState ⟨false, true, false⟩ ⟨false, false, true⟩ 1 5 [10, 20]) := rfl
  obtain ⟨after, hcall⟩ : ∃ after : InputState,
      skiInputForkInit (oneTestState ⟨false, true, false⟩ ⟨false, false, true⟩ 1 5 [10, 20]) = some (after, true) :=
    ⟨_, rfl⟩
  refine ⟨after, hcall, ?_⟩
  exact (relative_offset_iff ⟨hload, 1, by decide⟩ rfl rfl rfl hk hcall (by decide) (by decide)).mpr (by decide)

/-- The line after the last one: the first input is that of the last line, the second one counts from the first. -/
theorem relative_offset_past_end : ∃ s after : InputState,
    (oneTest ['@', '2'] ['+', '5'] ['1', '0', '\n', '2', '0']).AcceptedAs ⟨fun _ => 0, fun _ => (0, 0)⟩ s ∧
      s.input1Range.value = 2 ∧ s.input2Range.value = 5 ∧
      skiInputForkInit s = some (after, true) ∧ after.inputNumber = (20, 15) := by
  have hfirst : scanField (scanFlags ['@', '2']).2 = some (.single 2, []) := by decide
  have hsecond : scanField (scanFlags ['+', '5']).2 = some (.single 5, []) := by decide
  have hload := oneTest_load hfirst hsecond load_ten_twenty
  exact ⟨_, _, ⟨hload, 1, by decide⟩, by decide, by decide, rfl, by decide⟩

end SkiVmm.Forkall
