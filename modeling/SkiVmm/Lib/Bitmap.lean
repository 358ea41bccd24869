import Mathlib.Data.List.Basic

/-!
# `Lib.Bitmap` — a set of numbers kept in words

A set of numbers below `w * n`, as `n` words of `w` bits. Members are added and removed by masks, and the largest
member is found by looking at the words from the last one down, and for the first one in the first word that is
not zero.

* `get_set`, `get_reset`: a change is seen at one number only.
* `highest_eq_some_iff`, `highest_eq_none_iff`: what is found is the largest member.
-/

namespace SkiVmm.Lib

variable {w n : Nat}

structure Bitmap (w n : Nat) where
  words : List (BitVec w)
  length_words : words.length = n
  deriving DecidableEq

/-- The empty set. -/
def Bitmap.zero (w n : Nat) : Bitmap w n := ⟨List.replicate n 0#w, List.length_replicate⟩

def Bitmap.set (b : Bitmap w n) (i : Nat) : Bitmap w n where
  words := b.words.modify (i / w) (· ||| BitVec.twoPow w (i % w))
  length_words := by rw [List.length_modify, b.length_words]

def Bitmap.reset (b : Bitmap w n) (i : Nat) : Bitmap w n where
  words := b.words.modify (i / w) (· &&& ~~~BitVec.twoPow w (i % w))
  length_words := by rw [List.length_modify, b.length_words]

def Bitmap.get (b : Bitmap w n) (i : Nat) : Bool := b.words[i / w]?.getD 0#w &&& BitVec.twoPow w (i % w) ≠ 0#w

/-- The place of the highest bit of a word that is not zero. -/
def highestBit (x : BitVec w) : Nat := w - 1 - x.clz.toNat

/-- The highest bit of a list of words, the last word being the most significant one. -/
def highestOf : List (BitVec w) → Option Nat
  | [] => none
  | x :: xs =>
    match highestOf xs with
    | some i => some (w + i)
    | none => if x ≠ 0#w then some (highestBit x) else none

def Bitmap.highest (b : Bitmap w n) : Option Nat := highestOf b.words

/-! ## Members -/

section Members
variable {b : Bitmap w n} {i j : Nat}

theorem twoPow_ne_zero {k : Nat} (h : k < w) : BitVec.twoPow w k ≠ 0#w := by
  intro hzero
  have hbit := congrArg (·.getLsbD k) hzero
  simp [h] at hbit

theorem Bitmap.get_eq (hw : 0 < w) (b : Bitmap w n) (i : Nat) :
    b.get i = (b.words[i / w]?.getD 0#w).getLsbD (i % w) := by
  have hpow := twoPow_ne_zero (Nat.mod_lt i hw)
  unfold Bitmap.get
  rw [BitVec.and_twoPow]
  split_ifs with hbit
  · rw [hbit, decide_eq_true hpow]
  · simpa using hbit

/-- Members are below the size of the bitmap. -/
theorem Bitmap.lt_of_get (hw : 0 < w) (h : b.get i = true) : i < w * n := by
  by_contra hle
  have hwords : b.words.length ≤ i / w := by
    rw [b.length_words, Nat.le_div_iff_mul_le hw, Nat.mul_comm]
    exact Nat.not_lt.mp hle
  rw [Bitmap.get_eq hw, List.getElem?_eq_none hwords] at h
  simp at h

/-- Two numbers with the same word and the same bit are equal. -/
theorem eq_iff_div_mod (i j w : Nat) : i = j ↔ i / w = j / w ∧ i % w = j % w := by
  constructor
  · rintro rfl
    exact ⟨rfl, rfl⟩
  · rintro ⟨hdiv, hmod⟩
    rw [← Nat.div_add_mod i w, ← Nat.div_add_mod j w, hdiv, hmod]

theorem Bitmap.div_lt (b : Bitmap w n) (hi : i < w * n) : i / w < b.words.length := by
  rw [b.length_words]
  exact Nat.div_lt_of_lt_mul hi

/-- The word of `j` after a change of the word of `i`. -/
theorem Bitmap.getD_modify (b : Bitmap w n) (f : BitVec w → BitVec w) (hi : i < w * n) (j : Nat) :
    (b.words.modify (i / w) f)[j / w]?.getD 0#w =
      if i / w = j / w then f (b.words[j / w]?.getD 0#w) else b.words[j / w]?.getD 0#w := by
  rw [List.getElem?_modify]
  split_ifs with hword
  · rw [← hword, List.getElem?_eq_getElem (b.div_lt hi)]
    rfl
  · simp

/-- **Adding a member.** -/
theorem Bitmap.get_set (hw : 0 < w) (b : Bitmap w n) (hi : i < w * n) (j : Nat) :
    (b.set i).get j = (decide (i = j) || b.get j) := by
  have hlt := Nat.mod_lt i hw
  rw [Bitmap.get_eq hw, Bitmap.get_eq hw, Bitmap.set, b.getD_modify _ hi]
  simp only [eq_iff_div_mod i j w]
  split_ifs with hword
  · simp [BitVec.getLsbD_or, BitVec.getLsbD_twoPow, hlt, hword, Bool.or_comm]
  · simp [hword]

/-- **Removing a member.** -/
theorem Bitmap.get_reset (hw : 0 < w) (b : Bitmap w n) (hi : i < w * n) (j : Nat) :
    (b.reset i).get j = (!decide (i = j) && b.get j) := by
  have hlt := Nat.mod_lt i hw
  have hltj := Nat.mod_lt j hw
  rw [Bitmap.get_eq hw, Bitmap.get_eq hw, Bitmap.reset, b.getD_modify _ hi]
  simp only [eq_iff_div_mod i j w]
  split_ifs with hword
  · rw [BitVec.getLsbD_and, BitVec.getLsbD_not, BitVec.getLsbD_twoPow, Bool.and_comm]
    simp only [hlt, hltj, hword, decide_true, Bool.true_and, true_and]
  · simp [hword]

end Members

/-! ## The largest member -/

theorem getLsbD_highestBit (hw : 0 < w) {x : BitVec w} (h : x ≠ 0#w) : x.getLsbD (highestBit x) = true :=
  BitVec.getLsbD_true_clz_of_ne_zero hw h

theorem highestBit_lt (hw : 0 < w) (x : BitVec w) : highestBit x < w := by
  unfold highestBit
  omega

theorem le_highestBit {x : BitVec w} {i : Nat} (h : x.getLsbD i = true) : i ≤ highestBit x := by
  by_contra hlt
  have hlt : w - x.clz.toNat ≤ i := by
    unfold highestBit at hlt
    omega
  have hsmall : x.toNat < 2 ^ i :=
    Nat.lt_of_lt_of_le BitVec.toNat_lt_two_pow_sub_clz (Nat.pow_le_pow_right (by decide) hlt)
  rw [← BitVec.testBit_toNat, Nat.testBit_lt_two_pow hsmall] at h
  cases h

/-- The bit `i` of a list of words. -/
def bitOf (xs : List (BitVec w)) (i : Nat) : Bool := (xs[i / w]?.getD 0#w).getLsbD (i % w)

theorem bitOf_cons_lt {x : BitVec w} {xs : List (BitVec w)} {i : Nat} (h : i < w) :
    bitOf (x :: xs) i = x.getLsbD i := by
  unfold bitOf
  rw [Nat.div_eq_of_lt h, Nat.mod_eq_of_lt h]
  rfl

theorem bitOf_cons_add (hw : 0 < w) (x : BitVec w) (xs : List (BitVec w)) (i : Nat) :
    bitOf (x :: xs) (w + i) = bitOf xs i := by
  unfold bitOf
  rw [Nat.add_div_left i hw, Nat.add_mod_left]
  rfl

/-- Each bit of a list of words is in the first word or behind it. -/
theorem bitOf_cons_iff (hw : 0 < w) {x : BitVec w} {xs : List (BitVec w)} {i : Nat} :
    bitOf (x :: xs) i = true ↔
      (i < w ∧ x.getLsbD i = true) ∨ ∃ j, i = w + j ∧ bitOf xs j = true := by
  by_cases hi : i < w
  · rw [bitOf_cons_lt hi]
    constructor
    · intro h
      exact .inl ⟨hi, h⟩
    · rintro (⟨-, h⟩ | ⟨j, rfl, -⟩)
      · exact h
      · omega
  · obtain ⟨j, rfl⟩ := Nat.exists_eq_add_of_le (Nat.not_lt.mp hi)
    rw [bitOf_cons_add hw]
    constructor
    · intro h
      exact .inr ⟨j, rfl, h⟩
    · rintro (⟨hlt, -⟩ | ⟨k, hk, h⟩)
      · exact absurd hlt hi
      · rwa [Nat.add_left_cancel hk]

theorem highestOf_eq_none_iff (hw : 0 < w) {xs : List (BitVec w)} :
    highestOf xs = none ↔ ∀ i, bitOf xs i = false := by
  induction xs with
  | nil => simp [highestOf, bitOf]
  | cons x xs ih =>
    unfold highestOf
    cases hrest : highestOf xs with
    | some i =>
      rw [hrest] at ih
      simp only [reduceCtorEq, false_iff] at ih ⊢
      intro hall
      refine ih fun j => ?_
      rw [← bitOf_cons_add hw x xs j]
      exact hall (w + j)
    | none =>
      have hxs := ih.mp hrest
      by_cases hx : x = 0#w
      · subst hx
        simp only [ne_eq, not_true_eq_false, if_false, true_iff]
        intro i
        rw [← Bool.not_eq_true, bitOf_cons_iff hw]
        rintro (⟨-, h⟩ | ⟨j, -, h⟩)
        · simp at h
        · rw [hxs j] at h
          cases h
      · simp only [ne_eq, hx, not_false_eq_true, if_true, reduceCtorEq, false_iff]
        intro hall
        have hbit := hall (highestBit x)
        rw [bitOf_cons_lt (highestBit_lt hw x), getLsbD_highestBit hw hx] at hbit
        cases hbit

theorem highestOf_spec (hw : 0 < w) {xs : List (BitVec w)} {i : Nat} (h : highestOf xs = some i) :
    bitOf xs i = true ∧ ∀ j, bitOf xs j = true → j ≤ i := by
  induction xs generalizing i with
  | nil => cases h
  | cons x xs ih =>
    unfold highestOf at h
    cases hrest : highestOf xs with
    | some k =>
      rw [hrest] at h
      obtain rfl := Option.some.inj h
      obtain ⟨hbit, hmax⟩ := ih hrest
      refine ⟨(bitOf_cons_add hw x xs k).trans hbit, ?_⟩
      intro j hj
      rcases (bitOf_cons_iff hw).mp hj with ⟨hlt, -⟩ | ⟨l, rfl, hl⟩
      · omega
      · have hle := hmax l hl
        omega
    | none =>
      rw [hrest] at h
      have hxs := (highestOf_eq_none_iff hw).mp hrest
      simp only [ne_eq, ite_not, Option.ite_none_left_eq_some, Option.some.injEq] at h
      obtain ⟨hx, rfl⟩ := h
      refine ⟨(bitOf_cons_lt (highestBit_lt hw x)).trans (getLsbD_highestBit hw hx), ?_⟩
      intro j hj
      rcases (bitOf_cons_iff hw).mp hj with ⟨-, hbit⟩ | ⟨l, -, hl⟩
      · exact le_highestBit hbit
      · rw [hxs l] at hl
        cases hl

/-- **Nothing is found in the empty set only.** -/
theorem Bitmap.highest_eq_none_iff (hw : 0 < w) {b : Bitmap w n} : b.highest = none ↔ ∀ i, b.get i = false := by
  simp only [Bitmap.get_eq hw]
  exact highestOf_eq_none_iff hw

/-- **What is found is the largest member.** -/
theorem Bitmap.highest_eq_some_iff (hw : 0 < w) {b : Bitmap w n} {i : Nat} :
    b.highest = some i ↔ b.get i = true ∧ ∀ j, b.get j = true → j ≤ i := by
  have hspec {k : Nat} (hk : b.highest = some k) : b.get k = true ∧ ∀ j, b.get j = true → j ≤ k := by
    simp only [Bitmap.get_eq hw]
    exact highestOf_spec hw hk
  constructor
  · exact hspec
  · rintro ⟨hbit, hmax⟩
    cases hfound : b.highest with
    | none =>
      rw [(Bitmap.highest_eq_none_iff hw).mp hfound i] at hbit
      cases hbit
    | some k =>
      obtain ⟨hk, hkmax⟩ := hspec hfound
      rw [Nat.le_antisymm (hmax k hk) (hkmax i hbit)]

end SkiVmm.Lib
