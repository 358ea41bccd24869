import Mathlib.Algebra.Group.Nat.Defs
import Mathlib.Algebra.Ring.Int.Defs
import Mathlib.Data.List.Basic
import Mathlib.Data.List.Perm.Basic

/-!
# `Lib.Text` — C strings, lines, and shuffles

* A pointer into a string is the rest of the string from there: `afterChar` is `strchr` plus one, `skipLiteral` steps
  over a literal, `sscanfInt` and `sscanfHex` are `sscanf` with `%d` and `%x`, `strtoll` also says where the number
  ends.
* `fgets` reads up to a newline, or as much as fits into the buffer.
* `shuffle` is the Fisher–Yates loop on a final part of an array, for any source of random numbers.
-/

namespace SkiVmm.Lib

/-! ## Strings -/

/-- What follows the first `c`. -/
def afterChar (c : Char) : List Char → Option (List Char)
  | [] => none
  | x :: s => if x = c then some s else afterChar c s

theorem afterChar_append {c : Char} {a : List Char} (ha : c ∉ a) (s : List Char) :
    afterChar c (a ++ s) = afterChar c s := by
  induction a with
  | nil => rfl
  | cons x a ih =>
    have hx : x ≠ c := fun heq => ha (heq ▸ List.mem_cons_self)
    rw [List.cons_append, afterChar, if_neg hx, ih fun hmem => ha (List.mem_cons_of_mem x hmem)]

theorem afterChar_eq_none_iff {c : Char} {s : List Char} : afterChar c s = none ↔ c ∉ s := by
  induction s with
  | nil => simp [afterChar]
  | cons x s ih =>
    unfold afterChar
    split
    · next heq => simp [heq]
    · next hne => simp [ih, Ne.symm hne]

/-- What comes before the first `c`. -/
theorem exists_append_of_afterChar {c : Char} {s r : List Char} (h : afterChar c s = some r) :
    ∃ a, c ∉ a ∧ s = a ++ c :: r := by
  induction s with
  | nil => cases h
  | cons x s ih =>
    unfold afterChar at h
    split at h
    · next heq =>
      cases h
      exact ⟨[], List.not_mem_nil, by rw [heq, List.nil_append]⟩
    · next hne =>
      obtain ⟨a, ha, rfl⟩ := ih h
      exact ⟨x :: a, by simp [ha, Ne.symm hne], rfl⟩

theorem length_afterChar_lt {c : Char} {s r : List Char} (h : afterChar c s = some r) : r.length < s.length := by
  obtain ⟨a, -, rfl⟩ := exists_append_of_afterChar h
  rw [List.length_append, List.length_cons]
  omega

/-- What follows the literal, when the string starts with it. -/
def skipLiteral : List Char → List Char → Option (List Char)
  | [], s => some s
  | _ :: _, [] => none
  | a :: lit, b :: s => if a = b then skipLiteral lit s else none

theorem skipLiteral_append (lit s : List Char) : skipLiteral lit (lit ++ s) = some s := by
  induction lit with
  | nil => cases s <;> rfl
  | cons a lit ih => rw [List.cons_append, skipLiteral, if_pos rfl, ih]

theorem eq_append_of_skipLiteral {lit s r : List Char} (h : skipLiteral lit s = some r) : s = lit ++ r := by
  induction lit generalizing s with
  | nil => exact Option.some.inj h
  | cons a lit ih =>
    cases s with
    | nil => cases h
    | cons b s =>
      unfold skipLiteral at h
      split at h
      · next heq => rw [← heq, ih h, List.cons_append]
      · cases h

/-- The texts with `sep` between them, and after the last one when `final` is set. -/
def joinWith (sep : Char) (final : Bool) : List (List Char) → List Char
  | [] => []
  | [a] => if final then a ++ [sep] else a
  | a :: b :: l => a ++ sep :: joinWith sep final (b :: l)

/-- The two ways a joined text goes on after its first part: it ends there, or a separator follows. -/
theorem joinWith_cons (sep : Char) (final : Bool) (a : List Char) (l : List (List Char)) :
    joinWith sep final (a :: l) = a ∧ l = [] ∧ final = false ∨
      joinWith sep final (a :: l) = a ++ sep :: joinWith sep final l := by
  cases l with
  | nil => cases final <;> simp [joinWith]
  | cons b l => exact .inr rfl

theorem mem_joinWith {sep c : Char} {final : Bool} {l : List (List Char)} (h : c ∈ joinWith sep final l) :
    c = sep ∨ ∃ a ∈ l, c ∈ a := by
  induction l with
  | nil => cases h
  | cons a l ih =>
    rcases joinWith_cons sep final a l with ⟨heq, -, -⟩ | heq <;> rw [heq] at h
    · exact .inr ⟨a, List.mem_cons_self, h⟩
    · rcases List.mem_append.mp h with hc | hc
      · exact .inr ⟨a, List.mem_cons_self, hc⟩
      · rcases List.mem_cons.mp hc with rfl | hc
        · exact .inl rfl
        · refine (ih hc).imp_right ?_
          rintro ⟨b, hb, hcb⟩
          exact ⟨b, List.mem_cons_of_mem a hb, hcb⟩

/-! ## Numbers -/

/-- `isspace` -/
def isSpace (c : Char) : Bool := c = ' ' || (9 ≤ c.toNat && c.toNat ≤ 13)

def digitsValue (digits : List Char) : Nat := digits.foldl (fun v c => 10 * v + (c.toNat - 48)) 0

/-- The sign of a number, if there is one. -/
def readSign : List Char → Bool × List Char
  | [] => (false, [])
  | c :: s => if c = '-' then (true, s) else if c = '+' then (false, s) else (false, c :: s)

def signedValue (negative : Bool) (digits : List Char) : Int :=
  if negative then -(digitsValue digits : Int) else digitsValue digits

/-- The range of `int`. -/
def InInt (value : Int) : Prop := -2147483648 ≤ value ∧ value ≤ 2147483647

instance (value : Int) : Decidable (InInt value) := inferInstanceAs (Decidable (_ ∧ _))

/-- The number of type `long` that `strtol` returns. -/
def saturate (value : Int) : Int :=
  if value < -9223372036854775808 then -9223372036854775808
  else if 9223372036854775807 < value then 9223372036854775807
  else value

/-- `sscanf` with `%d`: the number at the start of the string, read as by `strtol` and cut to an `int`. -/
def sscanfInt (s : List Char) : Option Int :=
  let (negative, s) := readSign (s.dropWhile isSpace)
  let digits := s.takeWhile Char.isDigit
  if digits = [] then none
  else
    some ((saturate (signedValue negative digits)).bmod (2 ^ 32))

/-- `strtoll` with base 10: the number and where it ends, or `none` when there is no number. -/
def strtoll (s : List Char) : Option (Int × List Char) :=
  let (negative, s) := readSign (s.dropWhile isSpace)
  let digits := s.takeWhile Char.isDigit
  if digits = [] then none
  else some (saturate (signedValue negative digits), s.dropWhile Char.isDigit)

theorem length_readSign_le (s : List Char) : (readSign s).2.length ≤ s.length := by
  unfold readSign
  split
  · exact Nat.le_refl _
  · split_ifs
    · exact Nat.le_succ _
    · exact Nat.le_succ _
    · exact Nat.le_refl _

theorem length_strtoll_lt {s r : List Char} {d : Int} (h : strtoll s = some (d, r)) : r.length < s.length := by
  unfold strtoll at h
  simp only at h
  split at h
  · cases h
  · next hne =>
    cases h
    have hsign := length_readSign_le (s.dropWhile isSpace)
    have hspace := (List.dropWhile_suffix (l := s) isSpace).length_le
    have hsplit := congrArg List.length
      (List.takeWhile_append_dropWhile (p := Char.isDigit) (l := (readSign (s.dropWhile isSpace)).2))
    have hpos := List.length_pos_iff.mpr hne
    rw [List.length_append] at hsplit
    omega

theorem saturate_bounds (value : Int) : -2 ^ 63 ≤ saturate value ∧ saturate value < 2 ^ 63 := by
  unfold saturate
  split_ifs <;> omega

theorem strtoll_bounds {s r : List Char} {d : Int} (h : strtoll s = some (d, r)) : -2 ^ 63 ≤ d ∧ d < 2 ^ 63 := by
  unfold strtoll at h
  simp only at h
  split at h
  · cases h
  · cases h
    exact saturate_bounds _

theorem isDigit_range {c : Char} (h : c.isDigit = true) : 48 ≤ c.toNat ∧ c.toNat ≤ 57 := by
  simp only [Char.isDigit, Bool.and_eq_true, decide_eq_true_eq] at h
  exact ⟨h.1, h.2⟩

theorem isSpace_of_isDigit {c : Char} (h : c.isDigit = true) : isSpace c = false := by
  have := isDigit_range h
  unfold isSpace
  have hne : c ≠ ' ' := by
    rintro rfl
    cases h
  simp only [hne, decide_false, Bool.false_or]
  simp
  omega

/-- `sscanf` stops at the first character that belongs to no number. -/
theorem sscanfInt_append_cons (p : List Char) {c : Char} (hspace : isSpace c = false) (hdigit : c.isDigit = false)
    (hsign : c ≠ '-' ∧ c ≠ '+') (r : List Char) : sscanfInt (p ++ c :: r) = sscanfInt p := by
  have hdigits : ∀ x : List Char, (x ++ c :: r).takeWhile Char.isDigit = x.takeWhile Char.isDigit := by
    intro x
    induction x with
    | nil => simp [hdigit]
    | cons d x ih => rw [List.cons_append, List.takeWhile_cons, List.takeWhile_cons, ih]
  have hdrop : (p ++ c :: r).dropWhile isSpace = p.dropWhile isSpace ++ c :: r := by
    rw [List.dropWhile_append]
    split
    · next hnil => simp_all
    · rfl
  have hread : ∀ x : List Char, readSign (x ++ c :: r) = ((readSign x).1, (readSign x).2 ++ c :: r) := by
    intro x
    cases x with
    | nil => simp [readSign, hsign]
    | cons d x =>
      unfold readSign
      rw [List.cons_append]
      dsimp only
      split_ifs <;> rfl
  unfold sscanfInt
  simp only [hdrop, hread, hdigits]

/-- A number without a sign and without blanks before it. -/
theorem readSign_cons {d : Char} (hspace : ¬isSpace d = true) (hminus : d ≠ '-') (hplus : d ≠ '+') (s : List Char) :
    readSign ((d :: s).dropWhile isSpace) = (false, d :: s) := by
  rw [List.dropWhile_cons_of_neg hspace, readSign, if_neg hminus, if_neg hplus]

section Digits
variable {digits : List Char} (hdigits : ∀ c ∈ digits, c.isDigit = true) {s : List Char}
  (hs : ∀ c ∈ s.head?, c.isDigit = false)
include hdigits

/-- The sign of a number, and its digits. -/
theorem readSign_append (negative : Bool) (hne : digits ≠ []) (s : List Char) :
    readSign (((if negative then ['-'] else []) ++ (digits ++ s)).dropWhile isSpace) = (negative, digits ++ s) := by
  obtain ⟨d, ds, rfl⟩ := List.exists_cons_of_ne_nil hne
  have hd := hdigits d List.mem_cons_self
  have hminus : d ≠ '-' := by
    rintro rfl
    cases hd
  have hplus : d ≠ '+' := by
    rintro rfl
    cases hd
  cases negative with
  | true => rfl
  | false =>
    simp only [Bool.false_eq_true, if_false, List.nil_append, List.cons_append]
    exact readSign_cons (by simp [isSpace_of_isDigit hd]) hminus hplus _

include hs

theorem takeWhile_digits_append : (digits ++ s).takeWhile Char.isDigit = digits := by
  rw [List.takeWhile_append_of_pos hdigits]
  cases s with
  | nil => simp
  | cons c s =>
    have hc := hs c rfl
    simp [hc]

theorem dropWhile_digits_append : (digits ++ s).dropWhile Char.isDigit = s := by
  rw [List.dropWhile_append_of_pos hdigits]
  cases s with
  | nil => rfl
  | cons c s =>
    have hc := hs c rfl
    simp [hc]

/-- A number of the range of `int` is read up to the first character that is not a digit. -/
theorem sscanfInt_append {negative : Bool} (hne : digits ≠ []) (hrange : InInt (signedValue negative digits)) :
    sscanfInt ((if negative then ['-'] else []) ++ (digits ++ s)) = some (signedValue negative digits) := by
  obtain ⟨hmin, hmax⟩ := hrange
  unfold sscanfInt
  simp only [readSign_append hdigits negative hne s, takeWhile_digits_append hdigits hs]
  rw [if_neg hne, saturate, if_neg (by omega), if_neg (by omega), Int.bmod_eq_of_le (by omega) (by omega)]

/-- A number of the range of `long long` is read up to the first character that is not a digit. -/
theorem strtoll_append (hne : digits ≠ []) (hrange : digitsValue digits ≤ 9223372036854775807) :
    strtoll (digits ++ s) = some ((digitsValue digits : Int), s) := by
  have hsign : readSign ((digits ++ s).dropWhile isSpace) = (false, digits ++ s) :=
    readSign_append hdigits false hne s
  unfold strtoll
  simp only [hsign, takeWhile_digits_append hdigits hs, dropWhile_digits_append hdigits hs]
  rw [if_neg hne, signedValue, if_neg Bool.false_ne_true, saturate, if_neg (by omega), if_neg (by omega)]

end Digits

/-! ## Hexadecimal numbers -/

/-- `isxdigit` -/
def isHexDigit (c : Char) : Bool :=
  (48 ≤ c.toNat && c.toNat ≤ 57) || (65 ≤ c.toNat && c.toNat ≤ 70) || (97 ≤ c.toNat && c.toNat ≤ 102)

def hexDigitValue (c : Char) : Nat :=
  if c.toNat ≤ 57 then c.toNat - 48 else if c.toNat ≤ 70 then c.toNat - 55 else c.toNat - 87

def hexValue (digits : List Char) : Nat := digits.foldl (fun v c => 16 * v + hexDigitValue c) 0

/-- The `0x` before a number, of which the `0` counts as a digit. -/
def skipHexPrefix : List Char → List Char
  | c :: d :: s => if c = '0' ∧ (d = 'x' ∨ d = 'X') then c :: s else c :: d :: s
  | s => s

/-- `sscanf` with `%x`: the number at the start of the string, read as by `strtoul` and cut to an `int`. -/
def sscanfHex (s : List Char) : Option Int :=
  let (negative, s) := readSign (s.dropWhile isSpace)
  let digits := (skipHexPrefix s).takeWhile isHexDigit
  if digits = [] then none
  else
    let value : Int :=
      if 2 ^ 64 ≤ hexValue digits then 2 ^ 64 - 1 else if negative then -(hexValue digits : Int) else hexValue digits
    some (value.bmod (2 ^ 32))

theorem isHexDigit_range {c : Char} (h : isHexDigit c = true) :
    (48 ≤ c.toNat ∧ c.toNat ≤ 57) ∨ (65 ≤ c.toNat ∧ c.toNat ≤ 70) ∨ (97 ≤ c.toNat ∧ c.toNat ≤ 102) := by
  simp only [isHexDigit, Bool.or_eq_true, Bool.and_eq_true, decide_eq_true_eq] at h
  omega

theorem isSpace_range {c : Char} (h : isSpace c = true) : c.toNat = 32 ∨ 9 ≤ c.toNat ∧ c.toNat ≤ 13 := by
  simp only [isSpace, Bool.or_eq_true, Bool.and_eq_true, decide_eq_true_eq] at h
  exact h.imp_left fun hc => congrArg Char.toNat hc

theorem ne_of_isHexDigit {c d : Char} (h : isHexDigit c = true) (hd : isHexDigit d = false) : c ≠ d := by
  rintro rfl
  rw [h] at hd
  cases hd

theorem isHexDigit_of_isSpace {c : Char} (h : isSpace c = true) : isHexDigit c = false := by
  rw [Bool.eq_false_iff]
  intro hhex
  have hspace := isSpace_range h
  have hrange := isHexDigit_range hhex
  omega

theorem dropWhile_isSpace_append {before : List Char} (h : ∀ c ∈ before, isSpace c = true) (s : List Char) :
    (before ++ s).dropWhile isSpace = s.dropWhile isSpace := List.dropWhile_append_of_pos h

/-- No number can be read from blanks. -/
theorem sscanfHex_blank {s : List Char} (h : ∀ c ∈ s, isSpace c = true) : sscanfHex s = none := by
  have hdrop : s.dropWhile isSpace = [] := by
    have happend := dropWhile_isSpace_append h []
    rwa [List.append_nil] at happend
  unfold sscanfHex
  rw [hdrop]
  rfl

section HexDigits
variable {digits after : List Char} (hdigits : ∀ c ∈ digits, isHexDigit c = true)
  (hafter : ∀ c ∈ after, isSpace c = true)
include hdigits

theorem readSign_hexDigits (zeroX : Bool) (hne : digits ≠ []) (after : List Char) :
    readSign (((if zeroX then ['0', 'x'] else []) ++ (digits ++ after)).dropWhile isSpace)
      = (false, (if zeroX then ['0', 'x'] else []) ++ (digits ++ after)) := by
  obtain ⟨d, ds, rfl⟩ := List.exists_cons_of_ne_nil hne
  have hd := hdigits d List.mem_cons_self
  cases zeroX with
  | true => rfl
  | false =>
    simp only [Bool.false_eq_true, if_false, List.nil_append, List.cons_append]
    exact readSign_cons (fun h => ne_of_isHexDigit hd (isHexDigit_of_isSpace h) rfl) (ne_of_isHexDigit hd rfl)
      (ne_of_isHexDigit hd rfl) _

include hafter

theorem takeWhile_hexDigits_append : (digits ++ after).takeWhile isHexDigit = digits := by
  rw [List.takeWhile_append_of_pos hdigits]
  cases after with
  | nil => simp
  | cons c after =>
    have hc := isHexDigit_of_isSpace (hafter c List.mem_cons_self)
    simp [hc]

/-- The digits of a number with or without `0x`, which adds a digit 0. -/
theorem takeWhile_skipHexPrefix (zeroX : Bool) (hne : digits ≠ []) :
    (skipHexPrefix ((if zeroX then ['0', 'x'] else []) ++ (digits ++ after))).takeWhile isHexDigit
      = (if zeroX then ['0'] else []) ++ digits := by
  have htake := takeWhile_hexDigits_append hdigits hafter
  obtain ⟨d, ds, rfl⟩ := List.exists_cons_of_ne_nil hne
  cases zeroX with
  | true =>
    show ('0' :: (d :: ds ++ after)).takeWhile isHexDigit = '0' :: d :: ds
    rw [List.takeWhile_cons_of_pos rfl, htake]
  | false =>
    have hskip : skipHexPrefix (d :: ds ++ after) = d :: ds ++ after := by
      rw [List.cons_append]
      -- the second character is a digit or a blank, and no `x`
      rcases hrest : ds ++ after with _ | ⟨e, es⟩
      · rfl
      · have he : isHexDigit e = true ∨ isSpace e = true := by
          have hmem : e ∈ ds ++ after := hrest ▸ List.mem_cons_self
          exact (List.mem_append.mp hmem).imp (fun h => hdigits e (List.mem_cons_of_mem d h)) (hafter e)
        have hx : ¬(e = 'x' ∨ e = 'X') := by
          rintro (rfl | rfl) <;> rcases he with he | he <;> cases he
        rw [skipHexPrefix, if_neg fun h => hx h.2]
    show (skipHexPrefix (d :: ds ++ after)).takeWhile isHexDigit = d :: ds
    rw [hskip, htake]

/-- **A hexadecimal number** between blanks. -/
theorem sscanfHex_append {before : List Char} (hbefore : ∀ c ∈ before, isSpace c = true) (zeroX : Bool)
    (hne : digits ≠ []) (hfits : hexValue digits < 2 ^ 64) :
    sscanfHex (before ++ ((if zeroX then ['0', 'x'] else []) ++ (digits ++ after)))
      = some ((hexValue digits : Int).bmod (2 ^ 32)) := by
  have hvalue : hexValue ((if zeroX then ['0'] else []) ++ digits) = hexValue digits := by
    cases zeroX <;> rfl
  unfold sscanfHex
  simp only [dropWhile_isSpace_append hbefore, readSign_hexDigits hdigits zeroX hne,
    takeWhile_skipHexPrefix hdigits hafter zeroX hne, hvalue]
  rw [if_neg fun h => hne (List.append_eq_nil_iff.mp h).2, if_neg (Nat.not_le.mpr hfits), if_neg Bool.false_ne_true]

end HexDigits

/-! ## Lines -/

/-- At most `k` characters, up to a newline, and the rest. -/
def takeLine : Nat → List Char → List Char × List Char
  | 0, s => ([], s)
  | _ + 1, [] => ([], [])
  | k + 1, c :: s =>
    if c = '\n' then ([c], s)
    else
      let (line, rest) := takeLine k s
      (c :: line, rest)

/-- `fgets` into a buffer of `size` characters. -/
def fgets (size : Nat) (text : List Char) : Option (List Char × List Char) :=
  if text = [] then none else some (takeLine (size - 1) text)

theorem length_takeLine_le (k : Nat) (s : List Char) : (takeLine k s).2.length ≤ s.length := by
  induction k generalizing s with
  | zero => exact Nat.le_refl _
  | succ k ih =>
    cases s with
    | nil => exact Nat.le_refl _
    | cons c s =>
      unfold takeLine
      split
      · exact Nat.le_succ _
      · exact Nat.le_succ_of_le (ih s)

theorem length_fgets_lt {size : Nat} (hsize : 1 < size) {text buffer rest : List Char}
    (h : fgets size text = some (buffer, rest)) : rest.length < text.length := by
  unfold fgets at h
  split at h
  · cases h
  · next hne =>
    obtain ⟨c, s, rfl⟩ := List.exists_cons_of_ne_nil hne
    obtain ⟨k, hk⟩ : ∃ k, size - 1 = k + 1 := ⟨size - 2, by omega⟩
    rw [hk, takeLine] at h
    split at h
    · cases h
      exact Nat.lt_succ_self _
    · cases h
      exact Nat.lt_succ_of_le (length_takeLine_le k s)

section Lines
variable {line : List Char} {k : Nat}

/-- A line that fits, with its newline. -/
theorem takeLine_newline (hline : '\n' ∉ line) (hk : line.length < k) (s : List Char) :
    takeLine k (line ++ '\n' :: s) = (line ++ ['\n'], s) := by
  induction line generalizing k with
  | nil =>
    obtain ⟨k, rfl⟩ := Nat.exists_eq_succ_of_ne_zero (Nat.ne_of_gt hk)
    rw [List.nil_append, takeLine, if_pos rfl, List.nil_append]
  | cons c line ih =>
    obtain ⟨k, rfl⟩ := Nat.exists_eq_succ_of_ne_zero (Nat.ne_of_gt (Nat.lt_of_le_of_lt (Nat.zero_le _) hk))
    have hc : c ≠ '\n' := fun heq => hline (heq ▸ List.mem_cons_self)
    rw [List.cons_append, takeLine, if_neg hc,
      ih (fun hmem => hline (List.mem_cons_of_mem c hmem)) (Nat.lt_of_succ_lt_succ hk)]
    rfl

/-- A line that fills the buffer, or is the last one. -/
theorem takeLine_full (hline : '\n' ∉ line) {s : List Char} (hk : line.length ≤ k) (hs : line.length = k ∨ s = []) :
    takeLine k (line ++ s) = (line, s) := by
  induction line generalizing k with
  | nil =>
    cases k with
    | zero => rfl
    | succ k =>
      obtain rfl : s = [] := hs.resolve_left (by simp)
      rfl
  | cons c line ih =>
    obtain ⟨k, rfl⟩ := Nat.exists_eq_succ_of_ne_zero (Nat.ne_of_gt (Nat.lt_of_lt_of_le (Nat.succ_pos _) hk))
    have hc : c ≠ '\n' := fun heq => hline (heq ▸ List.mem_cons_self)
    rw [List.cons_append, takeLine, if_neg hc,
      ih (fun hmem => hline (List.mem_cons_of_mem c hmem)) (Nat.le_of_succ_le_succ hk) (hs.imp Nat.succ.inj id)]

end Lines

/-! ## Shuffles -/

section Shuffle
variable {α σ : Type}

def swapAt (l : List α) (i j : Nat) : List α :=
  match l[i]?, l[j]? with
  | some a, some b => (l.set i b).set j a
  | _, _ => l

/-- The Fisher–Yates loop over the `k` entries from `start` on, from the last one down. -/
def shuffle (random : σ → Nat × σ) (start : Nat) : Nat → σ → List α → List α × σ
  | 0, s, l => (l, s)
  | k + 1, s, l =>
    let (r, s) := random s
    shuffle random start k s (swapAt l (start + k) (r % (k + 1) + start))

/-- A swap of two entries behind `old`. -/
theorem swapAt_append (old l : List α) {i j : Nat} (hi : i < l.length) (hj : j < l.length) :
    ∃ l', swapAt (old ++ l) (old.length + i) (j + old.length) = old ++ l' ∧ l'.Perm l := by
  refine ⟨(l.set i l[j]).set j l[i], ?_, List.set_set_perm hi hj⟩
  unfold swapAt
  rw [Nat.add_comm j, List.getElem?_append_right (Nat.le_add_right _ _),
    List.getElem?_append_right (Nat.le_add_right _ _), Nat.add_sub_cancel_left, Nat.add_sub_cancel_left,
    List.getElem?_eq_getElem hi, List.getElem?_eq_getElem hj]
  simp only
  rw [List.set_append_right _ _ (Nat.le_add_right _ _), Nat.add_sub_cancel_left,
    List.set_append_right _ _ (Nat.le_add_right _ _), Nat.add_sub_cancel_left]

/-- **A shuffle permutes** the entries behind `old`, and leaves `old` alone. -/
theorem shuffle_append (random : σ → Nat × σ) (old : List α) {k : Nat} (s : σ) {l : List α} (hk : k ≤ l.length) :
    ∃ l', (shuffle random old.length k s (old ++ l)).1 = old ++ l' ∧ l'.Perm l := by
  induction k generalizing s l with
  | zero => exact ⟨l, rfl, List.Perm.refl l⟩
  | succ k ih =>
    have hj : (random s).1 % (k + 1) < l.length :=
      Nat.lt_of_lt_of_le (Nat.mod_lt _ (Nat.succ_pos k)) hk
    obtain ⟨l₁, hswap, hperm₁⟩ := swapAt_append old l hk hj
    obtain ⟨l', hrest, hperm'⟩ := ih (random s).2 (l := l₁) (by rw [hperm₁.length_eq]; omega)
    refine ⟨l', ?_, hperm'.trans hperm₁⟩
    unfold shuffle
    simp only
    rw [hswap]
    exact hrest

end Shuffle

end SkiVmm.Lib
