import SkiVmm.Detect.Race

/-!
# `Detect.Wrap` — the comparison at the 2 GB boundary

`ski_race_detector_is_race` keeps physical addresses in `int`s and compares the first byte of one access with the end
`address + length` of the other one. The addresses mean unsigned 32-bit numbers. A range that goes from the largest
unsigned address on to 0 is an ordinary range of `int`s; a range that goes up to `2 ^ 31` has an end that is no `int`,
and the comparison with it fails.

`skiRaceDetectorIsRace_exact_iff` says for which pairs of accesses the answer is the right one.
-/

namespace SkiVmm.Detect

/-! ## Byte ranges of unsigned addresses -/

/-- An access with an `int` address and one of the three operand sizes. -/
structure SkiRdMemoryAccess.OperandSized (a : SkiRdMemoryAccess) : Prop where
  lower : -2 ^ 31 ≤ a.physicalMemoryAddress
  upper : a.physicalMemoryAddress < 2 ^ 31
  size : a.length = 1 ∨ a.length = 2 ∨ a.length = 4

/-- The bytes of an access as unsigned 32-bit addresses. -/
def SkiRdMemoryAccess.unsignedBytes (a : SkiRdMemoryAccess) : List Int :=
  (List.range a.length.toNat).map fun k : Nat => (a.physicalMemoryAddress + k) % 2 ^ 32

/-- The two accesses have a byte in common. -/
def SharesByte (a b : SkiRdMemoryAccess) : Prop := ∃ byte ∈ a.unsignedBytes, byte ∈ b.unsignedBytes

/-- The first byte of `b` is a byte of `a`. -/
def StartsIn (b a : SkiRdMemoryAccess) : Prop :=
  (b.physicalMemoryAddress - a.physicalMemoryAddress) % 2 ^ 32 < a.length

/-- The end of the access is no `int` any more. -/
def SkiRdMemoryAccess.EndsPastInt (a : SkiRdMemoryAccess) : Prop := 2 ^ 31 ≤ a.physicalMemoryAddress + a.length

/-- One of the accesses ends inside of the `int`s and contains the first byte of the other one. -/
def Meets (a b : SkiRdMemoryAccess) : Prop := (StartsIn b a ∧ ¬ a.EndsPastInt) ∨ (StartsIn a b ∧ ¬ b.EndsPastInt)

instance (a b : SkiRdMemoryAccess) : Decidable (SharesByte a b) := by
  unfold SharesByte
  infer_instance

instance (a b : SkiRdMemoryAccess) : Decidable (Meets a b) := by
  unfold Meets StartsIn SkiRdMemoryAccess.EndsPastInt
  infer_instance

theorem SkiRdMemoryAccess.mem_unsignedBytes {a : SkiRdMemoryAccess} (ha : a.OperandSized) {byte : Int} :
    byte ∈ a.unsignedBytes ↔
      0 ≤ byte ∧ byte < 2 ^ 32 ∧ (byte - a.physicalMemoryAddress) % 2 ^ 32 < a.length := by
  have hsize := ha.size
  unfold SkiRdMemoryAccess.unsignedBytes
  rw [List.mem_map]
  constructor
  · rintro ⟨k, hk, rfl⟩
    rw [List.mem_range] at hk
    omega
  · rintro ⟨hlo, hup, hlt⟩
    refine ⟨((byte - a.physicalMemoryAddress) % 2 ^ 32).toNat, ?_, ?_⟩
    · rw [List.mem_range]
      omega
    · omega

/-- Two short ranges on the circle of addresses meet if one starts in the other. -/
theorem sharesByte_iff {a b : SkiRdMemoryAccess} (ha : a.OperandSized) (hb : b.OperandSized) :
    SharesByte a b ↔ StartsIn b a ∨ StartsIn a b := by
  have hla := ha.size
  have hlb := hb.size
  unfold SharesByte StartsIn
  simp only [SkiRdMemoryAccess.mem_unsignedBytes ha, SkiRdMemoryAccess.mem_unsignedBytes hb]
  constructor
  · rintro ⟨byte, ⟨-, -, hx⟩, -, -, hy⟩
    omega
  · rintro (h | h)
    · exact ⟨b.physicalMemoryAddress % 2 ^ 32, by omega, by omega⟩
    · exact ⟨a.physicalMemoryAddress % 2 ^ 32, by omega, by omega⟩

/-! ## What the comparison finds -/

theorem addInt_of_operandSized {a : SkiRdMemoryAccess} (ha : a.OperandSized) :
    addInt a.physicalMemoryAddress a.length =
      if 2 ^ 31 ≤ a.physicalMemoryAddress + a.length then a.physicalMemoryAddress + a.length - 2 ^ 32
      else a.physicalMemoryAddress + a.length := by
  have hlo := ha.lower
  have hup := ha.upper
  have hsize := ha.size
  unfold addInt
  rw [Int.bmod_def]
  omega

/-- One half of the comparison: the first byte of `b` lies between the first byte and the end of `a`. -/
theorem between_iff {a b : SkiRdMemoryAccess} (ha : a.OperandSized) (hb : b.OperandSized) :
    (a.physicalMemoryAddress ≤ b.physicalMemoryAddress ∧
      b.physicalMemoryAddress < addInt a.physicalMemoryAddress a.length) ↔ StartsIn b a ∧ ¬ a.EndsPastInt := by
  have hsize := ha.size
  have hlo := ha.lower
  have hlo' := hb.lower
  have hup' := hb.upper
  rw [addInt_of_operandSized ha]
  unfold StartsIn SkiRdMemoryAccess.EndsPastInt
  split
  · omega
  · omega

/-- **What `is_race` computes**: a conflict between `int` ranges. -/
theorem skiRaceDetectorIsRace_eq_meets {a b : SkiRdMemoryAccess} (ha : a.OperandSized) (hb : b.OperandSized)
    (hne : a.cpu ≠ b.cpu) :
    skiRaceDetectorIsRace a b = some (decide ((a.isRead = 0 ∨ b.isRead = 0) ∧ Meets a b)) := by
  have hla := ha.size
  have hlb := hb.size
  unfold skiRaceDetectorIsRace
  rw [if_neg hne]
  split_ifs with hread hzero hfirst hsecond
  · exact congrArg some (decide_eq_false (by omega)).symm
  · omega
  · exact congrArg some (decide_eq_true ⟨by omega, Or.inl ((between_iff ha hb).mp hfirst)⟩).symm
  · exact congrArg some (decide_eq_true ⟨by omega, Or.inr ((between_iff hb ha).mp hsecond)⟩).symm
  · refine congrArg some (decide_eq_false fun h => ?_).symm
    exact h.2.elim (fun hm => hfirst ((between_iff ha hb).mpr hm)) (fun hm => hsecond ((between_iff hb ha).mpr hm))

theorem meets_comm (a b : SkiRdMemoryAccess) : Meets a b ↔ Meets b a := Or.comm

/-- What the comparison finds is there. -/
theorem Meets.sharesByte {a b : SkiRdMemoryAccess} (ha : a.OperandSized) (hb : b.OperandSized) (h : Meets a b) :
    SharesByte a b :=
  (sharesByte_iff ha hb).mpr (h.imp And.left And.left)

/-- **When the comparison is right.** For two CPUs, every pair of `int` addresses and sizes 1, 2 and 4, `is_race`
    answers 1 exactly for a write to a shared unsigned address, in both orders of its arguments, if and only if both
    accesses read, or they share no byte, or one of them, which does not reach `2 ^ 31`, contains the first byte of
    the other one. -/
theorem skiRaceDetectorIsRace_exact_iff {a b : SkiRdMemoryAccess} (ha : a.OperandSized) (hb : b.OperandSized)
    (hne : a.cpu ≠ b.cpu) :
    ((skiRaceDetectorIsRace a b = some true ↔ (a.isRead = 0 ∨ b.isRead = 0) ∧ SharesByte a b) ∧
      skiRaceDetectorIsRace b a = skiRaceDetectorIsRace a b) ↔
      (a.isRead ≠ 0 ∧ b.isRead ≠ 0) ∨ ¬ SharesByte a b ∨ Meets a b := by
  have hcomm : skiRaceDetectorIsRace b a = skiRaceDetectorIsRace a b := by
    rw [skiRaceDetectorIsRace_eq_meets ha hb hne, skiRaceDetectorIsRace_eq_meets hb ha hne.symm]
    simp only [Or.comm, meets_comm b a]
  rw [and_iff_left hcomm, skiRaceDetectorIsRace_eq_meets ha hb hne, Option.some_inj, decide_eq_true_iff]
  have hshares := @Meets.sharesByte a b ha hb
  constructor
  · intro hright
    by_cases hwrite : a.isRead = 0 ∨ b.isRead = 0
    · by_cases hs : SharesByte a b
      · exact Or.inr (Or.inr (hright.mpr ⟨hwrite, hs⟩).2)
      · exact Or.inr (Or.inl hs)
    · exact Or.inl (by omega)
  · rintro (hread | hapart | hmeets)
    · exact ⟨fun h => absurd h.1 (by omega), fun h => absurd h.1 (by omega)⟩
    · exact ⟨fun h => absurd (hshares h.2) hapart, fun h => absurd h.2 hapart⟩
    · exact and_congr_right fun _ => ⟨hshares, fun _ => hmeets⟩

/-- An access of CPU `cpu` to `length` bytes at `address`. -/
def accessAt (cpu : Nat) (address length isRead : Int) : SkiRdMemoryAccess :=
  { cpu := cpu, physicalMemoryAddress := address, ipAddress := 0, length := length, isRead := isRead,
    instructionCount := 0 }

/-- A write of four bytes from the largest unsigned address on, and a read of the byte at address 1. -/
theorem skiRaceDetectorIsRace_exact_zero :
    skiRaceDetectorIsRace (accessAt 0 (-1) 4 0) (accessAt 1 1 1 1) = some true ∧
    skiRaceDetectorIsRace (accessAt 1 1 1 1) (accessAt 0 (-1) 4 0) = some true := by
  have h := (skiRaceDetectorIsRace_exact_iff (a := accessAt 0 (-1) 4 0) (b := accessAt 1 1 1 1)
    ⟨by decide, by decide, by decide⟩ ⟨by decide, by decide, by decide⟩ (by decide)).mpr (by decide)
  have hrace := h.1.mpr (by decide)
  exact ⟨hrace, h.2.trans hrace⟩

/-- Two writes to the last four bytes below 2 GB are not reported. -/
theorem skiRaceDetectorIsRace_misses_boundary :
    (accessAt 0 (2 ^ 31 - 4) 4 0).OperandSized ∧ (accessAt 1 (2 ^ 31 - 4) 4 0).OperandSized ∧
    ¬ (skiRaceDetectorIsRace (accessAt 0 (2 ^ 31 - 4) 4 0) (accessAt 1 (2 ^ 31 - 4) 4 0) = some true ↔
      ((accessAt 0 (2 ^ 31 - 4) 4 0).isRead = 0 ∨ (accessAt 1 (2 ^ 31 - 4) 4 0).isRead = 0) ∧
        SharesByte (accessAt 0 (2 ^ 31 - 4) 4 0) (accessAt 1 (2 ^ 31 - 4) 4 0)) := by
  refine ⟨⟨by decide, by decide, by decide⟩, ⟨by decide, by decide, by decide⟩, ?_⟩
  decide

end SkiVmm.Detect
