import SkiVmm.Lib.Flat

/-!
# `Hyper.Resume` — the `hypercall_io` of a CPU that is resumed from a snapshot

The enter hypercall answers the guest in the structure that the guest has passed to it: it reads the structure, sets
`hg_res` and writes it back. A CPU that is resumed from a snapshot is inside of that hypercall, and
`ski_snapshot_reinitialize_cpu` answers once more, for the options of the new run. It is a copy of the code of the
hypercall that does not read the structure first, and that takes other input numbers as given.
`resumed_eq_entered_iff` says when the guest cannot tell the two apart.

* Guest memory is indexed by linear addresses. The page of the structure is mapped, as the guest has just written to it.
* Integers are little-endian, as the guest and the host are.
-/

namespace SkiVmm.Hyper

open Lib

abbrev Bytes := Nat → BitVec 8

/-- `sizeof(hypercall_io)`: three integers, a union of 128 bytes, an integer. -/
def sizeofHypercallIo : Nat := 144

/-- The offset of `p.hio_test_enter.hg_res`. -/
def hgResOffset : Nat := 24

/-- An assignment to an `int` of a structure. -/
def storeInt (buf : Bytes) (off : Nat) (x : BitVec 32) : Bytes := fill buf off 4 fun k => x.extractLsb' (8 * k) 8

/-- The options of a run that the two paths read. -/
structure Answers where
  /-- `ski_init_options_input_number`, by `cpu_index` -/
  inputNumber : Nat → BitVec 32
  /-- `ski_init_options_seed` -/
  seed : BitVec 32

/-- The part of the enter hypercall that answers the guest, with the structure at `addr`. The checks of the magic
    numbers in between only trace. -/
def testEnterAnswer (options : Answers) (cpuIndex : Nat) (mem : Bytes) (addr : Nat) : Bytes :=
  let hio : Bytes := fill (fun _ => 0) 0 sizeofHypercallIo fun i => mem (addr + i)
  let hgRes := if options.inputNumber cpuIndex ≠ 0 then options.inputNumber cpuIndex else options.seed
  let hio := storeInt hio hgResOffset hgRes
  fill mem addr sizeofHypercallIo hio

/-- The part of `ski_snapshot_reinitialize_cpu` that answers the guest. `hio` is what the stack holds at the place of
    the local variable, which is not initialized. -/
def skiSnapshotReinitializeCpu (options : Answers) (cpuIndex : Nat) (hio mem : Bytes) (addr : Nat) : Bytes :=
  let hgRes := if (options.inputNumber cpuIndex).toInt > -1 then options.inputNumber cpuIndex else options.seed
  let hio := storeInt hio hgResOffset hgRes
  fill mem addr sizeofHypercallIo hio

/-! ## Integers in memory -/

/-- An integer is the sum of its bytes. -/
theorem eq_of_bytes {x y : BitVec 32} (h : ∀ k < 4, x.extractLsb' (8 * k) 8 = y.extractLsb' (8 * k) 8) : x = y := by
  refine BitVec.eq_of_getLsbD_eq ?_
  intro i hi
  have hbyte := congrArg (BitVec.getLsbD · (i % 8)) (h (i / 8) (by omega))
  have hmod : i % 8 < 8 := Nat.mod_lt i (by decide)
  simpa [BitVec.getLsbD_extractLsb', hmod, Nat.div_add_mod] using hbyte

/-- Two structures in which one integer has been assigned. -/
theorem storeInt_eq_iff {buf buf' : Bytes} {off n : Nat} (hoff : off + 4 ≤ n) {x y : BitVec 32} :
    (∀ i < n, storeInt buf off x i = storeInt buf' off y i) ↔
      x = y ∧ ∀ i < n, i < off ∨ off + 4 ≤ i → buf i = buf' i := by
  constructor
  · intro h
    refine ⟨eq_of_bytes fun k hk => ?_, fun i hi hout => ?_⟩
    · have hbyte := h (off + k) (by omega)
      unfold storeInt fill at hbyte
      rwa [if_pos (by omega), if_pos (by omega), Nat.add_sub_cancel_left] at hbyte
    · have hbyte := h i hi
      unfold storeInt fill at hbyte
      rwa [if_neg (by omega), if_neg (by omega)] at hbyte
  · rintro ⟨rfl, hout⟩ i hi
    unfold storeInt fill
    split
    · rfl
    · exact hout i hi (by omega)

/-! ## The two answers -/

/-- The stack holds what the guest has written, but for `hg_res`. -/
def HoldsGuest (hio mem : Bytes) (addr : Nat) : Prop :=
  ∀ i < sizeofHypercallIo, i < hgResOffset ∨ hgResOffset + 4 ≤ i → hio i = mem (addr + i)

/-- When the two choices of `hg_res` agree. -/
theorem answers_agree_iff (options : Answers) (cpuIndex : Nat) :
    (if (options.inputNumber cpuIndex).toInt > -1 then options.inputNumber cpuIndex else options.seed)
        = (if options.inputNumber cpuIndex ≠ 0 then options.inputNumber cpuIndex else options.seed) ↔
      0 < (options.inputNumber cpuIndex).toInt ∨
        options.inputNumber cpuIndex = 0 ∧ options.seed = 0 ∨
        (options.inputNumber cpuIndex).toInt < 0 ∧ options.seed = options.inputNumber cpuIndex := by
  generalize options.inputNumber cpuIndex = x
  have hzero : x = 0 ↔ x.toInt = 0 := ⟨fun h => h ▸ rfl, fun h => BitVec.eq_of_toInt_eq h⟩
  rcases Int.lt_trichotomy x.toInt 0 with hneg | hx | hpos
  · rw [if_neg (by omega), if_pos (by rw [Ne, hzero]; omega)]
    constructor
    · intro h
      exact .inr (.inr ⟨hneg, h⟩)
    · rintro (hpos | ⟨hx, -⟩ | ⟨-, h⟩)
      · omega
      · have := hzero.mp hx
        omega
      · exact h
  · rw [if_pos (by omega), if_neg (by rw [Ne, hzero]; omega)]
    constructor
    · intro h
      exact .inr (.inl ⟨hzero.mpr hx, h ▸ hzero.mpr hx⟩)
    · rintro (hpos | ⟨hx, hseed⟩ | ⟨hneg, -⟩)
      · omega
      · rw [hx, hseed]
      · omega
  · rw [if_pos (by omega), if_pos (by rw [Ne, hzero]; omega)]
    exact ⟨fun _ => .inl hpos, fun _ => rfl⟩

/-- **When a resumed CPU finds the answer of the enter hypercall.** The snapshot was taken after an enter hypercall with
    the options `old`, and is resumed with `options`. -/
theorem resumed_eq_entered_iff (old options : Answers) (cpuIndex : Nat) (hio mem : Bytes) (addr : Nat) :
    skiSnapshotReinitializeCpu options cpuIndex hio (testEnterAnswer old cpuIndex mem addr) addr
        = testEnterAnswer options cpuIndex mem addr ↔
      HoldsGuest hio mem addr ∧
        (0 < (options.inputNumber cpuIndex).toInt ∨
          options.inputNumber cpuIndex = 0 ∧ options.seed = 0 ∨
          (options.inputNumber cpuIndex).toInt < 0 ∧ options.seed = options.inputNumber cpuIndex) := by
  have hread : ∀ i < sizeofHypercallIo,
      fill (fun _ => 0) 0 sizeofHypercallIo (fun i => mem (addr + i)) i = mem (addr + i) := by
    intro i hi
    unfold fill
    rw [if_pos (by omega), Nat.sub_zero]
  unfold skiSnapshotReinitializeCpu testEnterAnswer
  simp only
  rw [fill_fill, fill_eq_fill_iff, storeInt_eq_iff (by decide), and_comm]
  refine and_congr ?_ (answers_agree_iff options cpuIndex)
  refine forall₂_congr fun i hi => ?_
  rw [hread i hi]

/-- No input numbers are given, as by default. -/
def defaultInputs : Answers where
  inputNumber := fun _ => 0
  seed := 5

/-- A structure that the guest has passed to the enter hypercall, at address 0: the magic numbers, the size, the type,
    1000 instructions, two CPUs. -/
def guestStructure : Bytes :=
  storeInt (storeInt (storeInt (storeInt (storeInt (storeInt (fun _ => 0) 0 0x33556677) 4 144) 8 1) 12 1000) 16 2)
    140 0x12345678

/-- With the default input numbers and a stack of zeros, the guest loses its magic number and is told 0 instead of the
    seed. -/
theorem resumed_without_structure :
    ∃ entered resumed : Bytes, testEnterAnswer defaultInputs 0 guestStructure 0 = entered ∧
      skiSnapshotReinitializeCpu defaultInputs 0 (fun _ => 0) entered 0 = resumed ∧
      entered 0 = 0x77 ∧ resumed 0 = 0 ∧ entered hgResOffset = 5 ∧ resumed hgResOffset = 0 :=
  ⟨_, _, rfl, rfl, by decide, by decide, by decide, by decide⟩

end SkiVmm.Hyper
