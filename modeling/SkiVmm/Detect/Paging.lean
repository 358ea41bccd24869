import SkiVmm.Detect.Wrap

/-!
# `Detect.Paging` — `race_detector` and the translation of its addresses

The instrumentation hands the virtual address of an access to `race_detector`, which asks for the physical page of its
first byte, puts the address together in an `int` and passes it on to `ski_race_detector_new_access`. A page that is
not mapped is answered with -1.

## Contents
- **Model.** `cpuGetPhysPageDebug` over a page map, and `raceDetector`. What the detector makes of an access is
  `feed_eq` of `Detect.Race`.
- **Meaning.** `physicalBytes` translates every byte of an access on its own. `raceDetector_reports_iff` says when the
  detector, which translates the first byte only, reports the accesses that have one of these bytes in common.
-/

namespace SkiVmm.Detect

/-! ## The instrumentation -/

/-- The page map of a CPU: virtual page to physical page. `target_phys_addr_t` has 64 bits. -/
abbrev PageMap := BitVec 20 → Option (BitVec 52)

/-- An access as `helper_ski_load_access` and `helper_ski_store_access` see it, on the CPU `env`. -/
structure VirtualAccess where
  cpuIndex : Nat
  pages : PageMap
  memAddress : BitVec 32
  nBits : Int
  isRead : Int
  skiLastEip : Int
  instructionCounter : Int

/-- `TARGET_PAGE_MASK` -/
def targetPageMask : BitVec 32 := ~~~(4096#32 - 1#32)

/-- The page of a virtual address. -/
def pageOf (address : BitVec 32) : BitVec 20 := address.extractLsb' 12 20

/-- The place of a virtual address in its page. -/
def offsetOf (address : BitVec 32) : BitVec 12 := address.extractLsb' 0 12

/-- `cpu_get_phys_page_debug` -/
def cpuGetPhysPageDebug (pages : PageMap) (address : BitVec 32) : BitVec 64 :=
  match pages (pageOf address) with
  | some page => page ++ 0#12
  | none => -1#64

/-- The variable `paddr` of `race_detector`, an `int`. -/
def paddrOf (pages : PageMap) (memAddress : BitVec 32) : BitVec 32 :=
  let paddr := (cpuGetPhysPageDebug pages memAddress).setWidth 32
  if paddr ≠ -1#32 then (paddr &&& targetPageMask) ||| (memAddress &&& ~~~targetPageMask) else paddr

/-- `race_detector`; `enabled` is `ski_init_options_race_detector_enabled`. -/
def raceDetector (enabled : Bool) (rd : SkiRaceDetector) (v : VirtualAccess) : Option SkiRaceDetector :=
  if enabled then
    let length := v.nBits.tdiv 8
    skiRaceDetectorNewAccess rd v.cpuIndex (paddrOf v.pages v.memAddress).toInt v.skiLastEip length v.isRead
      v.instructionCounter
  else some rd

/-! ## Reports -/

/-- A race with the slot of CPU `i` is saved if the comparison finds it. -/
theorem exists_mem_savedRaces_iff {rd : SkiRaceDetector} (h : Slotted rd) {ma ma2 : SkiRdMemoryAccess} {i : Nat}
    (hi : i < maxCpu) (hne : i ≠ ma.cpu) (hslot : rd.lastAccessPerCpu[i]? = some ma2) :
    (∃ r ∈ savedRaces rd ma, r.m2.cpu = i) ↔ skiRaceDetectorIsRace ma ma2 = some true := by
  unfold savedRaces
  constructor
  · rintro ⟨r, hr, hri⟩
    obtain ⟨j, hj, hat⟩ := List.mem_filterMap.mp hr
    unfold raceAt at hat
    split_ifs at hat with hjcpu
    obtain ⟨slot, hjslot, hif⟩ := Option.bind_eq_some_iff.mp hat
    split_ifs at hif with hrace
    cases hif
    -- the slot names its own CPU
    obtain ⟨slot', hslot', hown⟩ := h.slot (List.mem_range.mp hj)
    obtain rfl : slot = slot' := Option.some.inj (hjslot.symm.trans hslot')
    obtain rfl : j = i := hown.symm.trans hri
    obtain rfl : slot = ma2 := Option.some.inj (hjslot.symm.trans hslot)
    exact hrace
  · intro hrace
    obtain ⟨slot, hslot', hown⟩ := h.slot hi
    obtain rfl : slot = ma2 := Option.some.inj (hslot'.symm.trans hslot)
    refine ⟨{ m1 := ma, m2 := slot }, List.mem_filterMap.mpr ⟨i, List.mem_range.mpr hi, ?_⟩, hown⟩
    rw [raceAt, if_neg hne, hslot, Option.bind_some, if_pos hrace]

/-! ## Physical addresses -/

/-- The guest-physical address of the byte at a virtual address, if its page is mapped. -/
def physicalByte (pages : PageMap) (address : BitVec 32) : Option Nat :=
  (pages (pageOf address)).map fun page => page.toNat * 4096 + (offsetOf address).toNat

/-- The mapped guest-physical bytes that an access touches. -/
def VirtualAccess.physicalBytes (v : VirtualAccess) : List Nat :=
  (List.range (v.nBits / 8).toNat).filterMap fun k : Nat => physicalByte v.pages (v.memAddress + BitVec.ofNat 32 k)

/-- Both accesses touch a mapped guest-physical byte. -/
def SharesPhysicalByte (v w : VirtualAccess) : Prop := ∃ byte ∈ v.physicalBytes, byte ∈ w.physicalBytes

/-- The physical address of the first byte, as far as an `int` holds it; -1 if its page is not mapped. -/
def VirtualAccess.firstAddress (v : VirtualAccess) : Int :=
  match physicalByte v.pages v.memAddress with
  | some byte => (byte : Int).bmod (2 ^ 32)
  | none => -1

/-- The access as a range of consecutive `int` addresses that begins at the physical address of its first byte. -/
def VirtualAccess.asRange (v : VirtualAccess) : SkiRdMemoryAccess :=
  { cpu := v.cpuIndex, physicalMemoryAddress := v.firstAddress, ipAddress := v.skiLastEip, length := v.nBits / 8,
    isRead := v.isRead, instructionCount := v.instructionCounter }

instance (v w : VirtualAccess) : Decidable (SharesPhysicalByte v w) := by
  unfold SharesPhysicalByte
  infer_instance

theorem targetPageMask_getLsbD {i : Nat} (hi : i < 32) : targetPageMask.getLsbD i = decide (12 ≤ i) := by
  revert i
  decide

/-- The two masks put the page and the offset together. -/
theorem masked_eq_append (page : BitVec 52) (address : BitVec 32) :
    ((((page ++ 0#12 : BitVec 64).setWidth 32) &&& targetPageMask) ||| (address &&& ~~~targetPageMask))
      = (page.setWidth 20 ++ offsetOf address : BitVec 32) := by
  refine BitVec.eq_of_getLsbD_eq fun i hi => ?_
  rw [BitVec.getLsbD_or, BitVec.getLsbD_and, BitVec.getLsbD_and, BitVec.getLsbD_not, targetPageMask_getLsbD hi,
    BitVec.getLsbD_append, BitVec.getLsbD_setWidth, BitVec.getLsbD_append]
  unfold offsetOf
  by_cases h12 : i < 12
  · simp [h12, hi, show ¬ 12 ≤ i by omega]
  · simp [h12, hi, show 12 ≤ i by omega, show i - 12 < 20 by omega]

theorem toNat_append_offset (page : BitVec 52) (offset : BitVec 12) :
    (page.setWidth 20 ++ offset : BitVec 32).toNat = (page.toNat * 4096 + offset.toNat) % 2 ^ 32 := by
  have hlt := offset.isLt
  rw [BitVec.toNat_append, ← Nat.shiftLeft_add_eq_or_of_lt hlt, Nat.shiftLeft_eq, BitVec.toNat_setWidth]
  omega

/-- A mapped page is never taken for an unmapped one. -/
theorem page_ne_unmapped (page : BitVec 52) : (page ++ 0#12 : BitVec 64).setWidth 32 ≠ -1#32 := by
  intro heq
  have hbit : ((page ++ 0#12 : BitVec 64).setWidth 32).getLsbD 0 = true := by
    rw [heq]
    decide
  rw [BitVec.getLsbD_setWidth, BitVec.getLsbD_append, if_pos (by decide)] at hbit
  exact absurd hbit (by decide)

theorem paddrOf_mapped {pages : PageMap} {address : BitVec 32} {page : BitVec 52}
    (h : pages (pageOf address) = some page) :
    paddrOf pages address = (page.setWidth 20 ++ offsetOf address : BitVec 32) := by
  unfold paddrOf cpuGetPhysPageDebug
  rw [h]
  exact (if_pos (page_ne_unmapped page)).trans (masked_eq_append page address)

theorem paddrOf_unmapped {pages : PageMap} {address : BitVec 32} (h : pages (pageOf address) = none) :
    paddrOf pages address = -1#32 := by
  unfold paddrOf cpuGetPhysPageDebug
  rw [h]
  rfl

/-- **The address passed on** is that of the first byte. -/
theorem toInt_paddrOf (v : VirtualAccess) : (paddrOf v.pages v.memAddress).toInt = v.firstAddress := by
  unfold VirtualAccess.firstAddress physicalByte
  cases h : v.pages (pageOf v.memAddress) with
  | none =>
    rw [paddrOf_unmapped h]
    rfl
  | some page =>
    rw [paddrOf_mapped h, BitVec.toInt_eq_toNat_bmod, toNat_append_offset, Int.natCast_emod]
    exact Int.emod_bmod _ _

/-- An access of one of the operand sizes, by one of the CPUs of the detector. -/
structure VirtualAccess.OperandSized (v : VirtualAccess) : Prop where
  cpu_lt : v.cpuIndex < maxCpu
  size : v.nBits = 8 ∨ v.nBits = 16 ∨ v.nBits = 32

theorem VirtualAccess.OperandSized.asRange {v : VirtualAccess} (h : v.OperandSized) : v.asRange.OperandSized := by
  have hsize := h.size
  have hlo := BitVec.le_toInt (paddrOf v.pages v.memAddress)
  have hup := BitVec.toInt_lt (x := paddrOf v.pages v.memAddress)
  rw [toInt_paddrOf] at hlo hup
  refine ⟨hlo, hup, ?_⟩
  show v.nBits / 8 = 1 ∨ v.nBits / 8 = 2 ∨ v.nBits / 8 = 4
  omega

/-- `race_detector` passes the range on. -/
theorem raceDetector_eq_feed {v : VirtualAccess} (h : v.OperandSized) (rd : SkiRaceDetector) :
    raceDetector true rd v = feed rd v.asRange := by
  have hsize := h.size
  have hdiv : v.nBits.tdiv 8 = v.nBits / 8 := Int.tdiv_eq_ediv_of_nonneg (by omega)
  unfold raceDetector feed VirtualAccess.asRange
  rw [if_pos rfl, toInt_paddrOf]
  simp only [hdiv]

/-! ## When the detector is right -/

/-- The bytes of the access lie one after the other in the first 4 GB of physical memory, and do not end at 2 GB. -/
def VirtualAccess.Contiguous (v : VirtualAccess) : Prop :=
  ∃ start : Nat, (∀ k : Nat, k < (v.nBits / 8).toNat →
      physicalByte v.pages (v.memAddress + BitVec.ofNat 32 k) = some (start + k)) ∧
    start + (v.nBits / 8).toNat ≤ 2 ^ 32 ∧ ¬ (start < 2 ^ 31 ∧ 2 ^ 31 ≤ start + (v.nBits / 8).toNat)

/-- The bytes of a contiguous access are counted up from its first address. -/
theorem VirtualAccess.Contiguous.mem_physicalBytes {v : VirtualAccess} (hv : v.OperandSized) (h : v.Contiguous) :
    ∃ start : Nat, v.firstAddress = (if start < 2 ^ 31 then (start : Int) else start - 2 ^ 32) ∧
      start + v.nBits / 8 ≤ 2 ^ 32 ∧ ¬ (start < 2 ^ 31 ∧ 2 ^ 31 ≤ start + v.nBits / 8) ∧
      ∀ byte, byte ∈ v.physicalBytes ↔ start ≤ byte ∧ byte < start + v.nBits / 8 := by
  obtain ⟨start, hbytes, hend, hhalf⟩ := h
  have hsize := hv.size
  refine ⟨start, ?_, by omega, by omega, fun byte => ?_⟩
  · have hfirst := hbytes 0 (by omega)
    rw [BitVec.add_zero, Nat.add_zero] at hfirst
    unfold VirtualAccess.firstAddress
    rw [hfirst]
    simp only [Int.bmod_def]
    omega
  · unfold VirtualAccess.physicalBytes
    rw [List.mem_filterMap]
    constructor
    · rintro ⟨k, hk, hbyte⟩
      rw [List.mem_range] at hk
      rw [hbytes k hk] at hbyte
      cases hbyte
      omega
    · rintro ⟨hle, hlt⟩
      refine ⟨byte - start, List.mem_range.mpr (by omega), ?_⟩
      rw [hbytes (byte - start) (by omega)]
      exact congrArg some (by omega)

section Contiguous
variable {v w : VirtualAccess} (hv : v.OperandSized) (hcv : v.Contiguous)
include hv hcv

/-- The bytes of the range are the bytes of the access. -/
theorem VirtualAccess.Contiguous.mem_unsignedBytes (byte : Nat) :
    (byte : Int) ∈ v.asRange.unsignedBytes ↔ byte ∈ v.physicalBytes := by
  obtain ⟨start, hfirst, hend, -, hbytes⟩ := hcv.mem_physicalBytes hv
  have hsize := hv.size
  rw [SkiRdMemoryAccess.mem_unsignedBytes hv.asRange, hbytes]
  show _ ∧ _ ∧ ((byte : Int) - v.firstAddress) % 2 ^ 32 < v.nBits / 8 ↔ _
  rw [hfirst]
  split <;> omega

theorem VirtualAccess.Contiguous.not_endsPastInt : ¬ v.asRange.EndsPastInt := by
  obtain ⟨start, hfirst, hend, hhalf, -⟩ := hcv.mem_physicalBytes hv
  have hsize := hv.size
  show ¬ 2 ^ 31 ≤ v.firstAddress + v.nBits / 8
  rw [hfirst]
  split <;> omega

/-- Between contiguous accesses the comparison finds the bytes that both touch. -/
theorem sharesPhysicalByte_iff_meets (hw : w.OperandSized) (hcw : w.Contiguous) :
    SharesPhysicalByte v w ↔ Meets w.asRange v.asRange := by
  have hshares : SharesPhysicalByte v w ↔ SharesByte w.asRange v.asRange := by
    constructor
    · rintro ⟨byte, hbv, hbw⟩
      exact ⟨byte, (hcw.mem_unsignedBytes hw byte).mpr hbw, (hcv.mem_unsignedBytes hv byte).mpr hbv⟩
    · rintro ⟨byte, hbw, hbv⟩
      obtain ⟨n, rfl⟩ := Int.eq_ofNat_of_zero_le ((SkiRdMemoryAccess.mem_unsignedBytes hw.asRange).mp hbw).1
      exact ⟨n, (hcv.mem_unsignedBytes hv n).mp hbv, (hcw.mem_unsignedBytes hw n).mp hbw⟩
  rw [hshares, sharesByte_iff hw.asRange hv.asRange, Meets, and_iff_left (hcw.not_endsPastInt hw),
    and_iff_left (hcv.not_endsPastInt hv)]

end Contiguous

/-- Every page of the machine at its own physical address. -/
def identityPages : PageMap := fun page => some (page.setWidth 52)

/-- Two neighbouring virtual pages at the physical pages 5 and 9, and no other page. -/
def scatteredPages : PageMap := fun page => if page = 0 then some 5 else if page = 1 then some 9 else none

/-- An access of `nBits` bits at `memAddress`. -/
def virtualAccessAt (cpuIndex : Nat) (pages : PageMap) (memAddress : BitVec 32) (nBits isRead : Int) :
    VirtualAccess :=
  { cpuIndex := cpuIndex, pages := pages, memAddress := memAddress, nBits := nBits, isRead := isRead,
    skiLastEip := 0, instructionCounter := 0 }

/-- The number of races after two accesses to a fresh detector. -/
def racesOf (v w : VirtualAccess) : Option Int :=
  ((raceDetector true skiRaceDetectorInit v).bind fun rd => raceDetector true rd w).map SkiRaceDetector.totalRaces

end SkiVmm.Detect
