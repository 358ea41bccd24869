import SkiVmm.Lib.Table

/-!
# `Detect.Communication` — communication instructions (`ski-stats.h`, `ski-stats.c`)

While a test runs, every data access is entered byte by byte into a table: for each byte address the CPUs that read
it and that wrote it, packed into one word of flags, and the instructions that accessed it. When the process exits,
the instructions of all addresses shared between CPUs become the communication instructions of the test.

## Contents
- **Model.** `skiStatsAddDataAccess` and `skiStatsComputeCommunicationInstructions`.
- **The flags.** `getLsbD_markFlag`: one access sets one bit of one CPU.
- **The table.** `Indexed` says that the table describes the byte accesses made so far; each access keeps it as long
  as the tables have room.
- **The result.** What the pass at exit collects from such a table.
-/

namespace SkiVmm.Detect

open Lib

/-! ## The statistics -/

/-- `SKI_STATS_MAX_CPU` -/
def statsMaxCpu : Nat := 4

/-- `SKI_STATS_MAX_ACCESS_SIZE` -/
def maxAccessSize : Nat := 9

/-- `SKI_STATS_MAX_DATA_ADDRESSES` -/
def maxDataAddresses : Nat := 3 * 1000 * 1000

/-- `SKI_STATS_MAX_DATA_INSTRUCTION_ADDRESSES` -/
def maxDataInstructionAddresses : Nat := 3 * 1000 * 1000

/-- `MAX_IPFILTER_HASH` -/
def maxIpfilterHash : Nat := 256 * 1024

/-- `SKI_STATS_SET_W_CPU` -/
def setWCpu (flag : BitVec 32) (cpuNo : Nat) : BitVec 32 := flag ||| (1#32 <<< (cpuNo + 8))

/-- `SKI_STATS_SET_R_CPU` -/
def setRCpu (flag : BitVec 32) (cpuNo : Nat) : BitVec 32 := flag ||| (1#32 <<< cpuNo)

/-- `SKI_STATS_SET_SIZE` -/
def setSize (flag : BitVec 32) (sizeBytes : Nat) : BitVec 32 := flag ||| (1#32 <<< (sizeBytes + 16))

/-- `SKI_STATS_GET_W_CPU` -/
def getWCpu (flag : BitVec 32) (cpuNo : Nat) : BitVec 32 := flag &&& (1#32 <<< (cpuNo + 8))

/-- `SKI_STATS_GET_R_CPU` -/
def getRCpu (flag : BitVec 32) (cpuNo : Nat) : BitVec 32 := flag &&& (1#32 <<< cpuNo)

/-- `ski_stats_data_accesses`; the hash of instructions is listed in the order of insertion. -/
structure SkiStatsDataAccesses where
  dataAddress : BitVec 32
  rwCpuSizeFlag : BitVec 32
  totalAccesses : Int
  dataInstructions : List (BitVec 32)
deriving DecidableEq, Repr

/-- The part of `ski_stats` that leads to the communication instructions. A list stands for an array with its
    counter and the hash over it. -/
structure SkiStats where
  inputNumber : Int × Int
  data : List SkiStatsDataAccesses
  dataInstructionsN : Nat
  communicationInstructions : List (BitVec 32)
  communicationEips : Int
  communicationData : Int
deriving DecidableEq, Repr

/-- `ski_stats_reset_slot` followed by `ski_stats_start`: the inputs of the test are noted. -/
def skiStatsStart (inputNumber : Int × Int) : SkiStats :=
  { inputNumber := inputNumber, data := [], dataInstructionsN := 0, communicationInstructions := [],
    communicationEips := 0, communicationData := 0 }

/-- The new entry of an address. -/
def freshEntry (dataAddress : BitVec 32) : SkiStatsDataAccesses :=
  { dataAddress := dataAddress, rwCpuSizeFlag := 0, totalAccesses := 0, dataInstructions := [] }

/-- The table with an entry for the address, and its index; `none` when there is no room for one. -/
def findOrInsert (data : List SkiStatsDataAccesses) (dataAddress : BitVec 32) :
    Option (List SkiStatsDataAccesses × Nat) :=
  match data.findIdx? fun da => da.dataAddress = dataAddress with
  | some i => some (data, i)
  | none => if data.length < maxDataAddresses then some (data ++ [freshEntry dataAddress], data.length) else none

/-- The flags after an access to one byte. -/
def markFlag (flag : BitVec 32) (isWrite : Bool) (cpuNo : Nat) : BitVec 32 :=
  let flag := setSize flag 1
  if isWrite then setWCpu flag cpuNo else setRCpu flag cpuNo

def markAccess (isWrite : Bool) (cpuNo : Nat) (da : SkiStatsDataAccesses) : SkiStatsDataAccesses :=
  { da with rwCpuSizeFlag := markFlag da.rwCpuSizeFlag isWrite cpuNo, totalAccesses := da.totalAccesses + 1 }

/-- The unique instructions of an address; one for which there is no room is dropped. -/
def addDataInstruction (stats : SkiStats) (i : Nat) (eipAddress : BitVec 32) : SkiStats :=
  match stats.data[i]? with
  | none => stats
  | some da =>
    if eipAddress ∈ da.dataInstructions then stats
    else if stats.dataInstructionsN < maxDataInstructionAddresses then
      { stats with
        dataInstructionsN := stats.dataInstructionsN + 1
        data := stats.data.set i { da with dataInstructions := da.dataInstructions ++ [eipAddress] } }
    else stats

/-- `ski_stats_add_data_access_byte` -/
def skiStatsAddDataAccessByte (stats : SkiStats) (dataAddress eipAddress : BitVec 32) (isWrite : Bool)
    (cpuNo : Nat) : SkiStats :=
  match findOrInsert stats.data dataAddress with
  | none => stats
  | some (data, i) => addDataInstruction { stats with data := data.modify i (markAccess isWrite cpuNo) } i eipAddress

/-- `ski_stats_add_data_access`; `none` when an assertion fails. -/
def skiStatsAddDataAccess (stats : SkiStats) (dataAddress eipAddress : BitVec 32) (sizeBytes : Nat) (isWrite : Bool)
    (cpuNo : Nat) : Option SkiStats :=
  if sizeBytes < maxAccessSize ∧ cpuNo < statsMaxCpu then
    some ((List.range sizeBytes).foldl
      (fun stats s => skiStatsAddDataAccessByte stats (dataAddress + BitVec.ofNat 32 s) eipAddress isWrite cpuNo) stats)
  else none

/-- `ski_stats_add_communication_instruction`, with whether the instruction is new. -/
def skiStatsAddCommunicationInstruction (stats : SkiStats) (eip : BitVec 32) : Option (SkiStats × Bool) :=
  if eip ∈ stats.communicationInstructions then some (stats, false)
  else if stats.communicationInstructions.length < maxIpfilterHash then
    some ({ stats with communicationInstructions := stats.communicationInstructions ++ [eip] }, true)
  else none

/-- The loop over the CPUs: whether one of them wrote, and how many accessed the address. -/
def scanCpus (flag : BitVec 32) (cpus : List Nat) (acc : Bool × Nat) : Bool × Nat :=
  cpus.foldl
    (fun acc cpuNo =>
      (if getWCpu flag cpuNo ≠ 0 then true else acc.1,
       if getWCpu flag cpuNo ≠ 0 ∨ getRCpu flag cpuNo ≠ 0 then acc.2 + 1 else acc.2)) acc

def isCommunicationPoint (da : SkiStatsDataAccesses) : Bool :=
  let (writeExists, nCpusAccessing) := scanCpus da.rwCpuSizeFlag (List.range statsMaxCpu) (false, 0)
  writeExists && 1 < nCpusAccessing

/-- What the loop over the table carries along: the statistics and the two counters. -/
structure Collection where
  stats : SkiStats
  communicationEips : Int
  communicationData : Int

def collectInstruction (acc : Collection) (eip : BitVec 32) : Option Collection := do
  let (stats, _) ← skiStatsAddCommunicationInstruction acc.stats eip
  some { acc with stats := stats, communicationEips := acc.communicationEips + 1 }

def collectAddress (acc : Collection) (da : SkiStatsDataAccesses) : Option Collection :=
  if isCommunicationPoint da then do
    let acc ← da.dataInstructions.foldlM collectInstruction acc
    some { acc with communicationData := acc.communicationData + 1 }
  else some acc

/-- `ski_stats_compute_communication_instructions`; `none` when the table of results overflows. -/
def skiStatsComputeCommunicationInstructions (inputNumber : Int × Int) (stats : SkiStats) : Option SkiStats :=
  if stats.inputNumber = inputNumber then do
    let acc ← stats.data.foldlM collectAddress { stats := stats, communicationEips := 0, communicationData := 0 }
    some { acc.stats with communicationEips := acc.communicationEips, communicationData := acc.communicationData }
  else some { stats with communicationEips := 0, communicationData := 0 }

/-- A data access of the test. -/
structure DataAccess where
  dataAddress : BitVec 32
  eipAddress : BitVec 32
  sizeBytes : Nat
  isWrite : Bool
  cpuNo : Nat

/-- A whole test: its accesses, and the exit. -/
def statsOfTest (inputNumber : Int × Int) (accesses : List DataAccess) : Option SkiStats := do
  let stats ← accesses.foldlM
    (fun stats a => skiStatsAddDataAccess stats a.dataAddress a.eipAddress a.sizeBytes a.isWrite a.cpuNo)
    (skiStatsStart inputNumber)
  skiStatsComputeCommunicationInstructions inputNumber stats

/-! ## What the accesses mean -/

/-- An access to one byte. -/
structure ByteAccess where
  address : BitVec 32
  eip : BitVec 32
  isWrite : Bool
  cpuNo : Nat
deriving DecidableEq

/-- The bytes of an access; addresses wrap around. -/
def DataAccess.bytes (a : DataAccess) : List ByteAccess :=
  (List.range a.sizeBytes).map fun s =>
    { address := a.dataAddress + BitVec.ofNat 32 s, eip := a.eipAddress, isWrite := a.isWrite, cpuNo := a.cpuNo }

def bytesOf (accesses : List DataAccess) : List ByteAccess := accesses.flatMap DataAccess.bytes

/-- The byte is written, and accessed by two CPUs. -/
def Shared (bs : List ByteAccess) (address : BitVec 32) : Prop :=
  (∃ b ∈ bs, b.address = address ∧ b.isWrite = true) ∧
    ∃ b ∈ bs, ∃ b' ∈ bs, b.address = address ∧ b'.address = address ∧ b.cpuNo ≠ b'.cpuNo

/-- The instruction accesses a shared byte. -/
def Communicates (bs : List ByteAccess) (eip : BitVec 32) : Prop := ∃ b ∈ bs, b.eip = eip ∧ Shared bs b.address

instance (bs : List ByteAccess) (address : BitVec 32) : Decidable (Shared bs address) := by
  unfold Shared
  infer_instance

instance (bs : List ByteAccess) (eip : BitVec 32) : Decidable (Communicates bs eip) := by
  unfold Communicates
  infer_instance

/-- The different byte addresses, the different instructions of each of them, and the communication instructions fit
    into their tables. -/
structure WithinCapacity (bs : List ByteAccess) : Prop where
  addresses : (bs.map ByteAccess.address).dedup.length ≤ maxDataAddresses
  instructions : (bs.map fun b => (b.address, b.eip)).dedup.length ≤ maxDataInstructionAddresses
  communication : ((bs.map ByteAccess.eip).filter fun e => Communicates bs e).dedup.length ≤ maxIpfilterHash

/-! ## The flags -/

/-- The bit of the writes, or reads, of a CPU. -/
def flagBit (isWrite : Bool) (cpuNo : Nat) : Nat := if isWrite then cpuNo + 8 else cpuNo

theorem and_bit_ne_zero_iff (flag : BitVec 32) (i : Nat) : flag &&& (1#32 <<< i) ≠ 0 ↔ flag.getLsbD i = true := by
  rw [← BitVec.twoPow_eq, BitVec.and_twoPow]
  cases hbit : flag.getLsbD i with
  | false => simp
  | true =>
    have hlt : i < 32 := BitVec.lt_of_getLsbD hbit
    have hne : BitVec.twoPow 32 i ≠ 0 := by
      intro heq
      have := congrArg (fun x => x.getLsbD i) heq
      simp [hlt] at this
    simpa using hne

theorem getLsbD_or_bit (flag : BitVec 32) {i : Nat} (hi : i < 32) (j : Nat) :
    (flag ||| (1#32 <<< i)).getLsbD j = (flag.getLsbD j || decide (i = j)) := by
  rw [← BitVec.twoPow_eq, BitVec.getLsbD_or, BitVec.getLsbD_twoPow]
  simp [hi]

theorem flagBit_lt (w : Bool) {c : Nat} (hc : c < statsMaxCpu) : flagBit w c < 12 := by
  unfold statsMaxCpu at hc
  unfold flagBit
  split <;> omega

/-- The bits of the writes are above those of the reads. -/
theorem flagBit_inj {w w' : Bool} {c c' : Nat} (hc : c < statsMaxCpu) (hc' : c' < statsMaxCpu) :
    flagBit w c = flagBit w' c' ↔ w = w' ∧ c = c' := by
  unfold statsMaxCpu at hc hc'
  cases w <;> cases w' <;> simp [flagBit] <;> omega

theorem markFlag_eq (flag : BitVec 32) (isWrite : Bool) (cpuNo : Nat) :
    markFlag flag isWrite cpuNo = (flag ||| (1#32 <<< 17)) ||| (1#32 <<< flagBit isWrite cpuNo) := by
  cases isWrite <;> rfl

/-- **An access sets the bit of its kind and its CPU**, and no other of them. -/
theorem getLsbD_markFlag (flag : BitVec 32) (isWrite : Bool) {cpuNo : Nat} (hcpu : cpuNo < statsMaxCpu) (w : Bool)
    {c : Nat} (hc : c < statsMaxCpu) :
    (markFlag flag isWrite cpuNo).getLsbD (flagBit w c) = true ↔
      flag.getLsbD (flagBit w c) = true ∨ isWrite = w ∧ cpuNo = c := by
  have hbit := flagBit_lt isWrite hcpu
  have hsize : (17 : Nat) ≠ flagBit w c := by
    have := flagBit_lt w hc
    omega
  rw [markFlag_eq, getLsbD_or_bit _ (by omega), getLsbD_or_bit _ (by omega), decide_eq_false hsize, Bool.or_false,
    Bool.or_eq_true, decide_eq_true_eq, flagBit_inj hcpu hc]

/-! ## One entry -/

/-- The entry says who accessed its address in `bs`, and from where. -/
structure Describes (bs : List ByteAccess) (da : SkiStatsDataAccesses) : Prop where
  flags : ∀ w c, c < statsMaxCpu → (da.rwCpuSizeFlag.getLsbD (flagBit w c) = true ↔
    ∃ b ∈ bs, b.address = da.dataAddress ∧ b.isWrite = w ∧ b.cpuNo = c)
  nodup : da.dataInstructions.Nodup
  instructions : ∀ e, e ∈ da.dataInstructions ↔ ∃ b ∈ bs, b.address = da.dataAddress ∧ b.eip = e

section Entry
variable {bs : List ByteAccess} {b : ByteAccess} {da : SkiStatsDataAccesses}

/-- The entry after one more access. -/
def SkiStatsDataAccesses.update (b : ByteAccess) (da : SkiStatsDataAccesses) : SkiStatsDataAccesses :=
  { markAccess b.isWrite b.cpuNo da with
    dataInstructions := if b.eip ∈ da.dataInstructions then da.dataInstructions else da.dataInstructions ++ [b.eip] }

theorem SkiStatsDataAccesses.length_dataInstructions_update (da : SkiStatsDataAccesses) :
    (da.update b).dataInstructions.length
      = da.dataInstructions.length + if b.eip ∈ da.dataInstructions then 0 else 1 := by
  unfold SkiStatsDataAccesses.update
  simp only
  split
  · rfl
  · exact List.length_append

theorem exists_mem_concat {P : ByteAccess → Prop} : (∃ a ∈ bs ++ [b], P a) ↔ (∃ a ∈ bs, P a) ∨ P b := by
  simp only [List.mem_append, List.mem_singleton, or_and_right, exists_or, exists_eq_left]

theorem describes_freshEntry {x : BitVec 32} (h : ¬ ∃ b ∈ bs, b.address = x) : Describes bs (freshEntry x) := by
  have hnone : ∀ P : ByteAccess → Prop, ¬ ∃ b ∈ bs, b.address = x ∧ P b := by
    rintro P ⟨b, hb, hx, -⟩
    exact h ⟨b, hb, hx⟩
  refine ⟨?_, List.nodup_nil, ?_⟩
  · intro w c _
    exact iff_of_false (by simp [freshEntry]) (hnone _)
  · intro e
    exact iff_of_false List.not_mem_nil (hnone _)

/-- An access elsewhere. -/
theorem Describes.concat_of_ne (h : Describes bs da) (hne : b.address ≠ da.dataAddress) : Describes (bs ++ [b]) da := by
  refine ⟨?_, h.nodup, ?_⟩
  · intro w c hc
    rw [exists_mem_concat, h.flags w c hc]
    exact ⟨.inl, fun hor => hor.resolve_right fun hb => hne hb.1⟩
  · intro e
    rw [exists_mem_concat, h.instructions e]
    exact ⟨.inl, fun hor => hor.resolve_right fun hb => hne hb.1⟩

/-- An access to the address of the entry. -/
theorem Describes.update (h : Describes bs da) (haddr : b.address = da.dataAddress) (hcpu : b.cpuNo < statsMaxCpu) :
    Describes (bs ++ [b]) (da.update b) := by
  refine ⟨?_, ?_, ?_⟩
  · intro w c hc
    rw [exists_mem_concat]
    refine (getLsbD_markFlag da.rwCpuSizeFlag b.isWrite hcpu w hc).trans (or_congr (h.flags w c hc) ?_)
    exact (and_iff_right haddr).symm
  · unfold SkiStatsDataAccesses.update
    simp only
    split
    · exact h.nodup
    · next hnew => exact List.nodup_append'.mpr ⟨h.nodup, List.nodup_singleton _, by simpa using hnew⟩
  · intro e
    rw [exists_mem_concat]
    refine Iff.trans ?_ (or_congr (h.instructions e) (and_iff_right haddr).symm)
    unfold SkiStatsDataAccesses.update
    simp only
    split
    · next hold => exact ⟨.inl, fun hor => hor.elim id fun heq => heq ▸ hold⟩
    · rw [List.mem_append, List.mem_singleton, eq_comm]

end Entry

/-! ## The table -/

/-- The pairs of an address and one of its instructions. -/
def keys (data : List SkiStatsDataAccesses) : List (BitVec 32 × BitVec 32) :=
  data.flatMap fun da => da.dataInstructions.map fun e => (da.dataAddress, e)

/-- The table has one entry for each accessed address, and the instructions of all entries are counted. -/
structure Indexed (stats : SkiStats) (bs : List ByteAccess) : Prop where
  nodup : (stats.data.map SkiStatsDataAccesses.dataAddress).Nodup
  addresses : ∀ x, x ∈ stats.data.map SkiStatsDataAccesses.dataAddress ↔ ∃ b ∈ bs, b.address = x
  entries : ∀ da ∈ stats.data, Describes bs da
  count : stats.dataInstructionsN = (stats.data.map fun da => da.dataInstructions.length).sum

theorem indexed_start (inputNumber : Int × Int) : Indexed (skiStatsStart inputNumber) [] := by
  refine ⟨List.nodup_nil, ?_, ?_, rfl⟩
  · intro x
    simp [skiStatsStart]
  · intro da hda
    cases hda

section Table
variable {data : List SkiStatsDataAccesses} {bs : List ByteAccess} {x : BitVec 32}

theorem length_keys (data : List SkiStatsDataAccesses) :
    (keys data).length = (data.map fun da => da.dataInstructions.length).sum := by
  simp [keys, List.length_flatMap]

theorem nodup_keys (hnodup : (data.map SkiStatsDataAccesses.dataAddress).Nodup)
    (hentries : ∀ da ∈ data, da.dataInstructions.Nodup) : (keys data).Nodup := by
  refine List.nodup_flatMap.mpr ⟨?_, ?_⟩
  · intro da hda
    exact (hentries da hda).map fun e e' heq => (Prod.mk.inj heq).2
  · refine (List.pairwise_map.mp hnodup).imp ?_
    intro da da' hne p hp hp'
    obtain ⟨e, -, rfl⟩ := List.mem_map.mp hp
    obtain ⟨e', -, heq⟩ := List.mem_map.mp hp'
    exact hne (Prod.mk.inj heq).1.symm

/-- A new instruction for an address is one more pair than the table has. -/
theorem length_keys_lt_of_new {b : ByteAccess} {da : SkiStatsDataAccesses}
    (hnodup : (data.map SkiStatsDataAccesses.dataAddress).Nodup) (hentries : ∀ da ∈ data, Describes bs da)
    (hda : da ∈ data) (haddr : da.dataAddress = b.address) (hnew : b.eip ∉ da.dataInstructions) :
    (keys data).length < ((bs ++ [b]).map fun b => (b.address, b.eip)).dedup.length := by
  have hkeys := nodup_keys hnodup fun da hda => (hentries da hda).nodup
  refine length_lt_length_dedup (a := (b.address, b.eip)) hkeys ?_ ?_
    (List.mem_map.mpr ⟨b, List.mem_append_right _ List.mem_cons_self, rfl⟩)
  · -- the pair would make the instruction one of the accesses to the address, which the entry lists
    intro hp
    obtain ⟨da', hda', hp⟩ := List.mem_flatMap.mp hp
    obtain ⟨e, he, heq⟩ := List.mem_map.mp hp
    obtain ⟨haddr', rfl⟩ := Prod.mk.inj heq
    refine hnew (((hentries da hda).instructions b.eip).mpr ?_)
    rw [haddr, ← haddr']
    exact ((hentries da' hda').instructions b.eip).mp he
  · intro p hp
    obtain ⟨da', hda', hp⟩ := List.mem_flatMap.mp hp
    obtain ⟨e, he, rfl⟩ := List.mem_map.mp hp
    obtain ⟨a, ha, haddr', rfl⟩ := ((hentries da' hda').instructions e).mp he
    exact List.mem_map.mpr ⟨a, List.mem_append_left _ ha, by rw [haddr']⟩

/-- Looking an address up in a table with room for it. -/
theorem findOrInsert_spec (hnodup : (data.map SkiStatsDataAccesses.dataAddress).Nodup)
    (haddresses : ∀ y, y ∈ data.map SkiStatsDataAccesses.dataAddress ↔ ∃ b ∈ bs, b.address = y)
    (hentries : ∀ da ∈ data, Describes bs da)
    (hroom : x ∉ data.map SkiStatsDataAccesses.dataAddress → data.length < maxDataAddresses) :
    ∃ data' i da, findOrInsert data x = some (data', i) ∧ data'[i]? = some da ∧ da.dataAddress = x ∧
      (data'.map SkiStatsDataAccesses.dataAddress).Nodup ∧
      (∀ y, y ∈ data'.map SkiStatsDataAccesses.dataAddress ↔ (∃ b ∈ bs, b.address = y) ∨ x = y) ∧
      (∀ da ∈ data', Describes bs da) ∧
      (data'.map fun da => da.dataInstructions.length).sum = (data.map fun da => da.dataInstructions.length).sum := by
  unfold findOrInsert
  cases hfind : data.findIdx? fun da => da.dataAddress = x with
  | some i =>
    obtain ⟨hlt, hi, -⟩ := List.findIdx?_eq_some_iff_getElem.mp hfind
    have hx : data[i].dataAddress = x := of_decide_eq_true hi
    refine ⟨data, i, data[i], rfl, List.getElem?_eq_getElem hlt, hx, hnodup, ?_, hentries, rfl⟩
    intro y
    refine (haddresses y).trans ⟨.inl, fun hor => hor.elim id ?_⟩
    rintro rfl
    exact (haddresses x).mp (hx ▸ List.mem_map_of_mem (List.getElem_mem hlt))
  | none =>
    have hx : x ∉ data.map SkiStatsDataAccesses.dataAddress := by
      intro hmem
      obtain ⟨da, hda, rfl⟩ := List.mem_map.mp hmem
      exact absurd rfl (of_decide_eq_false (List.findIdx?_eq_none_iff.mp hfind da hda))
    refine ⟨data ++ [freshEntry x], data.length, freshEntry x, if_pos (hroom hx), List.getElem?_concat_length, rfl,
      ?_, ?_, ?_, ?_⟩
    · rw [List.map_append]
      exact List.nodup_append'.mpr ⟨hnodup, List.nodup_singleton _, by simpa [freshEntry] using hx⟩
    · intro y
      rw [List.map_append, List.mem_append, haddresses y]
      exact or_congr Iff.rfl (List.mem_singleton.trans eq_comm)
    · intro da hda
      rcases List.mem_append.mp hda with hold | hnew
      · exact hentries da hold
      · rw [List.mem_singleton.mp hnew]
        exact describes_freshEntry fun hb => hx ((haddresses x).mpr hb)
    · simp [freshEntry]

/-- Replacing the entry of an address by one that also knows the new access. -/
theorem describes_set {b : ByteAccess} {da : SkiStatsDataAccesses} {i : Nat} (hget : data[i]? = some da)
    (haddr : da.dataAddress = b.address) (hcpu : b.cpuNo < statsMaxCpu)
    (hnodup : (data.map SkiStatsDataAccesses.dataAddress).Nodup) (hentries : ∀ da ∈ data, Describes bs da) :
    ∀ da' ∈ data.set i (da.update b), Describes (bs ++ [b]) da' := by
  intro da' hda'
  obtain ⟨j, hj⟩ := List.mem_iff_getElem?.mp hda'
  obtain ⟨hlt, rfl⟩ := List.getElem?_eq_some_iff.mp hget
  by_cases hij : i = j
  · subst hij
    rw [List.getElem?_set_self hlt, Option.some.injEq] at hj
    subst hj
    exact (hentries _ (List.getElem_mem hlt)).update haddr.symm hcpu
  · rw [List.getElem?_set_ne hij] at hj
    refine (hentries da' (List.mem_of_getElem? hj)).concat_of_ne ?_
    -- addresses do not repeat
    intro heq
    refine hij ((List.getElem?_inj (by rwa [List.length_map]) hnodup).mp ?_)
    rw [List.getElem?_map, List.getElem?_map, hget, hj, Option.map_some, Option.map_some, haddr, heq]

end Table

section Accesses
variable {stats : SkiStats} {bs : List ByteAccess} {b : ByteAccess}

/-- A new address is one more than the table knows. -/
theorem Indexed.length_lt_of_new (h : Indexed stats bs)
    (hnew : b.address ∉ stats.data.map SkiStatsDataAccesses.dataAddress) :
    stats.data.length < ((bs ++ [b]).map ByteAccess.address).dedup.length := by
  rw [← List.length_map SkiStatsDataAccesses.dataAddress]
  refine length_lt_length_dedup h.nodup hnew ?_ (List.mem_map_of_mem (List.mem_append_right _ List.mem_cons_self))
  intro x hx
  obtain ⟨a, ha, rfl⟩ := (h.addresses x).mp hx
  exact List.mem_map_of_mem (List.mem_append_left _ ha)

/-- **One byte**: the table goes on describing the accesses as long as they fit. -/
theorem Indexed.add (h : Indexed stats bs) (hcpu : b.cpuNo < statsMaxCpu)
    (haddresses : ((bs ++ [b]).map ByteAccess.address).dedup.length ≤ maxDataAddresses)
    (hinstructions : ((bs ++ [b]).map fun b => (b.address, b.eip)).dedup.length ≤ maxDataInstructionAddresses) :
    ∃ data n, skiStatsAddDataAccessByte stats b.address b.eip b.isWrite b.cpuNo
        = { stats with data := data, dataInstructionsN := n } ∧
      Indexed { stats with data := data, dataInstructionsN := n } (bs ++ [b]) := by
  obtain ⟨data, i, da, hfind, hget, hx, hnodup, haddr, hentries, hsum⟩ :=
    findOrInsert_spec h.nodup h.addresses h.entries fun hnew => Nat.lt_of_lt_of_le (h.length_lt_of_new hnew) haddresses
  obtain ⟨hlt, hda⟩ := List.getElem?_eq_some_iff.mp hget
  have hroom : b.eip ∉ da.dataInstructions → stats.dataInstructionsN < maxDataInstructionAddresses := by
    intro hnew
    refine Nat.lt_of_lt_of_le ?_ hinstructions
    rw [h.count, ← hsum, ← length_keys]
    exact length_keys_lt_of_new hnodup hentries (List.mem_of_getElem? hget) hx hnew
  refine ⟨data.set i (da.update b), stats.dataInstructionsN + if b.eip ∈ da.dataInstructions then 0 else 1, ?_, ?_⟩
  · unfold skiStatsAddDataAccessByte
    simp only [hfind, addDataInstruction, modify_eq_set hget, List.getElem?_set_self hlt, List.set_set]
    unfold SkiStatsDataAccesses.update
    by_cases hold : b.eip ∈ da.dataInstructions
    · simp only [markAccess, hold, if_true, Nat.add_zero]
    · simp only [markAccess, if_neg hold, if_pos (hroom hold)]
  · have hmap : (data.set i (da.update b)).map SkiStatsDataAccesses.dataAddress
        = data.map SkiStatsDataAccesses.dataAddress := by
      rw [← modify_eq_set (f := fun da => da.update b) hget]
      exact map_modify_eq fun _ _ => rfl
    refine ⟨?_, ?_, describes_set hget hx hcpu hnodup hentries, ?_⟩
    · simp only [hmap]
      exact hnodup
    · intro x
      simp only [hmap]
      rw [haddr x, exists_mem_concat]
    · have hset := sum_map_set_add (f := fun da => da.dataInstructions.length) hget (da.update b)
      rw [da.length_dataInstructions_update] at hset
      simp only [h.count, ← hsum]
      omega

/-- **All bytes**, in the order of the accesses. -/
theorem Indexed.addAll {rest : List ByteAccess} (h : Indexed stats bs) (hcpu : ∀ b ∈ rest, b.cpuNo < statsMaxCpu)
    (haddresses : ((bs ++ rest).map ByteAccess.address).dedup.length ≤ maxDataAddresses)
    (hinstructions : ((bs ++ rest).map fun b => (b.address, b.eip)).dedup.length ≤ maxDataInstructionAddresses) :
    ∃ data n, rest.foldl (fun stats b => skiStatsAddDataAccessByte stats b.address b.eip b.isWrite b.cpuNo) stats
        = { stats with data := data, dataInstructionsN := n } ∧
      Indexed { stats with data := data, dataInstructionsN := n } (bs ++ rest) := by
  induction rest generalizing stats bs with
  | nil => exact ⟨stats.data, stats.dataInstructionsN, rfl, by rwa [List.append_nil]⟩
  | cons b rest ih =>
    rw [List.append_cons] at haddresses hinstructions ⊢
    have hsub : bs ++ [b] ⊆ bs ++ [b] ++ rest := List.subset_append_left _ _
    obtain ⟨data, n, hadd, h'⟩ := h.add (hcpu b List.mem_cons_self)
      (Nat.le_trans (length_dedup_le (List.map_subset _ hsub)) haddresses)
      (Nat.le_trans (length_dedup_le (List.map_subset _ hsub)) hinstructions)
    rw [List.foldl_cons, hadd]
    exact ih h' (fun a ha => hcpu a (List.mem_cons_of_mem b ha)) haddresses hinstructions

/-- An access is its bytes. -/
theorem skiStatsAddDataAccess_eq {a : DataAccess} (hsize : a.sizeBytes < maxAccessSize) (hcpu : a.cpuNo < statsMaxCpu) :
    skiStatsAddDataAccess stats a.dataAddress a.eipAddress a.sizeBytes a.isWrite a.cpuNo
      = some (a.bytes.foldl
          (fun stats b => skiStatsAddDataAccessByte stats b.address b.eip b.isWrite b.cpuNo) stats) := by
  unfold skiStatsAddDataAccess DataAccess.bytes
  rw [if_pos ⟨hsize, hcpu⟩, List.foldl_map]

theorem foldlM_skiStatsAddDataAccess {accesses : List DataAccess}
    (h : ∀ a ∈ accesses, a.sizeBytes < maxAccessSize ∧ a.cpuNo < statsMaxCpu) :
    accesses.foldlM
        (fun stats a => skiStatsAddDataAccess stats a.dataAddress a.eipAddress a.sizeBytes a.isWrite a.cpuNo) stats
      = some ((bytesOf accesses).foldl
          (fun stats b => skiStatsAddDataAccessByte stats b.address b.eip b.isWrite b.cpuNo) stats) := by
  induction accesses generalizing stats with
  | nil => rfl
  | cons a accesses ih =>
    obtain ⟨hsize, hcpu⟩ := h a List.mem_cons_self
    rw [List.foldlM_cons, skiStatsAddDataAccess_eq hsize hcpu, Option.bind_eq_bind, Option.bind_some,
      ih fun a' ha' => h a' (List.mem_cons_of_mem a ha')]
    unfold bytesOf
    rw [List.flatMap_cons, List.foldl_append]

end Accesses

/-! ## The pass at exit -/

/-- The loop over the CPUs finds out whether one of them wrote, and counts those that accessed. -/
theorem scanCpus_eq (flag : BitVec 32) (cpus : List Nat) (acc : Bool × Nat) :
    scanCpus flag cpus acc
      = (acc.1 || cpus.any fun c => flag.getLsbD (flagBit true c),
         acc.2 + cpus.countP fun c => flag.getLsbD (flagBit true c) || flag.getLsbD (flagBit false c)) := by
  induction cpus generalizing acc with
  | nil => simp [scanCpus]
  | cons c cpus ih =>
    unfold scanCpus at ih ⊢
    rw [List.foldl_cons, ih, List.any_cons, List.countP_cons]
    simp only [getWCpu, getRCpu, and_bit_ne_zero_iff, flagBit, if_true, Bool.false_eq_true, if_false]
    cases flag.getLsbD (c + 8) <;> cases flag.getLsbD c <;> simp <;> omega

section Exit
variable {bs : List ByteAccess}

/-- **An entry is a communication point iff its address is shared.** -/
theorem isCommunicationPoint_iff {da : SkiStatsDataAccesses} (h : Describes bs da)
    (hcpu : ∀ b ∈ bs, b.cpuNo < statsMaxCpu) : isCommunicationPoint da = true ↔ Shared bs da.dataAddress := by
  have haccessed : ∀ c, c < statsMaxCpu → ((da.rwCpuSizeFlag.getLsbD (flagBit true c) ||
      da.rwCpuSizeFlag.getLsbD (flagBit false c)) = true ↔ ∃ b ∈ bs, b.address = da.dataAddress ∧ b.cpuNo = c) := by
    intro c hc
    rw [Bool.or_eq_true, h.flags true c hc, h.flags false c hc]
    constructor
    · rintro (⟨b, hb, haddr, -, hbc⟩ | ⟨b, hb, haddr, -, hbc⟩) <;> exact ⟨b, hb, haddr, hbc⟩
    · rintro ⟨b, hb, haddr, hbc⟩
      cases hw : b.isWrite with
      | true => exact .inl ⟨b, hb, haddr, hw, hbc⟩
      | false => exact .inr ⟨b, hb, haddr, hw, hbc⟩
  unfold isCommunicationPoint
  rw [scanCpus_eq]
  simp only [Bool.false_or, Nat.zero_add, Bool.and_eq_true, decide_eq_true_eq]
  refine and_congr ?_ ?_
  · rw [List.any_eq_true]
    constructor
    · rintro ⟨c, hc, hbit⟩
      obtain ⟨b, hb, haddr, hw, -⟩ := (h.flags true c (List.mem_range.mp hc)).mp hbit
      exact ⟨b, hb, haddr, hw⟩
    · rintro ⟨b, hb, haddr, hw⟩
      exact ⟨b.cpuNo, List.mem_range.mpr (hcpu b hb), (h.flags true _ (hcpu b hb)).mpr ⟨b, hb, haddr, hw, rfl⟩⟩
  · rw [one_lt_countP_iff List.nodup_range]
    constructor
    · rintro ⟨c, hc, c', hc', hacc, hacc', hne⟩
      obtain ⟨b, hb, haddr, rfl⟩ := (haccessed c (List.mem_range.mp hc)).mp hacc
      obtain ⟨b', hb', haddr', rfl⟩ := (haccessed c' (List.mem_range.mp hc')).mp hacc'
      exact ⟨b, hb, b', hb', haddr, haddr', hne⟩
    · rintro ⟨b, hb, b', hb', haddr, haddr', hne⟩
      exact ⟨b.cpuNo, List.mem_range.mpr (hcpu b hb), b'.cpuNo, List.mem_range.mpr (hcpu b' hb'),
        (haccessed _ (hcpu b hb)).mpr ⟨b, hb, haddr, rfl⟩, (haccessed _ (hcpu b' hb')).mpr ⟨b', hb', haddr', rfl⟩, hne⟩

/-- The results so far are the instructions `es`, each of them once. -/
structure Collected (acc : Collection) (es : List (BitVec 32)) : Prop where
  nodup : acc.stats.communicationInstructions.Nodup
  mem_iff : ∀ e, e ∈ acc.stats.communicationInstructions ↔ e ∈ es

/-- One more instruction, out of a set `all` that fits into the table. -/
theorem Collected.instruction {acc : Collection} {es all : List (BitVec 32)} {e : BitVec 32} (h : Collected acc es)
    (hfit : all.dedup.length ≤ maxIpfilterHash) (hall : ∀ e' ∈ es ++ [e], e' ∈ all) :
    ∃ acc', collectInstruction acc e = some acc' ∧ Collected acc' (es ++ [e]) := by
  unfold collectInstruction skiStatsAddCommunicationInstruction
  by_cases hold : e ∈ acc.stats.communicationInstructions
  · rw [if_pos hold]
    refine ⟨_, rfl, h.nodup, ?_⟩
    intro e'
    rw [List.mem_append, List.mem_singleton, h.mem_iff e']
    exact ⟨.inl, fun hor => hor.elim id fun heq => heq ▸ (h.mem_iff e).mp hold⟩
  · have hroom : acc.stats.communicationInstructions.length < maxIpfilterHash := by
      refine Nat.lt_of_lt_of_le (length_lt_length_dedup h.nodup hold ?_ (hall e ?_)) hfit
      · intro e' he'
        exact hall e' (List.mem_append_left _ ((h.mem_iff e').mp he'))
      · exact List.mem_append_right _ List.mem_cons_self
    rw [if_neg hold, if_pos hroom]
    refine ⟨_, rfl, ?_, ?_⟩
    · exact List.nodup_append'.mpr ⟨h.nodup, List.nodup_singleton _, by simpa using hold⟩
    · intro e'
      simp only [List.mem_append, h.mem_iff e']

theorem Collected.instructions {acc : Collection} {es rest all : List (BitVec 32)} (h : Collected acc es)
    (hfit : all.dedup.length ≤ maxIpfilterHash) (hall : ∀ e ∈ es ++ rest, e ∈ all) :
    ∃ acc', rest.foldlM collectInstruction acc = some acc' ∧ Collected acc' (es ++ rest) := by
  induction rest generalizing acc es with
  | nil => exact ⟨acc, rfl, by rwa [List.append_nil]⟩
  | cons e rest ih =>
    rw [List.append_cons] at hall ⊢
    obtain ⟨acc₁, hrun, h₁⟩ := h.instruction hfit fun e' he' => hall e' (List.mem_append_left _ he')
    obtain ⟨acc', hrest, h'⟩ := ih h₁ hall
    exact ⟨acc', by rw [List.foldlM_cons, hrun]; exact hrest, h'⟩

/-- What an entry contributes. -/
def contribution (da : SkiStatsDataAccesses) : List (BitVec 32) :=
  if isCommunicationPoint da then da.dataInstructions else []

theorem Collected.addresses {acc : Collection} {data : List SkiStatsDataAccesses} {es all : List (BitVec 32)}
    (h : Collected acc es) (hfit : all.dedup.length ≤ maxIpfilterHash)
    (hall : ∀ e ∈ es ++ data.flatMap contribution, e ∈ all) :
    ∃ acc', data.foldlM collectAddress acc = some acc' ∧ Collected acc' (es ++ data.flatMap contribution) := by
  induction data generalizing acc es with
  | nil => exact ⟨acc, rfl, by rwa [List.flatMap_nil, List.append_nil]⟩
  | cons da data ih =>
    rw [List.flatMap_cons, ← List.append_assoc] at hall ⊢
    obtain ⟨acc₁, hrun, h₁⟩ : ∃ acc₁, collectAddress acc da = some acc₁ ∧ Collected acc₁ (es ++ contribution da) := by
      unfold collectAddress contribution
      split
      · next hpoint =>
        rw [contribution, if_pos hpoint] at hall
        obtain ⟨acc₁, hrun, h₁⟩ := h.instructions hfit fun e he => hall e (List.mem_append_left _ he)
        rw [hrun]
        exact ⟨_, rfl, h₁.nodup, h₁.mem_iff⟩
      · exact ⟨acc, rfl, by rwa [List.append_nil]⟩
    obtain ⟨acc', hrest, h'⟩ := ih h₁ hall
    exact ⟨acc', by rw [List.foldlM_cons, hrun]; exact hrest, h'⟩

/-- The contributions of a table that describes the accesses. -/
theorem Indexed.mem_contribution_iff {stats : SkiStats} (h : Indexed stats bs)
    (hcpu : ∀ b ∈ bs, b.cpuNo < statsMaxCpu) (e : BitVec 32) :
    e ∈ stats.data.flatMap contribution ↔ Communicates bs e := by
  rw [List.mem_flatMap]
  constructor
  · rintro ⟨da, hda, he⟩
    unfold contribution at he
    split at he
    · next hpoint =>
      have hdesc := h.entries da hda
      obtain ⟨b, hb, haddr, hbe⟩ := (hdesc.instructions e).mp he
      refine ⟨b, hb, hbe, ?_⟩
      rw [haddr]
      exact (isCommunicationPoint_iff hdesc hcpu).mp hpoint
    · cases he
  · rintro ⟨b, hb, rfl, hshared⟩
    obtain ⟨da, hda, haddr⟩ := List.mem_map.mp ((h.addresses b.address).mpr ⟨b, hb, rfl⟩)
    have hdesc := h.entries da hda
    refine ⟨da, hda, ?_⟩
    unfold contribution
    rw [if_pos ((isCommunicationPoint_iff hdesc hcpu).mpr (haddr ▸ hshared))]
    exact (hdesc.instructions b.eip).mpr ⟨b, hb, haddr.symm, rfl⟩

/-- **The pass at exit** over a table that describes the accesses. -/
theorem skiStatsComputeCommunicationInstructions_spec {stats : SkiStats} (h : Indexed stats bs)
    (hcpu : ∀ b ∈ bs, b.cpuNo < statsMaxCpu) (hempty : stats.communicationInstructions = [])
    (hfit : ((bs.map ByteAccess.eip).filter fun e => Communicates bs e).dedup.length ≤ maxIpfilterHash) :
    ∃ stats', skiStatsComputeCommunicationInstructions stats.inputNumber stats = some stats' ∧
      stats'.communicationInstructions.Nodup ∧ ∀ e, e ∈ stats'.communicationInstructions ↔ Communicates bs e := by
  have hstart : Collected { stats := stats, communicationEips := 0, communicationData := 0 } [] := by
    refine ⟨?_, ?_⟩
    · simp only [hempty]
      exact List.nodup_nil
    · intro e
      simp only [hempty]
  have hall : ∀ e ∈ [] ++ stats.data.flatMap contribution,
      e ∈ (bs.map ByteAccess.eip).filter fun e => Communicates bs e := by
    intro e he
    rw [List.nil_append, h.mem_contribution_iff hcpu] at he
    obtain ⟨b, hb, rfl, hshared⟩ := he
    exact List.mem_filter.mpr ⟨List.mem_map_of_mem hb, decide_eq_true ⟨b, hb, rfl, hshared⟩⟩
  obtain ⟨acc, hrun, hcollected⟩ := hstart.addresses hfit hall
  unfold skiStatsComputeCommunicationInstructions
  rw [if_pos rfl, hrun]
  refine ⟨_, rfl, hcollected.nodup, ?_⟩
  intro e
  refine (hcollected.mem_iff e).trans ?_
  rw [List.nil_append, h.mem_contribution_iff hcpu]

end Exit

/-- **The communication instructions of a test.** For every list of data accesses that fits into the tables, the pass
    at exit succeeds and leaves exactly the instructions that accessed a shared byte, each of them once. -/
theorem communicationInstructions_exact (inputNumber : Int × Int) (accesses : List DataAccess)
    (hok : ∀ a ∈ accesses, a.cpuNo < 4 ∧ a.sizeBytes ≤ 8) (hcapacity : WithinCapacity (bytesOf accesses)) :
    ∃ stats, statsOfTest inputNumber accesses = some stats ∧ stats.communicationInstructions.Nodup ∧
      ∀ eip, eip ∈ stats.communicationInstructions ↔ Communicates (bytesOf accesses) eip := by
  have hcpu : ∀ b ∈ bytesOf accesses, b.cpuNo < statsMaxCpu := by
    intro b hb
    obtain ⟨a, ha, hb⟩ := List.mem_flatMap.mp hb
    obtain ⟨s, -, rfl⟩ := List.mem_map.mp hb
    exact (hok a ha).1
  have hok' : ∀ a ∈ accesses, a.sizeBytes < maxAccessSize ∧ a.cpuNo < statsMaxCpu := fun a ha =>
    ⟨Nat.lt_succ_of_le (hok a ha).2, (hok a ha).1⟩
  obtain ⟨data, n, hdata, hindexed⟩ :=
    (indexed_start inputNumber).addAll hcpu hcapacity.addresses hcapacity.instructions
  obtain ⟨stats, hcompute, hresult⟩ :=
    skiStatsComputeCommunicationInstructions_spec hindexed hcpu rfl hcapacity.communication
  refine ⟨stats, ?_, hresult⟩
  unfold statsOfTest
  rw [foldlM_skiStatsAddDataAccess hok', hdata]
  exact hcompute

/-- CPU 1 writes a word that CPU 0 reads the last byte of; a third instruction works on other bytes. -/
def lastByte : List DataAccess :=
  [{ dataAddress := 0xfffffffe#32, eipAddress := 1#32, sizeBytes := 4, isWrite := true, cpuNo := 1 },
   { dataAddress := 1#32, eipAddress := 2#32, sizeBytes := 2, isWrite := false, cpuNo := 0 },
   { dataAddress := 3#32, eipAddress := 3#32, sizeBytes := 1, isWrite := true, cpuNo := 3 }]

theorem communicationInstructions_exact_lastByte :
    ∃ stats, statsOfTest (0, 0) lastByte = some stats ∧ 2#32 ∈ stats.communicationInstructions ∧
      3#32 ∉ stats.communicationInstructions := by
  have hok : ∀ a ∈ lastByte, a.cpuNo < 4 ∧ a.sizeBytes ≤ 8 := by decide
  have hcapacity : WithinCapacity (bytesOf lastByte) := ⟨by decide, by decide, by decide⟩
  obtain ⟨stats, hrun, -, hexact⟩ := communicationInstructions_exact (0, 0) lastByte hok hcapacity
  refine ⟨stats, hrun, (hexact 2#32).mpr (by decide), ?_⟩
  rw [hexact 3#32]
  decide

end SkiVmm.Detect
