import SkiVmm.Detect.Communication
import SkiVmm.Detect.Race
import SkiVmm.Lib.Hashed

/-!
# `Detect.Slot` — a statistics slot as it lies in shared memory (`ski-stats.c`)

A slot is used by one test after the other. Its tables are arrays with a counter and a hash over them; between
two tests `ski_stats_reset_slot` sets counters and hash heads back, and the cells keep what the last test left
there. `Detect.Communication` and `Detect.Race` speak of lists and know no stale cells. Here the slot is modelled
with them.

## Contents
- **Model.** `Slot`, its initialisation and reset, and the functions that record accesses and analyse them.
- **View.** `Slot.view` is what the slot holds in terms of the list models, and `Statistics.apply` what the
  operations are on it.

The parts of a slot that one function sets and only printing reads (pid, seed, times, file names, exit reason)
are left out, and so are the memory detector and the selective trace, which are not compiled in.
-/

namespace SkiVmm.Detect

open Lib

/-! ## The slot -/

/-- `SKI_STATS_MAX_INSTRUCTION_ADDRESSES` -/
def maxInstructionAddresses : Nat := 1 * 1000 * 1000

/-- `SKI_INSTRUCTION_DETECTOR_ENTRIES_MAX` -/
def detectorEntriesMax : Nat := 128 * 1024

/-- `ski_stats_instruction_accesses` -/
structure SkiStatsInstructionAccesses where
  eipAddress : BitVec 32
  totalAccesses : Int
deriving DecidableEq, Repr

/-- `ski_instruction_detector_entry` -/
structure SkiInstructionDetectorEntry where
  eipAddress : BitVec 32
  count : Int
deriving DecidableEq, Repr

/-- `ski_stats_data_accesses` as it is stored: the hash of its instructions lists keys and cells of the array
    `data_instructions`, which all addresses share. -/
structure DataCell where
  dataAddress : BitVec 32
  rwCpuSizeFlag : BitVec 32
  totalAccesses : Int
  dataInstructionsHash : List (BitVec 32 × Nat)

/-- `ski_race_detector` as it is stored, with the whole array `races`. -/
structure RaceDetectorCells where
  lastAccessPerCpu : List SkiRdMemoryAccess
  races : Filled SkiRdRace
  totalRaces : Int

/-- `ski_instruction_detector` -/
structure InstructionDetectorCells where
  instructions : Hashed (BitVec 32) SkiInstructionDetectorEntry
  totalInstructions : Int
  totalDistinctInstructions : Int

/-- `ski_stats`, one slot. -/
structure Slot where
  inputNumber : Int × Int
  instructions : Hashed (BitVec 32) SkiStatsInstructionAccesses
  data : Hashed (BitVec 32) DataCell
  dataInstructions : Filled (BitVec 32)
  preemptionPointsExecuted : Int
  communicationData : Int
  communicationEips : Int
  instructionsExecuted : Int
  communicationInstructions : Hashed (BitVec 32) (BitVec 32)
  rd : RaceDetectorCells
  /-- `id` -/
  detector : InstructionDetectorCells

/-! ## Initialisation and reset -/

/-- `ski_race_detector_init`: the array `races` is left as it is. -/
def RaceDetectorCells.init (rd : RaceDetectorCells) : RaceDetectorCells :=
  { lastAccessPerCpu := (List.range maxCpu).map emptySlot, races := rd.races.clear, totalRaces := 0 }

/-- `ski_instruction_detector_add_entry`; an entry that exists already fails an assertion. -/
def InstructionDetectorCells.addEntry (det : InstructionDetectorCells) (eip : BitVec 32) :
    Option InstructionDetectorCells :=
  match det.instructions.find? SkiInstructionDetectorEntry.eipAddress eip with
  | some _ => none
  | none =>
    if det.instructions.used < detectorEntriesMax then
      some { det with
        instructions := det.instructions.insert SkiInstructionDetectorEntry.eipAddress fun entry =>
          { entry with eipAddress := eip } }
    else none

/-- `ski_instruction_detector_reset_count`: the counts of the entries in use and the totals. -/
def InstructionDetectorCells.resetCount (det : InstructionDetectorCells) : InstructionDetectorCells where
  instructions := (List.range det.instructions.used).foldl
    (fun instructions i => instructions.modify i fun entry => { entry with count := 0 }) det.instructions
  totalInstructions := 0
  totalDistinctInstructions := 0

/-- `ski_instruction_detector_load`. The file is given by the addresses of its lines up to the first one that
    is no number; without a file name nothing is loaded. -/
def InstructionDetectorCells.load (det : InstructionDetectorCells) : Option (List (BitVec 32)) →
    Option InstructionDetectorCells
  | none => some det
  | some eips => do
    let det ← eips.foldlM addEntry det.resetCount
    if det.instructions.used ≠ 0 then some det else none

/-- A slot after the `memset` of `ski_stats_init_slot`. -/
def zeroSlot : Slot where
  inputNumber := (0, 0)
  instructions := .empty { eipAddress := 0, totalAccesses := 0 }
  data := .empty { dataAddress := 0, rwCpuSizeFlag := 0, totalAccesses := 0, dataInstructionsHash := [] }
  dataInstructions := .empty 0
  preemptionPointsExecuted := 0
  communicationData := 0
  communicationEips := 0
  instructionsExecuted := 0
  communicationInstructions := .empty 0
  rd :=
    { lastAccessPerCpu := List.replicate maxCpu (emptySlot 0)
      races := .empty { m1 := emptySlot 0, m2 := emptySlot 0 }
      totalRaces := 0 }
  detector :=
    { instructions := .empty { eipAddress := 0, count := 0 }, totalInstructions := 0, totalDistinctInstructions := 0 }

/-- `ski_stats_init_slot` -/
def skiStatsInitSlot (file : Option (List (BitVec 32))) : Option Slot :=
  (zeroSlot.detector.load file).map fun detector => { zeroSlot with rd := zeroSlot.rd.init, detector := detector }

/-- `ski_stats_reset_slot` -/
def skiStatsResetSlot (s : Slot) : Slot where
  inputNumber := (0, 0)
  instructions := s.instructions.clear
  data := s.data.clear
  dataInstructions := s.dataInstructions.clear
  preemptionPointsExecuted := 0
  communicationData := 0
  communicationEips := 0
  instructionsExecuted := 0
  communicationInstructions := s.communicationInstructions.clear
  rd := s.rd.init
  detector := s.detector.resetCount

namespace Slot

/-! ## Recording -/

/-- The new entry of an instruction, written over what the cell held. -/
def enterInstruction (eipAddress : BitVec 32) (ia : SkiStatsInstructionAccesses) : SkiStatsInstructionAccesses :=
  { ia with eipAddress := eipAddress, totalAccesses := 0 }

/-- `ski_stats_add_instruction_access`. The assertion admits as many entries as there are data addresses, three
    times the length of the array; the model stops where the array ends. -/
def skiStatsAddInstructionAccess (s : Slot) (eipAddress : BitVec 32) : Option Slot := do
  let (instructions, i) ← s.instructions.findOrInsert SkiStatsInstructionAccesses.eipAddress eipAddress
    (min maxDataAddresses maxInstructionAddresses) (enterInstruction eipAddress)
  some { s with instructions := instructions.modify i fun ia => { ia with totalAccesses := ia.totalAccesses + 1 } }

/-- The new entry of an address, written over what the cell held. -/
def enterAddress (dataAddress : BitVec 32) (da : DataCell) : DataCell :=
  { da with dataAddress := dataAddress, rwCpuSizeFlag := 0, dataInstructionsHash := [], totalAccesses := 0 }

/-- The flags and the total of an address after an access to it. -/
def mark (isWrite : Bool) (cpuNo : Nat) (da : DataCell) : DataCell :=
  { da with rwCpuSizeFlag := markFlag da.rwCpuSizeFlag isWrite cpuNo, totalAccesses := da.totalAccesses + 1 }

/-- The second half of `ski_stats_add_data_access_byte`: the instruction of the access, for address entry `i`. -/
def addDataInstruction (s : Slot) (i : Nat) (eipAddress : BitVec 32) : Slot :=
  if (s.data.cells i).dataInstructionsHash.any
      fun e => e.1 = eipAddress ∧ s.dataInstructions.cells e.2 = eipAddress then s
  else if s.dataInstructions.used < maxDataInstructionAddresses then
    { s with
      dataInstructions := s.dataInstructions.push fun _ => eipAddress
      data := s.data.modify i fun da =>
        { da with dataInstructionsHash := da.dataInstructionsHash ++ [(eipAddress, s.dataInstructions.used)] } }
  else s

/-- `ski_stats_add_data_access_byte` -/
def skiStatsAddDataAccessByte (s : Slot) (dataAddress eipAddress : BitVec 32) (isWrite : Bool) (cpuNo : Nat) : Slot :=
  match s.data.findOrInsert DataCell.dataAddress dataAddress maxDataAddresses (enterAddress dataAddress) with
  | none => s
  | some (data, i) => addDataInstruction { s with data := data.modify i (mark isWrite cpuNo) } i eipAddress

/-- `ski_stats_add_data_access` -/
def skiStatsAddDataAccess (s : Slot) (a : DataAccess) : Option Slot :=
  if a.sizeBytes < maxAccessSize ∧ a.cpuNo < statsMaxCpu then
    some ((List.range a.sizeBytes).foldl
      (fun s b => s.skiStatsAddDataAccessByte (a.dataAddress + BitVec.ofNat 32 b) a.eipAddress a.isWrite a.cpuNo) s)
  else none

end Slot

namespace RaceDetectorCells

/-- `ski_race_detector_save_race` -/
def skiRaceDetectorSaveRace (rd : RaceDetectorCells) (m1 m2 : SkiRdMemoryAccess) : RaceDetectorCells :=
  let rd := { rd with totalRaces := addInt rd.totalRaces 1 }
  if rd.races.used < racesMax then { rd with races := rd.races.push fun _ => { m1 := m1, m2 := m2 } } else rd

/-- One iteration of the loop of `ski_race_detector_new_access`. -/
def compareWith (cpu : Nat) (ma : SkiRdMemoryAccess) (rd : RaceDetectorCells) (i : Nat) : Option RaceDetectorCells :=
  if i = cpu then some rd
  else do
    let ma2 ← rd.lastAccessPerCpu[i]?
    let isRace ← skiRaceDetectorIsRace ma ma2
    if isRace then some (rd.skiRaceDetectorSaveRace ma ma2) else some rd

/-- `ski_race_detector_new_access` -/
def skiRaceDetectorNewAccess (rd : RaceDetectorCells) (a : SkiRdMemoryAccess) : Option RaceDetectorCells :=
  if a.cpu < maxCpu then do
    let slot ← rd.lastAccessPerCpu[a.cpu]?
    let ma := { slot with
      physicalMemoryAddress := a.physicalMemoryAddress, ipAddress := a.ipAddress, length := a.length,
      isRead := a.isRead, instructionCount := a.instructionCount }
    (List.range maxCpu).foldlM (compareWith a.cpu ma) { rd with lastAccessPerCpu := rd.lastAccessPerCpu.set a.cpu ma }
  else none

end RaceDetectorCells

/-- `ski_instruction_detector_new_access` -/
def InstructionDetectorCells.skiInstructionDetectorNewAccess (det : InstructionDetectorCells) (eipAddress : BitVec 32) :
    InstructionDetectorCells :=
  match det.instructions.find? SkiInstructionDetectorEntry.eipAddress eipAddress with
  | none => det
  | some i =>
    { instructions := det.instructions.modify i fun entry => { entry with count := entry.count + 1 }
      totalInstructions := det.totalInstructions + 1
      totalDistinctInstructions :=
        if (det.instructions.cells i).count = 0 then det.totalDistinctInstructions + 1
        else det.totalDistinctInstructions }

/-! ## The analysis at exit -/

/-- What the loop over the addresses changes: the communication instructions and the two counters. -/
structure CollectionCells where
  communicationInstructions : Hashed (BitVec 32) (BitVec 32)
  communicationEips : Int
  communicationData : Int

namespace CollectionCells

/-- `ski_stats_add_communication_instruction`, and the count of the instructions seen. -/
def collectInstruction (acc : CollectionCells) (eip : BitVec 32) : Option CollectionCells := do
  let (communicationInstructions, _) ← acc.communicationInstructions.findOrInsert id eip maxIpfilterHash fun _ => eip
  some { acc with
    communicationInstructions := communicationInstructions, communicationEips := acc.communicationEips + 1 }

/-- One turn of the loop over the addresses. -/
def collectAddress (dataInstructions : Filled (BitVec 32)) (acc : CollectionCells) (da : DataCell) :
    Option CollectionCells :=
  let (writeExists, nCpusAccessing) := scanCpus da.rwCpuSizeFlag (List.range statsMaxCpu) (false, 0)
  if writeExists && 1 < nCpusAccessing then do
    let acc ← da.dataInstructionsHash.foldlM (fun acc e => acc.collectInstruction (dataInstructions.cells e.2)) acc
    some { acc with communicationData := acc.communicationData + 1 }
  else some acc

end CollectionCells

/-- The counters of the process that `ski_stats_compute_communication_instructions` reads: the input numbers of
    the options, `ski_sched_instructions_total` and `ski_exec_instruction_counter_total`. -/
structure ExitCounters where
  inputNumber : Int × Int
  schedInstructionsTotal : Int
  execInstructionCounterTotal : Int

/-- `ski_stats_compute_communication_instructions` -/
def Slot.skiStatsComputeCommunicationInstructions (s : Slot) (exit : ExitCounters) : Option Slot := do
  let start : CollectionCells :=
    { communicationInstructions := s.communicationInstructions, communicationEips := 0, communicationData := 0 }
  let acc ←
    if s.inputNumber = exit.inputNumber then
      (List.range s.data.used).foldlM
        (fun acc i => acc.collectAddress s.dataInstructions (s.data.cells i)) start
    else some start
  some { s with
    communicationInstructions := acc.communicationInstructions
    communicationEips := acc.communicationEips
    communicationData := acc.communicationData
    preemptionPointsExecuted := exit.schedInstructionsTotal
    instructionsExecuted := exit.execInstructionCounterTotal }

/-! ## Operations -/

/-- What is done to a slot after its initialisation. -/
inductive SlotOp where
  /-- `ski_stats_start`, with the input numbers of the options -/
  | start (inputNumber : Int × Int)
  | instruction (eipAddress : BitVec 32)
  | data (a : DataAccess)
  | race (a : SkiRdMemoryAccess)
  | detector (eipAddress : BitVec 32)
  | analyse (exit : ExitCounters)
  | reset

def Slot.apply (s : Slot) : SlotOp → Option Slot
  | .start inputNumber => some { s with inputNumber := inputNumber }
  | .instruction eipAddress => s.skiStatsAddInstructionAccess eipAddress
  | .data a => s.skiStatsAddDataAccess a
  | .race a => (s.rd.skiRaceDetectorNewAccess a).map fun rd => { s with rd := rd }
  | .detector eipAddress => some { s with detector := s.detector.skiInstructionDetectorNewAccess eipAddress }
  | .analyse exit => s.skiStatsComputeCommunicationInstructions exit
  | .reset => some (skiStatsResetSlot s)

/-! ## What a slot holds -/

/-- The entry of an address, with its instructions in the order of the hash. -/
def DataCell.view (dataInstructions : Filled (BitVec 32)) (da : DataCell) : SkiStatsDataAccesses where
  dataAddress := da.dataAddress
  rwCpuSizeFlag := da.rwCpuSizeFlag
  totalAccesses := da.totalAccesses
  dataInstructions := da.dataInstructionsHash.map fun e => dataInstructions.cells e.2

def RaceDetectorCells.view (rd : RaceDetectorCells) : SkiRaceDetector where
  lastAccessPerCpu := rd.lastAccessPerCpu
  races := rd.races.entries
  totalRaces := rd.totalRaces

/-- The instruction detector: its entries with their hits, and the totals. -/
structure InstructionDetector where
  entries : List SkiInstructionDetectorEntry
  totalInstructions : Int
  totalDistinctInstructions : Int
deriving DecidableEq, Repr

def InstructionDetectorCells.view (det : InstructionDetectorCells) : InstructionDetector where
  entries := det.instructions.entries
  totalInstructions := det.totalInstructions
  totalDistinctInstructions := det.totalDistinctInstructions

/-- **The observable statistics** of a slot. -/
structure Statistics where
  stats : SkiStats
  instructions : List SkiStatsInstructionAccesses
  rd : SkiRaceDetector
  detector : InstructionDetector
  preemptionPointsExecuted : Int
  instructionsExecuted : Int
deriving DecidableEq, Repr

/-- The statistics with another part for the data accesses. -/
def Statistics.withStats (v : Statistics) (stats : SkiStats) : Statistics := { v with stats := stats }

def Slot.stats (s : Slot) : SkiStats where
  inputNumber := s.inputNumber
  data := s.data.entries.map (DataCell.view s.dataInstructions)
  dataInstructionsN := s.dataInstructions.used
  communicationInstructions := s.communicationInstructions.entries
  communicationEips := s.communicationEips
  communicationData := s.communicationData

def Slot.view (s : Slot) : Statistics where
  stats := s.stats
  instructions := s.instructions.entries
  rd := s.rd.view
  detector := s.detector.view
  preemptionPointsExecuted := s.preemptionPointsExecuted
  instructionsExecuted := s.instructionsExecuted

/-! ## The operations on the view -/

def InstructionDetector.newAccess (det : InstructionDetector) (eipAddress : BitVec 32) : InstructionDetector :=
  match det.entries.findIdx? fun entry => entry.eipAddress = eipAddress with
  | none => det
  | some i =>
    { entries := det.entries.modify i fun entry => { entry with count := entry.count + 1 }
      totalInstructions := det.totalInstructions + 1
      totalDistinctInstructions :=
        if (det.entries[i]?.map SkiInstructionDetectorEntry.count) = some 0 then det.totalDistinctInstructions + 1
        else det.totalDistinctInstructions }

/-- The statistics of a new slot whose detector looks for the addresses `eips`. -/
def freshStatistics (eips : List (BitVec 32)) : Statistics where
  stats := skiStatsStart (0, 0)
  instructions := []
  rd := skiRaceDetectorInit
  detector :=
    { entries := eips.map fun eip => { eipAddress := eip, count := 0 }
      totalInstructions := 0, totalDistinctInstructions := 0 }
  preemptionPointsExecuted := 0
  instructionsExecuted := 0

def Statistics.apply (v : Statistics) : SlotOp → Option Statistics
  | .start inputNumber => some (v.withStats { v.stats with inputNumber := inputNumber })
  | .instruction eipAddress =>
    (findOrAppend SkiStatsInstructionAccesses.eipAddress v.instructions eipAddress
      (min maxDataAddresses maxInstructionAddresses) { eipAddress := eipAddress, totalAccesses := 0 }).map fun r =>
        { v with instructions := r.1.modify r.2 fun ia => { ia with totalAccesses := ia.totalAccesses + 1 } }
  | .data a =>
    (skiStatsAddDataAccess v.stats a.dataAddress a.eipAddress a.sizeBytes a.isWrite a.cpuNo).map v.withStats
  | .race a => (feed v.rd a).map fun rd => { v with rd := rd }
  | .detector eipAddress => some { v with detector := v.detector.newAccess eipAddress }
  | .analyse exit =>
    (skiStatsComputeCommunicationInstructions exit.inputNumber v.stats).map fun stats =>
      { v with
        stats := stats
        preemptionPointsExecuted := exit.schedInstructionsTotal
        instructionsExecuted := exit.execInstructionCounterTotal }
  | .reset => some (freshStatistics (v.detector.entries.map SkiInstructionDetectorEntry.eipAddress))

end SkiVmm.Detect
