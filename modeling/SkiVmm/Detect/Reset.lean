import SkiVmm.Detect.Slot
import SkiVmm.Lib.Refine

/-!
# `Detect.Reset` — a slot between two tests

Every operation on a statistics slot does to what the slot holds what the list models do (`apply_refines`), as
long as its hashes and arrays agree (`Slot.Ok`), and keeps them in agreement. What lies above the counters is not
seen: new entries are written over it. A slot that was reset therefore behaves like one just initialised, whatever
tests it was used for.
-/

namespace SkiVmm.Detect

open Lib

/-! ## Tables of a slot -/

/-- The hash of an address leads to cells in use that hold the keys. -/
def DataCell.Ok (dataInstructions : Filled (BitVec 32)) (da : DataCell) : Prop :=
  ∀ e ∈ da.dataInstructionsHash, e.2 < dataInstructions.used ∧ dataInstructions.cells e.2 = e.1

/-- All hashes of a slot agree with their arrays, and the detector looks for the addresses `eips`. -/
structure Slot.Ok (eips : List (BitVec 32)) (s : Slot) : Prop where
  instructions_ok : s.instructions.Ok SkiStatsInstructionAccesses.eipAddress
  data_ok : s.data.Ok DataCell.dataAddress
  cells_ok : ∀ da ∈ s.data.entries, da.Ok s.dataInstructions
  communication_ok : s.communicationInstructions.Ok id
  detector_ok : s.detector.instructions.Ok SkiInstructionDetectorEntry.eipAddress
  detector_eips : s.detector.instructions.entries.map SkiInstructionDetectorEntry.eipAddress = eips

variable {eips : List (BitVec 32)} {s s' : Slot}

section DataCell
variable {di : Filled (BitVec 32)} {da : DataCell}

/-- A cell taken from the shared array is not one of those in use. -/
theorem DataCell.Ok.cells_push (h : da.Ok di) (fill : BitVec 32 → BitVec 32) {e : BitVec 32 × Nat}
    (he : e ∈ da.dataInstructionsHash) : (di.push fill).cells e.2 = di.cells e.2 := by
  rw [Filled.cells_push, if_neg (Nat.ne_of_lt (h e he).1)]

theorem DataCell.Ok.push (h : da.Ok di) (fill : BitVec 32 → BitVec 32) : da.Ok (di.push fill) := by
  intro e he
  obtain ⟨hlt, hcell⟩ := h e he
  exact ⟨Nat.lt_succ_of_lt hlt, (h.cells_push fill he).trans hcell⟩

theorem DataCell.Ok.view_push (h : da.Ok di) (fill : BitVec 32 → BitVec 32) : da.view (di.push fill) = da.view di := by
  unfold DataCell.view
  rw [List.map_congr_left fun e he => h.cells_push fill he]

/-- The hash of an address finds the instructions that its view lists. -/
theorem DataCell.Ok.any_iff (h : da.Ok di) (eip : BitVec 32) :
    (da.dataInstructionsHash.any fun e => e.1 = eip ∧ di.cells e.2 = eip) = true
      ↔ eip ∈ (da.view di).dataInstructions := by
  unfold DataCell.view
  simp only [List.any_eq_true, decide_eq_true_eq, List.mem_map]
  constructor
  · rintro ⟨e, he, -, hcell⟩
    exact ⟨e, he, hcell⟩
  · rintro ⟨e, he, hcell⟩
    exact ⟨e, he, (h e he).2.symm.trans hcell, hcell⟩

/-- A new instruction at the end of the hash. -/
theorem DataCell.Ok.append (h : da.Ok di) (eip : BitVec 32) :
    let da' : DataCell := { da with dataInstructionsHash := da.dataInstructionsHash ++ [(eip, di.used)] }
    da'.Ok (di.push fun _ => eip) ∧ da'.view (di.push fun _ => eip)
      = { da.view di with dataInstructions := (da.view di).dataInstructions ++ [eip] } := by
  have hnew : (di.push fun _ => eip).cells di.used = eip := by
    rw [Filled.cells_push, if_pos rfl]
  constructor
  · intro e he
    rcases List.mem_append.mp he with hold | hlast
    · exact h.push _ e hold
    · obtain rfl := List.mem_singleton.mp hlast
      exact ⟨Nat.lt_succ_self _, hnew⟩
  · unfold DataCell.view
    rw [List.map_append, List.map_congr_left fun e he => h.cells_push (fun _ => eip) he, List.map_singleton, hnew]

end DataCell

/-! ## Data accesses -/

/-- The instruction of an access. -/
theorem addDataInstruction_refines (hok : s.Ok eips) {i : Nat} (hi : i < s.data.used) (eip : BitVec 32) :
    (s.addDataInstruction i eip).Ok eips ∧
      (s.addDataInstruction i eip).view = s.view.withStats (addDataInstruction s.stats i eip) := by
  have hget : s.data.entries[i]? = some (s.data.cells i) := Filled.getElem?_entries hi
  have hcell : (s.data.cells i).Ok s.dataInstructions := hok.cells_ok _ (List.mem_of_getElem? hget)
  have hview : s.stats.data[i]? = some ((s.data.cells i).view s.dataInstructions) := by
    show (s.data.entries.map _)[i]? = _
    rw [List.getElem?_map, hget, Option.map_some]
  unfold Slot.addDataInstruction addDataInstruction
  rw [hview]
  simp only
  by_cases hin : eip ∈ ((s.data.cells i).view s.dataInstructions).dataInstructions
  · rw [if_pos ((hcell.any_iff eip).mpr hin), if_pos hin]
    exact ⟨hok, rfl⟩
  rw [if_neg (mt (hcell.any_iff eip).mp hin), if_neg hin]
  by_cases hroom : s.dataInstructions.used < maxDataInstructionAddresses
  · have hroom' : s.stats.dataInstructionsN < maxDataInstructionAddresses := hroom
    rw [if_pos hroom, if_pos hroom']
    obtain ⟨hnew, hnewView⟩ := hcell.append eip
    have hset : (s.data.modify i fun da =>
          { da with dataInstructionsHash := da.dataInstructionsHash ++ [(eip, s.dataInstructions.used)] }).entries
        = s.data.entries.set i { s.data.cells i with
            dataInstructionsHash := (s.data.cells i).dataInstructionsHash ++ [(eip, s.dataInstructions.used)] } :=
      (Filled.entries_modify _ _ _).trans (modify_eq_set hget)
    refine ⟨{ hok with data_ok := hok.data_ok.modify rfl, cells_ok := ?_ }, ?_⟩
    · intro da hda
      rw [hset] at hda
      rcases List.mem_or_eq_of_mem_set hda with hold | rfl
      · exact (hok.cells_ok da hold).push _
      · exact hnew
    · unfold Slot.view Slot.stats
      simp only [hset, List.map_set, hnewView]
      rw [List.map_congr_left fun da hda => (hok.cells_ok da hda).view_push _]
      rfl
  · have hroom' : ¬ s.stats.dataInstructionsN < maxDataInstructionAddresses := hroom
    rw [if_neg hroom, if_neg hroom']
    exact ⟨hok, rfl⟩

/-- The table of addresses, with an entry for the one accessed. -/
theorem findOrInsert_refines (hok : s.Ok eips) (dataAddress : BitVec 32) :
    (s.data.findOrInsert DataCell.dataAddress dataAddress maxDataAddresses (Slot.enterAddress dataAddress)).map
        (fun r => (r.1.entries.map (DataCell.view s.dataInstructions), r.2))
      = findOrInsert s.stats.data dataAddress := by
  have hentries := hok.data_ok.findOrInsert_eq dataAddress maxDataAddresses
    (show ∀ da, Slot.enterAddress dataAddress da = ⟨dataAddress, 0, 0, []⟩ from fun _ => rfl)
  have hview : ∀ da : DataCell, (da.view s.dataInstructions).dataAddress = da.dataAddress := fun _ => rfl
  have hmap := findOrAppend_map hview s.data.entries dataAddress maxDataAddresses ⟨dataAddress, 0, 0, []⟩
  rw [← hentries, Option.map_map] at hmap
  exact hmap.symm

/-- The entries after the look-up: those of before, and perhaps the new one. -/
theorem cells_ok_of_findOrInsert (hok : s.Ok eips) {dataAddress : BitVec 32} {data : Hashed (BitVec 32) DataCell}
    {i : Nat}
    (h : s.data.findOrInsert DataCell.dataAddress dataAddress maxDataAddresses (Slot.enterAddress dataAddress)
      = some (data, i)) : ∀ da ∈ data.entries, da.Ok s.dataInstructions := by
  unfold Hashed.findOrInsert at h
  cases hfind : s.data.find? DataCell.dataAddress dataAddress with
  | some j =>
    rw [hfind] at h
    obtain ⟨rfl, rfl⟩ := Prod.mk.inj (Option.some.inj h)
    exact hok.cells_ok
  | none =>
    rw [hfind] at h
    simp only at h
    split_ifs at h
    obtain ⟨rfl, rfl⟩ := Prod.mk.inj (Option.some.inj h)
    intro da hda
    have hda' : da ∈ s.data.entries ++ [Slot.enterAddress dataAddress (s.data.cells s.data.used)] :=
      Filled.entries_push (Slot.enterAddress dataAddress) s.data.toFilled ▸ hda
    rcases List.mem_append.mp hda' with hold | hnew
    · exact hok.cells_ok da hold
    · obtain rfl := List.mem_singleton.mp hnew
      exact List.forall_mem_nil _

/-- **The access to one byte.** -/
theorem skiStatsAddDataAccessByte_refines (hok : s.Ok eips) (dataAddress eip : BitVec 32) (isWrite : Bool)
    (cpuNo : Nat) :
    (s.skiStatsAddDataAccessByte dataAddress eip isWrite cpuNo).Ok eips ∧
      (s.skiStatsAddDataAccessByte dataAddress eip isWrite cpuNo).view
        = s.view.withStats (skiStatsAddDataAccessByte s.stats dataAddress eip isWrite cpuNo) := by
  have hfind := findOrInsert_refines hok dataAddress
  unfold Slot.skiStatsAddDataAccessByte skiStatsAddDataAccessByte
  rw [← hfind]
  cases h : s.data.findOrInsert DataCell.dataAddress dataAddress maxDataAddresses (Slot.enterAddress dataAddress) with
  | none => exact ⟨hok, rfl⟩
  | some r =>
    obtain ⟨data, i⟩ := r
    obtain ⟨hdata, hi⟩ := hok.data_ok.findOrInsert_ok h
    have hcells := cells_ok_of_findOrInsert hok h
    have hentries : (data.modify i (Slot.mark isWrite cpuNo)).entries
        = data.entries.modify i (Slot.mark isWrite cpuNo) := Filled.entries_modify _ _ _
    have hok' : Slot.Ok eips { s with data := data.modify i (Slot.mark isWrite cpuNo) } := by
      refine { hok with data_ok := hdata.modify rfl, cells_ok := ?_ }
      intro da hda
      -- marking changes no hash
      have hmap : (data.entries.modify i (Slot.mark isWrite cpuNo)).map DataCell.dataInstructionsHash
          = data.entries.map DataCell.dataInstructionsHash := map_modify_eq fun _ _ => rfl
      have hmem : da.dataInstructionsHash ∈ data.entries.map DataCell.dataInstructionsHash := by
        rw [← hmap, ← hentries]
        exact List.mem_map_of_mem hda
      obtain ⟨da₀, hda₀, heq⟩ := List.mem_map.mp hmem
      have hda₀' := hcells da₀ hda₀
      unfold DataCell.Ok at hda₀' ⊢
      rwa [heq] at hda₀'
    obtain ⟨hfinal, hview⟩ := addDataInstruction_refines hok' hi eip
    refine ⟨hfinal, hview.trans ?_⟩
    have hstats : Slot.stats { s with data := data.modify i (Slot.mark isWrite cpuNo) }
        = { s.stats with
            data := (data.entries.map (DataCell.view s.dataInstructions)).modify i (markAccess isWrite cpuNo) } := by
      have hmark : ∀ da : DataCell, (Slot.mark isWrite cpuNo da).view s.dataInstructions
          = markAccess isWrite cpuNo (da.view s.dataInstructions) := fun _ => rfl
      unfold Slot.stats
      simp only [hentries, map_modify_comm hmark data.entries i]
    rw [hstats]
    rfl

/-- The bytes of an access, one after the other. -/
theorem foldl_skiStatsAddDataAccessByte_refines (a : DataAccess) (bytes : List Nat) (hok : s.Ok eips) :
    let s' := bytes.foldl (fun s b =>
      s.skiStatsAddDataAccessByte (a.dataAddress + BitVec.ofNat 32 b) a.eipAddress a.isWrite a.cpuNo) s
    s'.Ok eips ∧ s'.view = s.view.withStats (bytes.foldl (fun stats b =>
      skiStatsAddDataAccessByte stats (a.dataAddress + BitVec.ofNat 32 b) a.eipAddress a.isWrite a.cpuNo) s.stats) := by
  induction bytes generalizing s with
  | nil => exact ⟨hok, rfl⟩
  | cons b bytes ih =>
    obtain ⟨hok₁, hview₁⟩ := skiStatsAddDataAccessByte_refines hok (a.dataAddress + BitVec.ofNat 32 b) a.eipAddress
      a.isWrite a.cpuNo
    obtain ⟨hok₂, hview₂⟩ := ih hok₁
    have hstats₁ := congrArg Statistics.stats hview₁
    refine ⟨hok₂, hview₂.trans ?_⟩
    rw [hview₁]
    exact congrArg (fun stats => s.view.withStats (bytes.foldl _ stats)) hstats₁

/-- **A data access.** -/
theorem skiStatsAddDataAccess_refines (eips : List (BitVec 32)) :
    Refines (Slot.Ok eips) Slot.view Slot.skiStatsAddDataAccess fun v a => v.apply (.data a) := by
  refine .of_step fun {s} a hok => ?_
  obtain ⟨hok', hview'⟩ := foldl_skiStatsAddDataAccessByte_refines a (List.range a.sizeBytes) hok
  show _ ∧ _ = (skiStatsAddDataAccess s.stats a.dataAddress a.eipAddress a.sizeBytes a.isWrite a.cpuNo).map _
  unfold Slot.skiStatsAddDataAccess skiStatsAddDataAccess
  by_cases hguard : a.sizeBytes < maxAccessSize ∧ a.cpuNo < statsMaxCpu
  · rw [if_pos hguard, if_pos hguard]
    refine ⟨?_, congrArg some hview'⟩
    intro s' hs'
    obtain rfl := Option.some.inj hs'
    exact hok'
  · rw [if_neg hguard, if_neg hguard]
    refine ⟨?_, rfl⟩
    intro s' hs'
    cases hs'

/-! ## The detectors -/

/-- Saving a race. -/
theorem skiRaceDetectorSaveRace_view (rd : RaceDetectorCells) (m1 m2 : SkiRdMemoryAccess) :
    (rd.skiRaceDetectorSaveRace m1 m2).view = skiRaceDetectorSaveRace rd.view m1 m2 := by
  have hlen : (SkiRaceDetector.racesN { rd.view with totalRaces := addInt rd.view.totalRaces 1 }) = rd.races.used :=
    Filled.length_entries _
  unfold RaceDetectorCells.skiRaceDetectorSaveRace skiRaceDetectorSaveRace
  simp only [hlen]
  split_ifs
  · unfold RaceDetectorCells.view
    simp only [Filled.entries_push]
  · rfl

/-- The comparison with one CPU. -/
theorem compareWith_refines (cpu : Nat) (ma : SkiRdMemoryAccess) :
    Refines (fun _ => True) RaceDetectorCells.view (RaceDetectorCells.compareWith cpu ma) (compareWith cpu ma) := by
  refine ⟨fun _ _ => trivial, fun {rd} i _ => ?_⟩
  unfold RaceDetectorCells.compareWith compareWith
  split_ifs
  · rfl
  · show _ = (rd.lastAccessPerCpu[i]? >>= _)
    cases rd.lastAccessPerCpu[i]? with
    | none => rfl
    | some ma2 =>
      show Option.map _ (skiRaceDetectorIsRace ma ma2 >>= _) = (skiRaceDetectorIsRace ma ma2 >>= _)
      cases skiRaceDetectorIsRace ma ma2 with
      | none => rfl
      | some isRace =>
        cases isRace with
        | false => rfl
        | true => exact congrArg some (skiRaceDetectorSaveRace_view rd ma ma2)

/-- **An access for the race detector.** -/
theorem skiRaceDetectorNewAccess_view (rd : RaceDetectorCells) (a : SkiRdMemoryAccess) :
    (rd.skiRaceDetectorNewAccess a).map RaceDetectorCells.view = feed rd.view a := by
  unfold RaceDetectorCells.skiRaceDetectorNewAccess feed skiRaceDetectorNewAccess
  split_ifs
  · show _ = (rd.lastAccessPerCpu[a.cpu]? >>= _)
    cases rd.lastAccessPerCpu[a.cpu]? with
    | none => rfl
    | some slot => exact (compareWith_refines a.cpu _).foldlM.view_eq (List.range maxCpu) trivial
  · rfl

/-- **An instruction for the instruction detector.** -/
theorem skiInstructionDetectorNewAccess_view {det : InstructionDetectorCells}
    (hok : det.instructions.Ok SkiInstructionDetectorEntry.eipAddress) (eip : BitVec 32) :
    (det.skiInstructionDetectorNewAccess eip).view = det.view.newAccess eip := by
  unfold InstructionDetectorCells.skiInstructionDetectorNewAccess InstructionDetector.newAccess
  have hentries : det.view.entries = det.instructions.entries := rfl
  rw [hok.find?_eq, hentries]
  cases hidx : det.instructions.entries.findIdx? fun entry => entry.eipAddress = eip with
  | none => rfl
  | some i =>
    have hi : i < det.instructions.used := hok.lt_of_find? ((hok.find?_eq eip).trans hidx)
    have hcount : (det.instructions.entries[i]?.map SkiInstructionDetectorEntry.count = some 0)
        ↔ (det.instructions.cells i).count = 0 := by
      rw [Filled.getElem?_entries hi, Option.map_some, Option.some_inj]
    simp only [hcount]
    unfold InstructionDetectorCells.view
    simp only
    rw [show (det.instructions.modify i _).entries = _ from Filled.entries_modify _ _ _]

theorem skiInstructionDetectorNewAccess_ok {det : InstructionDetectorCells}
    (hok : det.instructions.Ok SkiInstructionDetectorEntry.eipAddress) (eip : BitVec 32) :
    let det' := det.skiInstructionDetectorNewAccess eip
    det'.instructions.Ok SkiInstructionDetectorEntry.eipAddress ∧
      det'.instructions.entries.map SkiInstructionDetectorEntry.eipAddress
        = det.instructions.entries.map SkiInstructionDetectorEntry.eipAddress := by
  unfold InstructionDetectorCells.skiInstructionDetectorNewAccess
  cases det.instructions.find? SkiInstructionDetectorEntry.eipAddress eip with
  | none => exact ⟨hok, rfl⟩
  | some i =>
    refine ⟨hok.modify rfl, ?_⟩
    show (det.instructions.modify i _).entries.map _ = _
    rw [show (det.instructions.modify i _).entries = _ from Filled.entries_modify _ _ _]
    exact map_modify_eq fun _ _ => rfl

/-! ## Instructions -/

/-- **An executed instruction.** -/
theorem skiStatsAddInstructionAccess_refines (eips : List (BitVec 32)) :
    Refines (Slot.Ok eips) Slot.view Slot.skiStatsAddInstructionAccess fun v eip => v.apply (.instruction eip) := by
  refine .of_step fun {s} eip hok => ?_
  have hentries := hok.instructions_ok.findOrInsert_eq eip (min maxDataAddresses maxInstructionAddresses)
    (show ∀ ia, Slot.enterInstruction eip ia = ⟨eip, 0⟩ from fun _ => rfl)
  unfold Slot.skiStatsAddInstructionAccess
  show _ ∧ _ = (findOrAppend _ s.instructions.entries eip _ _).map _
  rw [← hentries]
  cases h : s.instructions.findOrInsert SkiStatsInstructionAccesses.eipAddress eip
    (min maxDataAddresses maxInstructionAddresses) (Slot.enterInstruction eip) with
  | none =>
    refine ⟨?_, rfl⟩
    intro s' hs'
    cases hs'
  | some r =>
    obtain ⟨instructions, i⟩ := r
    constructor
    · intro s' hs'
      obtain rfl := Option.some.inj hs'
      exact { hok with instructions_ok := (hok.instructions_ok.findOrInsert_ok h).1.modify rfl }
    · have hmodify : (instructions.modify i fun ia => { ia with totalAccesses := ia.totalAccesses + 1 }).entries
          = instructions.entries.modify i fun ia => { ia with totalAccesses := ia.totalAccesses + 1 } :=
        Filled.entries_modify _ _ _
      refine congrArg some ?_
      unfold Slot.view
      simp only [hmodify]
      rfl

/-! ## The analysis -/

/-- The accumulated values, with the statistics they are collected for. -/
def CollectionCells.view (stats : SkiStats) (acc : CollectionCells) : Collection where
  stats := { stats with communicationInstructions := acc.communicationInstructions.entries }
  communicationEips := acc.communicationEips
  communicationData := acc.communicationData

/-- The hash and the array of the communication instructions agree. -/
def CollectionCells.Ok (acc : CollectionCells) : Prop := acc.communicationInstructions.Ok id

theorem collectInstruction_refines (stats : SkiStats) :
    Refines CollectionCells.Ok (CollectionCells.view stats) CollectionCells.collectInstruction collectInstruction := by
  constructor
  · intro acc eip acc' hok h
    obtain ⟨⟨communicationInstructions, i⟩, hfind, hacc⟩ := Option.bind_eq_some_iff.mp h
    obtain rfl := Option.some.inj hacc
    exact (Hashed.Ok.findOrInsert_ok hok hfind).1
  · intro acc eip hok
    have hlist : collectInstruction (acc.view stats) eip
        = (if eip ∈ acc.communicationInstructions.entries then some acc.communicationInstructions.entries
            else if acc.communicationInstructions.entries.length < maxIpfilterHash then
              some (acc.communicationInstructions.entries ++ [eip])
            else none).map fun l =>
              { acc.view stats with
                stats := { stats with communicationInstructions := l }
                communicationEips := acc.communicationEips + 1 } := by
      unfold collectInstruction skiStatsAddCommunicationInstruction CollectionCells.view
      simp only
      split_ifs <;> rfl
    rw [hlist, ← Hashed.Ok.map_findOrInsert_id hok eip maxIpfilterHash, Option.map_map]
    unfold CollectionCells.collectInstruction
    cases acc.communicationInstructions.findOrInsert id eip maxIpfilterHash fun _ => eip <;> rfl

theorem collectAddress_refines (stats : SkiStats) (di : Filled (BitVec 32)) :
    Refines CollectionCells.Ok (CollectionCells.view stats) (CollectionCells.collectAddress di)
      fun acc da => collectAddress acc (da.view di) := by
  have hloop := (collectInstruction_refines stats).foldlM
  have hmap : ∀ (da : DataCell) (acc : CollectionCells),
      da.dataInstructionsHash.foldlM (fun acc e => acc.collectInstruction (di.cells e.2)) acc
        = (da.view di).dataInstructions.foldlM CollectionCells.collectInstruction acc :=
    fun _ _ => List.foldlM_map.symm
  constructor
  · intro acc da acc' hok h
    unfold CollectionCells.collectAddress at h
    simp only [hmap] at h
    split_ifs at h
    · obtain ⟨acc₁, hacc₁, hacc'⟩ := Option.bind_eq_some_iff.mp h
      obtain rfl := Option.some.inj hacc'
      have hok₁ : acc₁.Ok := hloop.keeps hok hacc₁
      exact hok₁
    · obtain rfl := Option.some.inj h
      exact hok
  · intro acc da hok
    have hpoint : isCommunicationPoint (da.view di)
        = ((scanCpus da.rwCpuSizeFlag (List.range statsMaxCpu) (false, 0)).1 &&
            1 < (scanCpus da.rwCpuSizeFlag (List.range statsMaxCpu) (false, 0)).2) := rfl
    unfold CollectionCells.collectAddress collectAddress
    simp only [hmap, hpoint]
    split_ifs
    · rw [← hloop.view_eq _ hok]
      cases (da.view di).dataInstructions.foldlM CollectionCells.collectInstruction acc <;> rfl
    · rfl

/-- **The analysis.** -/
theorem skiStatsComputeCommunicationInstructions_refines (eips : List (BitVec 32)) :
    Refines (Slot.Ok eips) Slot.view Slot.skiStatsComputeCommunicationInstructions
      fun v exit => v.apply (.analyse exit) := by
  refine .of_step fun {s} exit hok => ?_
  have hloop := (collectAddress_refines s.stats s.dataInstructions).foldlM
  have hmap : ∀ start : CollectionCells,
      (List.range s.data.used).foldlM (fun acc i => acc.collectAddress s.dataInstructions (s.data.cells i)) start
        = s.data.entries.foldlM (CollectionCells.collectAddress s.dataInstructions) start :=
    fun _ => List.foldlM_map.symm
  have hstart : CollectionCells.Ok ⟨s.communicationInstructions, 0, 0⟩ := hok.communication_ok
  have hview := hloop.view_eq s.data.entries hstart
  have hstats : s.stats.data.foldlM collectAddress { stats := s.stats, communicationEips := 0, communicationData := 0 }
      = s.data.entries.foldlM (fun acc da => collectAddress acc (da.view s.dataInstructions))
          (CollectionCells.view s.stats ⟨s.communicationInstructions, 0, 0⟩) := List.foldlM_map
  unfold Slot.skiStatsComputeCommunicationInstructions
  show _ ∧ _ = (skiStatsComputeCommunicationInstructions exit.inputNumber s.stats).map _
  unfold skiStatsComputeCommunicationInstructions
  simp only [hmap]
  by_cases hin : s.inputNumber = exit.inputNumber
  · have hin' : s.stats.inputNumber = exit.inputNumber := hin
    rw [if_pos hin, if_pos hin', hstats, ← hview]
    cases h : s.data.entries.foldlM (CollectionCells.collectAddress s.dataInstructions)
      ⟨s.communicationInstructions, 0, 0⟩ with
    | none =>
      refine ⟨?_, rfl⟩
      intro s' hs'
      cases hs'
    | some acc =>
      have hacc : acc.Ok := hloop.keeps hstart h
      refine ⟨?_, rfl⟩
      intro s' hs'
      obtain rfl := Option.some.inj hs'
      exact { hok with communication_ok := hacc }
  · have hin' : ¬ s.stats.inputNumber = exit.inputNumber := hin
    rw [if_neg hin, if_neg hin']
    refine ⟨?_, rfl⟩
    intro s' hs'
    obtain rfl := Option.some.inj hs'
    exact { hok with }

/-! ## Initialisation and reset -/

/-- Entries without hits are known by their addresses. -/
theorem entries_of_counts {entries : List SkiInstructionDetectorEntry} (h : ∀ entry ∈ entries, entry.count = 0) :
    entries = (entries.map SkiInstructionDetectorEntry.eipAddress).map
      fun eip => { eipAddress := eip, count := 0 } := by
  rw [List.map_map]
  refine (List.map_id entries).symm.trans (List.map_congr_left fun entry hentry => ?_)
  show entry = { eipAddress := entry.eipAddress, count := 0 }
  rw [← h entry hentry]

/-- **A slot that was reset holds nothing**, and its detector looks for the same addresses. -/
theorem skiStatsResetSlot_view (hok : s.Ok eips) :
    (skiStatsResetSlot s).Ok eips ∧ (skiStatsResetSlot s).view = freshStatistics eips := by
  obtain ⟨hdet, hentries⟩ := hok.detector_ok.foldl_modify (f := fun entry => { entry with count := 0 }) fun _ => rfl
  have hreset : s.detector.resetCount.instructions.entries
      = s.detector.instructions.entries.map fun entry => { entry with count := 0 } := hentries
  have heips : s.detector.resetCount.instructions.entries.map SkiInstructionDetectorEntry.eipAddress = eips := by
    rw [hreset, List.map_map]
    exact hok.detector_eips
  refine ⟨⟨Hashed.ok_clear _, Hashed.ok_clear _, List.forall_mem_nil _, Hashed.ok_clear _, hdet, heips⟩, ?_⟩
  have hcounts : ∀ entry ∈ s.detector.resetCount.instructions.entries, entry.count = 0 := by
    intro entry hentry
    rw [hreset] at hentry
    obtain ⟨_, -, rfl⟩ := List.mem_map.mp hentry
    rfl
  unfold Slot.view freshStatistics
  rw [← heips, ← entries_of_counts hcounts]
  rfl

/-- A detector without hits, whose free cells are still zero. -/
structure InstructionDetectorCells.Unused (det : InstructionDetectorCells) : Prop where
  ok : det.instructions.Ok SkiInstructionDetectorEntry.eipAddress
  counts : ∀ i, (det.instructions.cells i).count = 0
  totalInstructions_eq : det.totalInstructions = 0
  totalDistinctInstructions_eq : det.totalDistinctInstructions = 0

theorem addEntry_unused {det det' : InstructionDetectorCells} {eip : BitVec 32} (h : det.Unused)
    (hadd : det.addEntry eip = some det') : det'.Unused := by
  unfold InstructionDetectorCells.addEntry at hadd
  split at hadd
  · cases hadd
  · split_ifs at hadd
    obtain rfl := Option.some.inj hadd
    refine { h with ok := h.ok.insert _, counts := fun i => ?_ }
    -- the fields of the cell that are not written were zero
    have hcell := Filled.cells_push (fun entry : SkiInstructionDetectorEntry => { entry with eipAddress := eip })
      det.instructions.toFilled i
    refine (congrArg SkiInstructionDetectorEntry.count hcell).trans ?_
    split_ifs
    · exact h.counts _
    · exact h.counts i

theorem load_unused {file : Option (List (BitVec 32))} {det : InstructionDetectorCells}
    (h : zeroSlot.detector.load file = some det) : det.Unused := by
  have hzero : zeroSlot.detector.Unused := ⟨Hashed.ok_empty _, fun _ => rfl, rfl, rfl⟩
  cases file with
  | none =>
    obtain rfl := Option.some.inj h
    exact hzero
  | some eips =>
    obtain ⟨det', hdet', hguard⟩ := Option.bind_eq_some_iff.mp h
    split_ifs at hguard
    obtain rfl := Option.some.inj hguard
    exact foldlM_keeps addEntry_unused hzero hdet'

/-- **A new slot holds nothing**, and its detector looks for the addresses of the file. -/
theorem skiStatsInitSlot_view {file : Option (List (BitVec 32))} (h : skiStatsInitSlot file = some s) :
    ∃ eips, s.Ok eips ∧ s.view = freshStatistics eips := by
  obtain ⟨det, hdet, rfl⟩ := Option.map_eq_some_iff.mp h
  have hunused := load_unused hdet
  refine ⟨det.instructions.entries.map SkiInstructionDetectorEntry.eipAddress, ⟨Hashed.ok_empty _, Hashed.ok_empty _,
    List.forall_mem_nil _, Hashed.ok_empty _, hunused.ok, rfl⟩, ?_⟩
  have hcounts : ∀ entry ∈ det.instructions.entries, entry.count = 0 := by
    intro entry hentry
    obtain ⟨i, -, rfl⟩ := Filled.mem_entries.mp hentry
    exact hunused.counts i
  unfold Slot.view freshStatistics
  rw [← entries_of_counts hcounts]
  unfold InstructionDetectorCells.view
  rw [hunused.totalInstructions_eq, hunused.totalDistinctInstructions_eq]
  rfl

/-! ## The main result -/

/-- **Every operation on a slot does what the list models do**, and keeps its tables in order. -/
theorem apply_refines (eips : List (BitVec 32)) : Refines (Slot.Ok eips) Slot.view Slot.apply Statistics.apply := by
  constructor
  · intro s op s' hok h
    cases op with
    | start inputNumber =>
      obtain rfl := Option.some.inj h
      exact { hok with }
    | instruction eip => exact (skiStatsAddInstructionAccess_refines eips).keeps hok h
    | data a => exact (skiStatsAddDataAccess_refines eips).keeps hok h
    | race a =>
      obtain ⟨rd, -, rfl⟩ := Option.map_eq_some_iff.mp h
      exact { hok with }
    | detector eip =>
      obtain rfl := Option.some.inj h
      obtain ⟨hdet, heips⟩ := skiInstructionDetectorNewAccess_ok hok.detector_ok eip
      exact { hok with detector_ok := hdet, detector_eips := heips.trans hok.detector_eips }
    | analyse exit => exact (skiStatsComputeCommunicationInstructions_refines eips).keeps hok h
    | reset =>
      obtain rfl := Option.some.inj h
      exact (skiStatsResetSlot_view hok).1
  · intro s op hok
    cases op with
    | start inputNumber => rfl
    | instruction eip => exact (skiStatsAddInstructionAccess_refines eips).view_eq eip hok
    | data a => exact (skiStatsAddDataAccess_refines eips).view_eq a hok
    | race a =>
      show ((s.rd.skiRaceDetectorNewAccess a).map _).map _ = (feed s.rd.view a).map _
      rw [← skiRaceDetectorNewAccess_view, Option.map_map, Option.map_map]
      rfl
    | detector eip =>
      refine congrArg some ?_
      unfold Slot.view
      simp only [skiInstructionDetectorNewAccess_view hok.detector_ok eip]
      rfl
    | analyse exit => exact (skiStatsComputeCommunicationInstructions_refines eips).view_eq exit hok
    | reset =>
      refine congrArg some ((skiStatsResetSlot_view hok).2.trans ?_)
      show _ = freshStatistics (s.detector.instructions.entries.map _)
      rw [hok.detector_eips]

/-- **A reset slot is as good as a new one.** Whatever was recorded and analysed in the slot before, in any
    number of tests, what is recorded and analysed after the reset shows the same statistics as in a slot just
    initialised. -/
theorem reset_like_fresh {file : Option (List (BitVec 32))} {s₀ s : Slot} (hinit : skiStatsInitSlot file = some s₀)
    (A B : List SlotOp) (hA : A.foldlM Slot.apply s₀ = some s) :
    (B.foldlM Slot.apply (skiStatsResetSlot s)).map Slot.view = (B.foldlM Slot.apply s₀).map Slot.view := by
  obtain ⟨eips, hok₀, hview₀⟩ := skiStatsInitSlot_view hinit
  have hloop := (apply_refines eips).foldlM
  have hok : s.Ok eips := hloop.keeps hok₀ hA
  obtain ⟨hreset, hview⟩ := skiStatsResetSlot_view hok
  calc (B.foldlM Slot.apply (skiStatsResetSlot s)).map Slot.view
      = B.foldlM Statistics.apply (skiStatsResetSlot s).view := hloop.view_eq B hreset
    _ = B.foldlM Statistics.apply s₀.view := by rw [hview, hview₀]
    _ = (B.foldlM Slot.apply s₀).map Slot.view := (hloop.view_eq B hok₀).symm

/-- A test in which two CPUs share an address, and the detector sees its instruction. -/
def sharingTest : List SlotOp :=
  [.start (1, 2), .instruction 4096, .detector 4096, .data ⟨100, 4096, 1, true, 0⟩,
    .race ⟨0, 100, 4096, 1, 0, 1⟩, .instruction 4100, .data ⟨100, 4100, 1, false, 1⟩, .race ⟨1, 100, 4100, 1, 1, 2⟩,
    .analyse ⟨(1, 2), 2, 2⟩]

/-- A test in which one CPU reads another address. -/
def readingTest : List SlotOp :=
  [.start (1, 3), .instruction 4104, .data ⟨200, 4104, 1, false, 0⟩, .race ⟨0, 200, 4104, 1, 1, 1⟩,
    .analyse ⟨(1, 3), 1, 1⟩]

/-- The second test in the slot of the first one: no shared address, no race and no hit is left. -/
theorem reset_like_fresh_sharing :
    ∃ s₀ s, skiStatsInitSlot (some [4096]) = some s₀ ∧ sharingTest.foldlM Slot.apply s₀ = some s ∧
      s.view.stats.communicationInstructions = [4096, 4100] ∧ s.view.rd.racesN = 1 ∧
      s.view.detector.totalInstructions = 1 ∧
      (readingTest.foldlM Slot.apply (skiStatsResetSlot s)).map Slot.view
        = (readingTest.foldlM Slot.apply s₀).map Slot.view ∧
      (readingTest.foldlM Slot.apply s₀).any (fun s' =>
        s'.view.stats.communicationInstructions = [] ∧ s'.view.rd.racesN = 0 ∧ s'.view.stats.data.length = 1) := by
  obtain ⟨s₀, hinit⟩ : ∃ s₀, skiStatsInitSlot (some [4096]) = some s₀ := ⟨_, rfl⟩
  obtain ⟨s, hs⟩ : ∃ s, sharingTest.foldlM Slot.apply s₀ = some s := by
    cases hinit
    exact ⟨_, rfl⟩
  refine ⟨s₀, s, hinit, hs, ?_, ?_, ?_, reset_like_fresh hinit sharingTest readingTest hs, ?_⟩
  all_goals
    cases hinit
    cases hs
    decide

end SkiVmm.Detect
