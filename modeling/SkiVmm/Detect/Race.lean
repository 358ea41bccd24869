import Mathlib.Algebra.Ring.Int.Defs
import SkiVmm.Lib.Table

/-!
# `Detect.Race` — the online race detector (`ski-race-detector.h`)

The detector keeps one slot per CPU with that CPU's last memory access. A new access overwrites the slot of its
CPU and is compared with the slots of the other CPUs, in the order of their numbers; each conflict is counted,
and the first `SKI_RACE_DETECTOR_RACES_MAX` of them are copied into `races`.

## Contents
- **Model.** `skiRaceDetectorInit`, `skiRaceDetectorSaveRace`, `skiRaceDetectorIsRace`, `skiRaceDetectorNewAccess`.
- **One access.** `feed_eq`: what is saved, for every detector whose slots are in order.
- **Specification.** `latestOf`, `Conflict` and `traceRaces` speak of the trace alone: the slots do not occur in them.
- **Refinement.** `Tracks` relates a detector to the trace it has seen; every access keeps it.
-/

namespace SkiVmm.Detect

open Lib

/-! ## The detector -/

/-- `SKI_RACE_DETECTOR_RACES_MAX` -/
def racesMax : Nat := 1024

/-- `SKI_RD_MAX_CPU` -/
def maxCpu : Nat := 4

/-- `ski_rd_memory_access`: `length` counts bytes, `isRead` is a C truth value. -/
structure SkiRdMemoryAccess where
  cpu : Nat
  physicalMemoryAddress : Int
  ipAddress : Int
  length : Int
  isRead : Int
  instructionCount : Int
deriving DecidableEq, Repr

/-- `ski_rd_race` -/
structure SkiRdRace where
  m1 : SkiRdMemoryAccess
  m2 : SkiRdMemoryAccess
deriving DecidableEq, Repr

/-- `ski_race_detector`. Of the array `races` only the first `races_n` entries are kept. -/
structure SkiRaceDetector where
  lastAccessPerCpu : List SkiRdMemoryAccess
  races : List SkiRdRace
  totalRaces : Int
deriving DecidableEq, Repr

/-- `races_n` -/
def SkiRaceDetector.racesN (rd : SkiRaceDetector) : Nat := rd.races.length

/-- The slot of a CPU after the `memset` and the loop of `ski_race_detector_init`. -/
def emptySlot (i : Nat) : SkiRdMemoryAccess :=
  { cpu := i, physicalMemoryAddress := 0, ipAddress := 0, length := 0, isRead := 0, instructionCount := 0 }

/-- `ski_race_detector_init` -/
def skiRaceDetectorInit : SkiRaceDetector :=
  { lastAccessPerCpu := (List.range maxCpu).map emptySlot, races := [], totalRaces := 0 }

/-- The sum of two `int` values. -/
def addInt (a b : Int) : Int := (a + b).bmod (2 ^ 32)

/-- `ski_race_detector_save_race` -/
def skiRaceDetectorSaveRace (rd : SkiRaceDetector) (m1 m2 : SkiRdMemoryAccess) : SkiRaceDetector :=
  let rd := { rd with totalRaces := addInt rd.totalRaces 1 }
  if rd.racesN < racesMax then { rd with races := rd.races ++ [{ m1 := m1, m2 := m2 }] } else rd

/-- `ski_race_detector_is_race`; `none` when its assertion fails. -/
def skiRaceDetectorIsRace (m1 m2 : SkiRdMemoryAccess) : Option Bool :=
  if m1.cpu = m2.cpu then none
  else if m1.isRead ≠ 0 ∧ m2.isRead ≠ 0 then some false
  else if m1.length = 0 ∨ m2.length = 0 then some false
  else if m1.physicalMemoryAddress ≤ m2.physicalMemoryAddress ∧
      m2.physicalMemoryAddress < addInt m1.physicalMemoryAddress m1.length then some true
  else if m2.physicalMemoryAddress ≤ m1.physicalMemoryAddress ∧
      m1.physicalMemoryAddress < addInt m2.physicalMemoryAddress m2.length then some true
  else some false

/-- One iteration of the loop of `ski_race_detector_new_access`: `ma` against the slot of CPU `i`. -/
def compareWith (cpu : Nat) (ma : SkiRdMemoryAccess) (rd : SkiRaceDetector) (i : Nat) : Option SkiRaceDetector :=
  if i = cpu then some rd
  else do
    let ma2 ← rd.lastAccessPerCpu[i]?
    let isRace ← skiRaceDetectorIsRace ma ma2
    if isRace then some (skiRaceDetectorSaveRace rd ma ma2) else some rd

/-- `ski_race_detector_new_access`; `none` when an assertion fails. The `cpu` field of the slot is left alone. -/
def skiRaceDetectorNewAccess (rd : SkiRaceDetector) (cpu : Nat)
    (physicalMemoryAddress ipAddress length isRead instructionCount : Int) : Option SkiRaceDetector :=
  if cpu < maxCpu then do
    let slot ← rd.lastAccessPerCpu[cpu]?
    let ma := { slot with
      physicalMemoryAddress := physicalMemoryAddress, ipAddress := ipAddress, length := length,
      isRead := isRead, instructionCount := instructionCount }
    (List.range maxCpu).foldlM (compareWith cpu ma) { rd with lastAccessPerCpu := rd.lastAccessPerCpu.set cpu ma }
  else none

/-- An access as the instrumentation passes it on. -/
def feed (rd : SkiRaceDetector) (a : SkiRdMemoryAccess) : Option SkiRaceDetector :=
  skiRaceDetectorNewAccess rd a.cpu a.physicalMemoryAddress a.ipAddress a.length a.isRead a.instructionCount

/-! ## One access to the detector -/

/-- The slots belong to the CPUs in their order. -/
def Slotted (rd : SkiRaceDetector) : Prop := rd.lastAccessPerCpu.map SkiRdMemoryAccess.cpu = List.range maxCpu

/-- The detector with `ma` in the slot of its CPU. -/
def stored (rd : SkiRaceDetector) (ma : SkiRdMemoryAccess) : SkiRaceDetector :=
  { rd with lastAccessPerCpu := rd.lastAccessPerCpu.set ma.cpu ma }

/-- The race between `ma` and the slot of CPU `i`, if there is one. -/
def raceAt (rd : SkiRaceDetector) (ma : SkiRdMemoryAccess) (i : Nat) : Option SkiRdRace :=
  if i = ma.cpu then none
  else rd.lastAccessPerCpu[i]?.bind fun ma2 =>
    if skiRaceDetectorIsRace ma ma2 = some true then some { m1 := ma, m2 := ma2 } else none

/-- The races that the access `ma` adds to the detector. -/
def savedRaces (rd : SkiRaceDetector) (ma : SkiRdMemoryAccess) : List SkiRdRace :=
  (List.range maxCpu).filterMap (raceAt rd ma)

/-- `ski_race_detector_save_race` for each race of a list. -/
def saveAll (rd : SkiRaceDetector) (races : List SkiRdRace) : SkiRaceDetector :=
  races.foldl (fun rd r => skiRaceDetectorSaveRace rd r.m1 r.m2) rd

theorem skiRaceDetectorSaveRace_slots (rd : SkiRaceDetector) (m1 m2 : SkiRdMemoryAccess) :
    (skiRaceDetectorSaveRace rd m1 m2).lastAccessPerCpu = rd.lastAccessPerCpu := by
  unfold skiRaceDetectorSaveRace
  simp only
  split <;> rfl

theorem saveAll_slots (rd : SkiRaceDetector) (races : List SkiRdRace) :
    (saveAll rd races).lastAccessPerCpu = rd.lastAccessPerCpu := by
  induction races generalizing rd with
  | nil => rfl
  | cons r races ih => exact (ih _).trans (skiRaceDetectorSaveRace_slots rd r.m1 r.m2)

theorem raceAt_of_slots_eq {rd rd' : SkiRaceDetector} (h : rd'.lastAccessPerCpu = rd.lastAccessPerCpu)
    (ma : SkiRdMemoryAccess) (i : Nat) : raceAt rd' ma i = raceAt rd ma i := by
  unfold raceAt
  rw [h]

theorem Slotted.slot {rd : SkiRaceDetector} (h : Slotted rd) {i : Nat} (hi : i < maxCpu) :
    ∃ slot, rd.lastAccessPerCpu[i]? = some slot ∧ slot.cpu = i := by
  have hmap : (rd.lastAccessPerCpu.map SkiRdMemoryAccess.cpu)[i]? = some i := by
    rw [show rd.lastAccessPerCpu.map SkiRdMemoryAccess.cpu = List.range maxCpu from h, List.getElem?_range hi]
  rw [List.getElem?_map] at hmap
  exact Option.map_eq_some_iff.mp hmap

/-- Between two CPUs the comparison always has an answer. -/
theorem skiRaceDetectorIsRace_isSome {a b : SkiRdMemoryAccess} (hne : a.cpu ≠ b.cpu) :
    (skiRaceDetectorIsRace a b).isSome := by
  unfold skiRaceDetectorIsRace
  rw [if_neg hne]
  split_ifs <;> rfl

/-- One iteration saves the race with CPU `i`. -/
theorem compareWith_eq {rd : SkiRaceDetector} (h : Slotted rd) (ma : SkiRdMemoryAccess) {i : Nat} (hi : i < maxCpu) :
    compareWith ma.cpu ma rd i = some (saveAll rd (raceAt rd ma i).toList) := by
  unfold compareWith raceAt
  by_cases hcpu : i = ma.cpu
  · rw [if_pos hcpu, if_pos hcpu]
    rfl
  · obtain ⟨slot, hslot, hown⟩ := h.slot hi
    have hne : ma.cpu ≠ slot.cpu := fun heq => hcpu (hown.symm.trans heq.symm)
    obtain ⟨answer, hanswer⟩ := Option.isSome_iff_exists.mp (skiRaceDetectorIsRace_isSome hne)
    rw [if_neg hcpu, if_neg hcpu, hslot]
    simp only [Option.bind_eq_bind, Option.bind_some, hanswer, Option.some_inj]
    cases answer with
    | false => rfl
    | true => rfl

/-- The loop saves the races with the CPUs it goes through. -/
theorem foldlM_compareWith_eq (ma : SkiRdMemoryAccess) (cpus : List Nat) (hcpus : ∀ i ∈ cpus, i < maxCpu) :
    ∀ {rd : SkiRaceDetector}, Slotted rd →
      cpus.foldlM (compareWith ma.cpu ma) rd = some (saveAll rd (cpus.filterMap (raceAt rd ma))) := by
  induction cpus with
  | nil => exact fun _ => rfl
  | cons i cpus ih =>
    intro rd h
    have hslots := saveAll_slots rd (raceAt rd ma i).toList
    have hsaved : Slotted (saveAll rd (raceAt rd ma i).toList) := by
      unfold Slotted
      rw [hslots]
      exact h
    rw [List.foldlM_cons, compareWith_eq h ma (hcpus i List.mem_cons_self)]
    refine (ih (fun j hj => hcpus j (List.mem_cons_of_mem i hj)) hsaved).trans (congrArg some ?_)
    rw [funext fun j => raceAt_of_slots_eq hslots ma j, List.filterMap_cons]
    cases raceAt rd ma i with
    | none => rfl
    | some r => rfl

theorem Slotted.stored {rd : SkiRaceDetector} (h : Slotted rd) (ma : SkiRdMemoryAccess) : Slotted (stored rd ma) := by
  unfold Slotted Detect.stored at *
  simp only [List.map_set, h]
  refine List.ext_getElem (by simp) fun i h₁ h₂ => ?_
  rw [List.getElem_set]
  split
  · next heq => rw [List.getElem_range, heq]
  · rfl

/-- **What one access does** to a detector: it fills the slot of its CPU and saves its races with the other slots. -/
theorem feed_eq {rd : SkiRaceDetector} (h : Slotted rd) {ma : SkiRdMemoryAccess} (hcpu : ma.cpu < maxCpu) :
    feed rd ma = some (saveAll (stored rd ma) (savedRaces (stored rd ma) ma)) := by
  obtain ⟨slot, hslot, hown⟩ := h.slot hcpu
  have hma : { slot with
      physicalMemoryAddress := ma.physicalMemoryAddress, ipAddress := ma.ipAddress, length := ma.length,
      isRead := ma.isRead, instructionCount := ma.instructionCount } = ma := by
    rw [hown]
  unfold feed skiRaceDetectorNewAccess
  rw [if_pos hcpu, hslot]
  simp only [Option.bind_eq_bind, Option.bind_some]
  rw [hma]
  exact foldlM_compareWith_eq ma (List.range maxCpu) (fun i => List.mem_range.mp) (h.stored ma)

/-! ## What a trace contains -/

/-- An access of one of the CPUs, to a number of bytes whose end is still an `int`. -/
structure SkiRdMemoryAccess.Fits (a : SkiRdMemoryAccess) : Prop where
  cpu_lt : a.cpu < maxCpu
  length_nonneg : 0 ≤ a.length
  lower : -2 ^ 31 ≤ a.physicalMemoryAddress
  upper : a.physicalMemoryAddress + a.length < 2 ^ 31

/-- The byte addresses an access touches. -/
def SkiRdMemoryAccess.bytes (a : SkiRdMemoryAccess) : List Int :=
  (List.range a.length.toNat).map fun k : Nat => a.physicalMemoryAddress + k

/-- The two accesses overlap in a byte and one of them writes. -/
def Conflict (a b : SkiRdMemoryAccess) : Prop := (∃ byte ∈ a.bytes, byte ∈ b.bytes) ∧ (a.isRead = 0 ∨ b.isRead = 0)

instance (a b : SkiRdMemoryAccess) : Decidable (Conflict a b) := by
  unfold Conflict
  infer_instance

/-- The latest access of CPU `i` in `past`. -/
def latestOf (past : List SkiRdMemoryAccess) (i : Nat) : Option SkiRdMemoryAccess :=
  latest SkiRdMemoryAccess.cpu past i

/-- The access `a`, made after `past`, against the latest access of CPU `i`. -/
def raceWith (past : List SkiRdMemoryAccess) (a : SkiRdMemoryAccess) (i : Nat) : Option SkiRdRace :=
  if i = a.cpu then none
  else (latestOf past i).bind fun b => if Conflict a b then some { m1 := a, m2 := b } else none

/-- The pairs that `rest` adds when it follows `past`: access by access, and for one access CPU by CPU. -/
def racesAfter (past : List SkiRdMemoryAccess) : List SkiRdMemoryAccess → List SkiRdRace
  | [] => []
  | a :: rest => (List.range maxCpu).filterMap (raceWith past a) ++ racesAfter (past ++ [a]) rest

/-- All pairs (new access, latest earlier access of another CPU) in conflict, in detection order. -/
def traceRaces (trace : List SkiRdMemoryAccess) : List SkiRdRace := racesAfter [] trace

theorem latestOf_concat (past : List SkiRdMemoryAccess) (a : SkiRdMemoryAccess) (i : Nat) :
    latestOf (past ++ [a]) i = if a.cpu = i then some a else latestOf past i :=
  latest_concat SkiRdMemoryAccess.cpu past a i

/-- Both halves of a pair come from the trace, and the second is then the latest access of another CPU. -/
theorem mem_racesAfter {rest past : List SkiRdMemoryAccess} {r : SkiRdRace} (h : r ∈ racesAfter past rest) :
    ∃ before after, rest = before ++ r.m1 :: after ∧ latestOf (past ++ before) r.m2.cpu = some r.m2 ∧
      r.m2.cpu ≠ r.m1.cpu ∧ Conflict r.m1 r.m2 := by
  induction rest generalizing past with
  | nil => simp [racesAfter] at h
  | cons a rest ih =>
    rcases List.mem_append.mp h with hnew | hlater
    · obtain ⟨i, -, hi⟩ := List.mem_filterMap.mp hnew
      unfold raceWith at hi
      split at hi
      · cases hi
      · next hne =>
        obtain ⟨b, hb, hif⟩ := Option.bind_eq_some_iff.mp hi
        split at hif
        · next hconf =>
          cases hif
          have hcpu := key_of_latest hb
          refine ⟨[], rest, rfl, ?_, hcpu ▸ hne, hconf⟩
          rw [List.append_nil, hcpu]
          exact hb
        · cases hif
    · obtain ⟨before, after, rfl, hlatest, hrest⟩ := ih hlater
      refine ⟨a :: before, after, rfl, ?_, hrest⟩
      rwa [List.append_assoc] at hlatest

/-! ## The comparison -/

theorem addInt_of_fits {a : SkiRdMemoryAccess} (h : a.Fits) :
    addInt a.physicalMemoryAddress a.length = a.physicalMemoryAddress + a.length := by
  have hlo := h.lower
  have hup := h.upper
  have hlen := h.length_nonneg
  unfold addInt
  apply Int.bmod_eq_of_le <;> omega

theorem SkiRdMemoryAccess.mem_bytes {a : SkiRdMemoryAccess} {byte : Int} :
    byte ∈ a.bytes ↔ a.physicalMemoryAddress ≤ byte ∧ byte < a.physicalMemoryAddress + a.length := by
  unfold SkiRdMemoryAccess.bytes
  rw [List.mem_map]
  constructor
  · rintro ⟨k, hk, rfl⟩
    rw [List.mem_range] at hk
    omega
  · rintro ⟨hle, hlt⟩
    refine ⟨(byte - a.physicalMemoryAddress).toNat, ?_, by omega⟩
    rw [List.mem_range]
    omega

/-- Two byte ranges meet iff neither is empty and each starts before the other ends. -/
theorem conflict_iff (a b : SkiRdMemoryAccess) :
    Conflict a b ↔
      (0 < a.length ∧ 0 < b.length ∧ a.physicalMemoryAddress < b.physicalMemoryAddress + b.length ∧
        b.physicalMemoryAddress < a.physicalMemoryAddress + a.length) ∧ (a.isRead = 0 ∨ b.isRead = 0) := by
  refine and_congr_left' ?_
  simp only [SkiRdMemoryAccess.mem_bytes]
  constructor
  · rintro ⟨byte, ha, hb⟩
    omega
  · intro h
    -- the larger first address belongs to both
    by_cases hle : a.physicalMemoryAddress ≤ b.physicalMemoryAddress
    · exact ⟨b.physicalMemoryAddress, by omega, by omega⟩
    · exact ⟨a.physicalMemoryAddress, by omega, by omega⟩

/-- **`is_race` decides conflict** for two CPUs. -/
theorem skiRaceDetectorIsRace_eq {a b : SkiRdMemoryAccess} (ha : a.Fits) (hb : b.Fits) (hne : a.cpu ≠ b.cpu) :
    skiRaceDetectorIsRace a b = some (decide (Conflict a b)) := by
  have hla := ha.length_nonneg
  have hlb := hb.length_nonneg
  unfold skiRaceDetectorIsRace
  rw [if_neg hne, addInt_of_fits ha, addInt_of_fits hb]
  split_ifs with hread hzero hfirst hsecond
  -- two reads, and an access to no byte
  · exact congrArg some (decide_eq_false (by rw [conflict_iff]; omega)).symm
  · exact congrArg some (decide_eq_false (by rw [conflict_iff]; omega)).symm
  -- one of the ranges contains the first byte of the other
  · exact congrArg some (decide_eq_true (by rw [conflict_iff]; omega)).symm
  · exact congrArg some (decide_eq_true (by rw [conflict_iff]; omega)).symm
  · exact congrArg some (decide_eq_false (by rw [conflict_iff]; omega)).symm

/-- A slot that has never been written is in no race. -/
theorem skiRaceDetectorIsRace_emptySlot {a : SkiRdMemoryAccess} {i : Nat} (hne : a.cpu ≠ i) :
    skiRaceDetectorIsRace a (emptySlot i) = some false := by
  unfold skiRaceDetectorIsRace emptySlot
  simp [hne]

/-! ## Refinement -/

/-- What the slot of CPU `i` holds after `past`. -/
def slotOf (past : List SkiRdMemoryAccess) (i : Nat) : SkiRdMemoryAccess := (latestOf past i).getD (emptySlot i)

/-- The detector has recorded the pairs `rs`. -/
structure Recorded (rd : SkiRaceDetector) (rs : List SkiRdRace) : Prop where
  races_eq : rd.races = rs.take racesMax
  total_eq : rd.totalRaces = (rs.length : Int).bmod (2 ^ 32)

/-- The detector has seen `past`, in which the pairs `rs` were in conflict. -/
structure Tracks (rd : SkiRaceDetector) (past : List SkiRdMemoryAccess) (rs : List SkiRdRace) : Prop where
  slots : rd.lastAccessPerCpu = (List.range maxCpu).map (slotOf past)
  recorded : Recorded rd rs

theorem tracks_init : Tracks skiRaceDetectorInit [] [] :=
  ⟨rfl, rfl, rfl⟩

theorem cpu_slotOf (past : List SkiRdMemoryAccess) (i : Nat) : (slotOf past i).cpu = i := by
  unfold slotOf
  cases hlat : latestOf past i with
  | none => rfl
  | some b => exact key_of_latest hlat

/-- Saving a race appends one pair. -/
theorem Recorded.save {rd : SkiRaceDetector} {rs : List SkiRdRace} (h : Recorded rd rs) (m1 m2 : SkiRdMemoryAccess) :
    Recorded (skiRaceDetectorSaveRace rd m1 m2) (rs ++ [{ m1 := m1, m2 := m2 }]) := by
  have htotal : addInt rd.totalRaces 1
      = ((rs ++ [({ m1 := m1, m2 := m2 } : SkiRdRace)]).length : Int).bmod (2 ^ 32) := by
    unfold addInt
    rw [h.total_eq, Int.bmod_add_bmod, List.length_append, List.length_singleton, Int.natCast_add, Int.natCast_one]
  have hlen : rd.races.length = min racesMax rs.length := by rw [h.races_eq, List.length_take]
  unfold skiRaceDetectorSaveRace SkiRaceDetector.racesN
  simp only
  split
  · next hroom =>
    -- room in the table: nothing has been cut off so far
    have hlt : rs.length < racesMax := by omega
    refine ⟨?_, htotal⟩
    rw [h.races_eq, List.take_of_length_le hlt.le, List.take_of_length_le]
    rw [List.length_append]
    exact hlt
  · next hfull =>
    refine ⟨?_, htotal⟩
    rw [List.take_append_of_le_length (by omega)]
    exact h.races_eq

theorem Recorded.saveAll {rd : SkiRaceDetector} {rs : List SkiRdRace} (h : Recorded rd rs) (races : List SkiRdRace) :
    Recorded (saveAll rd races) (rs ++ races) := by
  induction races generalizing rd rs with
  | nil => rwa [List.append_nil]
  | cons r races ih =>
    have hrest := ih (h.save r.m1 r.m2)
    rwa [List.append_assoc] at hrest

theorem Tracks.slotted {rd : SkiRaceDetector} {past : List SkiRdMemoryAccess} {rs : List SkiRdRace}
    (h : Tracks rd past rs) : Slotted rd := by
  unfold Slotted
  rw [h.slots, List.map_map]
  exact (List.map_congr_left fun i _ => cpu_slotOf past i).trans (List.map_id _)

/-- The new access goes into the slot of its CPU. -/
theorem Tracks.stored {rd : SkiRaceDetector} {past : List SkiRdMemoryAccess} {rs : List SkiRdRace}
    (h : Tracks rd past rs) (a : SkiRdMemoryAccess) : Tracks (stored rd a) (past ++ [a]) rs := by
  refine ⟨?_, h.recorded.races_eq, h.recorded.total_eq⟩
  unfold Detect.stored
  rw [h.slots]
  refine List.ext_getElem (by simp) ?_
  intro i h₁ h₂
  rw [List.getElem_set, List.getElem_map, List.getElem_map, List.getElem_range]
  unfold slotOf
  rw [latestOf_concat]
  split
  · rfl
  · rfl

/-- What the detector compares with the slot of CPU `i` is what the trace says. -/
theorem Tracks.raceAt_eq {rd : SkiRaceDetector} {past : List SkiRdMemoryAccess} {rs : List SkiRdRace}
    {a : SkiRdMemoryAccess} {i : Nat} (h : Tracks rd (past ++ [a]) rs) (ha : a.Fits) (hpast : ∀ b ∈ past, b.Fits)
    (hi : i < maxCpu) : raceAt rd a i = raceWith past a i := by
  unfold raceAt raceWith
  by_cases hcpu : i = a.cpu
  · rw [if_pos hcpu, if_pos hcpu]
  · have hslot : rd.lastAccessPerCpu[i]? = some (slotOf past i) := by
      rw [h.slots, List.getElem?_map, List.getElem?_range hi, Option.map_some]
      unfold slotOf
      rw [latestOf_concat, if_neg (Ne.symm hcpu)]
    rw [if_neg hcpu, if_neg hcpu, hslot, Option.bind_some, slotOf]
    cases hlat : latestOf past i with
    | none =>
      -- CPU `i` has not accessed memory yet
      rw [Option.getD_none, skiRaceDetectorIsRace_emptySlot (Ne.symm hcpu), Option.bind_none]
      exact if_neg (by simp)
    | some b =>
      have hne : a.cpu ≠ b.cpu := by
        rw [key_of_latest hlat]
        exact Ne.symm hcpu
      rw [Option.getD_some, skiRaceDetectorIsRace_eq ha (hpast b (mem_of_latest hlat)) hne, Option.bind_some]
      simp only [Option.some_inj, decide_eq_true_eq]

/-- **One access**: the detector goes on tracking the trace. -/
theorem feed_tracks {rd : SkiRaceDetector} {past : List SkiRdMemoryAccess} {rs : List SkiRdRace}
    {a : SkiRdMemoryAccess} (ha : a.Fits) (hpast : ∀ b ∈ past, b.Fits) (h : Tracks rd past rs) :
    ∃ rd', feed rd a = some rd' ∧
      Tracks rd' (past ++ [a]) (rs ++ (List.range maxCpu).filterMap (raceWith past a)) := by
  have hstored := h.stored a
  have hraces : savedRaces (stored rd a) a = (List.range maxCpu).filterMap (raceWith past a) :=
    List.filterMap_congr fun i hi => hstored.raceAt_eq ha hpast (List.mem_range.mp hi)
  refine ⟨_, feed_eq h.slotted ha.cpu_lt, ?_, ?_⟩
  · rw [saveAll_slots]
    exact hstored.slots
  · rw [hraces]
    exact hstored.recorded.saveAll _

/-- **Every run** of the detector tracks the trace fed to it. -/
theorem foldlM_feed_tracks {rest past : List SkiRdMemoryAccess} {rd : SkiRaceDetector} {rs : List SkiRdRace}
    (hrest : ∀ a ∈ rest, a.Fits) (hpast : ∀ b ∈ past, b.Fits) (h : Tracks rd past rs) :
    ∃ rd', rest.foldlM feed rd = some rd' ∧ Tracks rd' (past ++ rest) (rs ++ racesAfter past rest) := by
  induction rest generalizing rd past rs with
  | nil =>
    refine ⟨rd, rfl, ?_⟩
    rwa [racesAfter, List.append_nil, List.append_nil]
  | cons a rest ih =>
    have ha := hrest a List.mem_cons_self
    obtain ⟨rd₁, hrun, h₁⟩ := feed_tracks ha hpast h
    have hpast' : ∀ b ∈ past ++ [a], b.Fits := by
      intro b hb
      rcases List.mem_append.mp hb with hold | hnew
      · exact hpast b hold
      · exact List.mem_singleton.mp hnew ▸ ha
    obtain ⟨rd', hrun', h'⟩ := ih (fun b hb => hrest b (List.mem_cons_of_mem a hb)) hpast' h₁
    refine ⟨rd', ?_, ?_⟩
    · rw [List.foldlM_cons, hrun]
      exact hrun'
    · rwa [List.append_assoc, List.append_assoc] at h'

/-- **The detector reports the conflicts of the trace.** From a fresh detector, every trace of accesses is taken to
    the end; `total_races` counts the pairs of the trace in conflict (as an `int`), `races` holds the first
    `races_n` of them with the contents both accesses have in the trace, and a CPU is only reported for an access
    it has made before. -/
theorem detector_reports_conflicts (trace : List SkiRdMemoryAccess) (hfits : ∀ a ∈ trace, a.Fits) :
    ∃ rd, trace.foldlM feed skiRaceDetectorInit = some rd ∧
      rd.totalRaces = ((traceRaces trace).length : Int).bmod (2 ^ 32) ∧
      ((traceRaces trace).length < 2 ^ 31 → rd.totalRaces = (traceRaces trace).length) ∧
      rd.racesN = min (traceRaces trace).length racesMax ∧
      rd.races = (traceRaces trace).take rd.racesN ∧
      ∀ r ∈ rd.races, ∃ before after, trace = before ++ r.m1 :: after ∧ latestOf before r.m2.cpu = some r.m2 ∧
        r.m2.cpu ≠ r.m1.cpu ∧ Conflict r.m1 r.m2 := by
  obtain ⟨rd, hrun, htracks⟩ := foldlM_feed_tracks hfits (List.forall_mem_nil _) tracks_init
  obtain ⟨hraces, htotal⟩ := htracks.recorded
  rw [List.nil_append] at hraces htotal
  have hn : rd.racesN = min (traceRaces trace).length racesMax := by
    unfold SkiRaceDetector.racesN traceRaces
    rw [hraces, List.length_take, Nat.min_comm]
  refine ⟨rd, hrun, htotal, ?_, hn, ?_, ?_⟩
  · intro hlt
    unfold traceRaces at hlt ⊢
    rw [htotal]
    apply Int.bmod_eq_of_le <;> omega
  · rw [hn, Nat.min_comm, List.take_eq_take_min.symm]
    exact hraces
  · intro r hr
    rw [hraces] at hr
    exact mem_racesAfter (List.mem_of_mem_take hr)

/-- CPU 2 writes the word at 100 and CPU 0 then reads its upper half and the bytes after it. -/
def sharedWord : List SkiRdMemoryAccess :=
  [{ cpu := 2, physicalMemoryAddress := 100, ipAddress := 10, length := 4, isRead := 0, instructionCount := 1 },
   { cpu := 0, physicalMemoryAddress := 102, ipAddress := 20, length := 2, isRead := 1, instructionCount := 2 },
   { cpu := 0, physicalMemoryAddress := 104, ipAddress := 21, length := 2, isRead := 1, instructionCount := 3 }]

theorem fits_sharedWord : ∀ a ∈ sharedWord, a.Fits := by
  intro a ha
  simp only [sharedWord, List.mem_cons, List.not_mem_nil, or_false] at ha
  rcases ha with rfl | rfl | rfl <;> constructor <;> decide

theorem traceRaces_sharedWord :
    traceRaces sharedWord =
      [{ m1 := { cpu := 0, physicalMemoryAddress := 102, ipAddress := 20, length := 2, isRead := 1,
                 instructionCount := 2 }
         m2 := { cpu := 2, physicalMemoryAddress := 100, ipAddress := 10, length := 4, isRead := 0,
                 instructionCount := 1 } }] := by
  decide

theorem detector_reports_conflicts_sharedWord :
    ∃ rd, sharedWord.foldlM feed skiRaceDetectorInit = some rd ∧ rd.totalRaces = 1 ∧
      rd.races = traceRaces sharedWord := by
  obtain ⟨rd, hrun, -, htotal, hn, hraces, -⟩ := detector_reports_conflicts sharedWord fits_sharedWord
  have hlen : (traceRaces sharedWord).length = 1 := by
    rw [traceRaces_sharedWord]
    rfl
  rw [hlen] at htotal hn
  refine ⟨rd, hrun, htotal (by decide), ?_⟩
  rw [hraces, hn, List.take_of_length_le]
  rw [hlen]
  decide

end SkiVmm.Detect
