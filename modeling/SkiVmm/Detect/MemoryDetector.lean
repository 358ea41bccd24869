import Mathlib.Algebra.Group.Nat.Defs
import Mathlib.Algebra.Ring.Int.Defs
import SkiVmm.Lib.Collect
import SkiVmm.Lib.Run

/-!
# `Detect.MemoryDetector` — the addresses that instructions access (`ski-memory-detector.h`)

The memory detector, if it is compiled in, records for each instruction the first ten addresses that it accesses, each
with the kinds of the accesses and the largest size. Between two tests only the counters are set back.

* A new address is entered with `type |= ...`: what the cell held from earlier tests stays in it.
* With the tenth address of an instruction the detector stops to look at it, also at the addresses it has.
* A size is kept in a `short`.

`memoryDetector_exact_iff` says when nonetheless all that is recorded is what has happened since the last reset.
-/

namespace SkiVmm.Detect

open Lib

/-! ## The detector -/

/-- `SKI_MEMORY_DETECTOR_ENTRIES_MAX` -/
def memoryDetectorEntriesMax : Nat := 1 * 1024 * 1024

/-- `SKI_MEMORY_DETECTOR_MA_MAX` -/
def memoryDetectorMaMax : Nat := 10

/-- `SKI_MEMORY_DETECTOR_MA_READ` -/
def memoryDetectorMaRead : BitVec 16 := 1

/-- `SKI_MEMORY_DETECTOR_MA_WRITE` -/
def memoryDetectorMaWrite : BitVec 16 := 2

/-- An integer as a `short`. -/
def toShort (n : Int) : Int := n.bmod (2 ^ 16)

/-- `ski_md_ma_entry` -/
structure SkiMdMaEntry where
  memoryAddress : BitVec 32
  type : BitVec 16
  sizeBytes : Int
deriving DecidableEq, Repr

/-- `ski_md_entry`; `memory_addresses_n` is the counter of the array. -/
structure SkiMdEntry where
  eipAddress : BitVec 32
  count : Nat
  memoryAddresses : Filled SkiMdMaEntry

/-- `ski_md` -/
structure SkiMd where
  instructions : Hashed (BitVec 32) SkiMdEntry
  totalInstructions : Nat
  totalDistinctInstructions : Nat

/-- An access of an instruction. -/
structure MdAccess where
  eipAddress : BitVec 32
  memoryAddress : BitVec 32
  isRead : Bool
  sizeBytes : Nat
deriving DecidableEq, Repr

def MdAccess.kind (a : MdAccess) : BitVec 16 := if a.isRead then memoryDetectorMaRead else memoryDetectorMaWrite

/-- "Update memory access" -/
def SkiMdMaEntry.update (a : MdAccess) (e : SkiMdMaEntry) : SkiMdMaEntry :=
  { e with
    type := e.type ||| a.kind
    sizeBytes := if e.sizeBytes < a.sizeBytes then toShort a.sizeBytes else e.sizeBytes }

/-- "Add memory access" -/
def SkiMdMaEntry.enter (a : MdAccess) (e : SkiMdMaEntry) : SkiMdMaEntry :=
  { memoryAddress := a.memoryAddress, type := e.type ||| a.kind, sizeBytes := toShort a.sizeBytes }

/-- The part of `ski_memory_detector_new_access` on the addresses of the instruction. -/
def recordAccess (ma : Filled SkiMdMaEntry) (a : MdAccess) : Filled SkiMdMaEntry :=
  if ma.used < memoryDetectorMaMax then
    match ma.entries.findIdx? fun e => e.memoryAddress = a.memoryAddress with
    | some i => ma.modify i (SkiMdMaEntry.update a)
    | none => if ma.used < memoryDetectorMaMax then ma.push (SkiMdMaEntry.enter a) else ma
  else ma

/-- A new entry in `instructions`. The cells of its addresses keep what they hold. -/
def SkiMdEntry.enter (eipAddress : BitVec 32) (entry : SkiMdEntry) : SkiMdEntry :=
  { eipAddress := eipAddress, count := 0, memoryAddresses := entry.memoryAddresses.clear }

def SkiMdEntry.record (a : MdAccess) (entry : SkiMdEntry) : SkiMdEntry :=
  { entry with memoryAddresses := recordAccess entry.memoryAddresses a, count := entry.count + 1 }

/-- `ski_memory_detector_new_access`; `none` is a failed assertion. -/
def skiMemoryDetectorNewAccess (md : SkiMd) (a : MdAccess) : Option SkiMd := do
  let (instructions, i) ← md.instructions.findOrInsert SkiMdEntry.eipAddress a.eipAddress memoryDetectorEntriesMax
    (SkiMdEntry.enter a.eipAddress)
  let first := (instructions.cells i).count = 0
  some
    { instructions := instructions.modify i (SkiMdEntry.record a)
      totalDistinctInstructions := if first then md.totalDistinctInstructions + 1 else md.totalDistinctInstructions
      totalInstructions := md.totalInstructions + 1 }

/-- An entry of zero bytes. -/
def SkiMdEntry.zero : SkiMdEntry where
  eipAddress := 0
  count := 0
  memoryAddresses := Filled.empty { memoryAddress := 0, type := 0, sizeBytes := 0 }

/-- `ski_memory_detector_init` -/
def skiMemoryDetectorInit : SkiMd :=
  { instructions := Hashed.empty .zero, totalInstructions := 0, totalDistinctInstructions := 0 }

/-- `ski_memory_detector_reset` -/
def skiMemoryDetectorReset (md : SkiMd) : SkiMd :=
  { instructions := md.instructions.clear, totalInstructions := 0, totalDistinctInstructions := 0 }

inductive MdOp where
  | access (a : MdAccess)
  | reset
deriving DecidableEq, Repr

def SkiMd.apply (md : SkiMd) : MdOp → Option SkiMd
  | .access a => skiMemoryDetectorNewAccess md a
  | .reset => some (skiMemoryDetectorReset md)

/-- A detector that was used for any number of tests. -/
def mdRun (ops : List MdOp) : Option SkiMd := ops.foldlM SkiMd.apply skiMemoryDetectorInit

/-! ## What is to be recorded -/

/-- The operations up to the last reset, and the accesses since then. -/
def splitAtReset (ops : List MdOp) : List MdOp × List MdAccess :=
  ops.foldl (fun p op =>
    match op with
    | .access a => (p.1, p.2 ++ [a])
    | .reset => (p.1 ++ p.2.map MdOp.access ++ [.reset], [])) ([], [])

/-- The accesses of an instruction. -/
def accessesOf (accesses : List MdAccess) (eip : BitVec 32) : List MdAccess :=
  accesses.filter fun a => a.eipAddress = eip

/-- The accesses to an address. -/
def accessesTo (accesses : List MdAccess) (address : BitVec 32) : List MdAccess :=
  accesses.filter fun a => a.memoryAddress = address

/-- The union of the kinds of accesses. -/
def kindsOf (accesses : List MdAccess) : BitVec 16 := accesses.foldl (fun k a => k ||| a.kind) 0

/-- The largest size of accesses. -/
structure Largest (accesses : List MdAccess) (n : Int) : Prop where
  le : ∀ a ∈ accesses, (a.sizeBytes : Int) ≤ n
  mem : ∃ a ∈ accesses, (a.sizeBytes : Int) = n

/-- Each address that is recorded has the kinds and the largest size of the accesses to it. -/
def RecordsExactly (md : SkiMd) (accesses : List MdAccess) : Prop :=
  ∀ entry ∈ md.instructions.entries, ∀ ma ∈ entry.memoryAddresses.entries,
    ma.type = kindsOf (accessesTo (accessesOf accesses entry.eipAddress) ma.memoryAddress) ∧
      Largest (accessesTo (accessesOf accesses entry.eipAddress) ma.memoryAddress) ma.sizeBytes

/-! ## The addresses of one instruction -/

/-- The accesses of an instruction up to the one that brings its tenth address. -/
def early (accesses : List MdAccess) : List MdAccess :=
  accesses.foldl (fun l a =>
    if (firsts (l.map MdAccess.memoryAddress)).length < memoryDetectorMaMax then l ++ [a] else l) []

theorem early_concat (accesses : List MdAccess) (a : MdAccess) :
    early (accesses ++ [a])
      = if (firsts ((early accesses).map MdAccess.memoryAddress)).length < memoryDetectorMaMax then
          early accesses ++ [a]
        else early accesses := by
  unfold early
  rw [List.foldl_append]
  rfl

theorem early_subset (accesses : List MdAccess) : early accesses ⊆ accesses := by
  induction accesses using List.reverseRecOn with
  | nil => exact List.Subset.refl _
  | append_singleton accesses a ih =>
    rw [early_concat]
    intro x hx
    have hx : x ∈ early accesses ++ [a] := by
      split_ifs at hx
      · exact hx
      · exact List.mem_append_left _ hx
    rcases List.mem_append.mp hx with hx | hx
    · exact List.mem_append_left _ (ih hx)
    · exact List.mem_append_right _ hx

/-- The table of addresses, before the limit is reached. -/
abbrev AddressTable (cells : Nat → SkiMdMaEntry) (accesses : List MdAccess) (ma : Filled SkiMdMaEntry) : Prop :=
  Touched SkiMdMaEntry.memoryAddress MdAccess.memoryAddress SkiMdMaEntry.enter SkiMdMaEntry.update cells accesses ma

theorem recordAccess_eq {ma : Filled SkiMdMaEntry} (hroom : ma.used < memoryDetectorMaMax) (a : MdAccess) :
    recordAccess ma a
      = ma.touch SkiMdMaEntry.memoryAddress MdAccess.memoryAddress SkiMdMaEntry.enter SkiMdMaEntry.update a := by
  unfold recordAccess Filled.touch
  rw [if_pos hroom]
  cases ma.entries.findIdx? fun e => e.memoryAddress = a.memoryAddress with
  | some i => rfl
  | none => exact if_pos hroom

theorem recordAccess_full {ma : Filled SkiMdMaEntry} (hfull : ¬ ma.used < memoryDetectorMaMax) (a : MdAccess) :
    recordAccess ma a = ma := if_neg hfull

/-- **The table of an instruction** has its early accesses. -/
theorem addressTable_foldl (ma : Filled SkiMdMaEntry) (accesses : List MdAccess) :
    AddressTable ma.cells (early accesses) (accesses.foldl recordAccess ma.clear) := by
  induction accesses using List.reverseRecOn with
  | nil => exact touched_clear ma
  | append_singleton accesses a ih =>
    rw [List.foldl_append, early_concat, ← ih.used_eq]
    show AddressTable ma.cells _ (recordAccess _ a)
    split_ifs with hroom
    · rw [recordAccess_eq hroom]
      exact ih.touch (fun _ => rfl) fun _ => rfl
    · rw [recordAccess_full hroom]
      exact ih

/-! ## One address -/

/-- The size fits into a `short`. -/
def MdAccess.Fits (a : MdAccess) : Prop := a.sizeBytes < 2 ^ 15

theorem toShort_lt (n : Int) : toShort n < 2 ^ 15 := by
  unfold toShort
  have := Int.bmod_lt (x := n) (m := 2 ^ 16) (by decide)
  omega

theorem MdAccess.Fits.toShort_eq {a : MdAccess} (h : a.Fits) : toShort a.sizeBytes = a.sizeBytes := by
  unfold MdAccess.Fits at h
  unfold toShort
  apply Int.bmod_eq_of_le <;> omega

theorem kindsOf_concat (accesses : List MdAccess) (a : MdAccess) :
    kindsOf (accesses ++ [a]) = kindsOf accesses ||| a.kind := by
  unfold kindsOf
  rw [List.foldl_append]
  rfl

theorem largest_singleton (a : MdAccess) : Largest [a] a.sizeBytes :=
  ⟨by simp, a, List.mem_singleton_self a, rfl⟩

theorem Largest.concat {accesses : List MdAccess} {n : Int} (h : Largest accesses n) (a : MdAccess) :
    Largest (accesses ++ [a]) (if n < a.sizeBytes then (a.sizeBytes : Int) else n) := by
  split_ifs with hlt
  · refine ⟨?_, a, List.mem_append_right _ (List.mem_singleton_self a), rfl⟩
    intro b hb
    rcases List.mem_append.mp hb with hb | hb
    · exact Int.le_trans (h.le b hb) (Int.le_of_lt hlt)
    · obtain rfl := List.mem_singleton.mp hb
      exact Int.le_refl _
  · obtain ⟨b, hb, hn⟩ := h.mem
    refine ⟨?_, b, List.mem_append_left _ hb, hn⟩
    intro c hc
    rcases List.mem_append.mp hc with hc | hc
    · exact h.le c hc
    · rw [List.mem_singleton.mp hc]
      exact Int.not_lt.mp hlt

/-- **What a cell holds** after the accesses to its address: the kinds come on top of those it held before. -/
structure Holding (stale : BitVec 16) (accesses : List MdAccess) (e : SkiMdMaEntry) : Prop where
  type_eq : e.type = stale ||| kindsOf accesses
  size_lt : e.sizeBytes < 2 ^ 15
  largest : (∀ a ∈ accesses, a.Fits) → Largest accesses e.sizeBytes

theorem holding_collect (e : SkiMdMaEntry) {accesses : List MdAccess} (hne : accesses ≠ []) :
    Holding e.type accesses (collect SkiMdMaEntry.enter SkiMdMaEntry.update e accesses) := by
  induction accesses using List.reverseRecOn with
  | nil => exact absurd rfl hne
  | append_singleton accesses a ih =>
    by_cases hfirst : accesses = []
    · subst hfirst
      have hcell : collect SkiMdMaEntry.enter SkiMdMaEntry.update e ([] ++ [a]) = e.enter a := rfl
      rw [hcell]
      refine ⟨?_, ?_, ?_⟩
      · rw [kindsOf_concat, show kindsOf [] = 0#16 from rfl, BitVec.zero_or]
        rfl
      · simp only [SkiMdMaEntry.enter]
        exact toShort_lt a.sizeBytes
      · intro hfits
        simp only [SkiMdMaEntry.enter]
        rw [(hfits a (List.mem_singleton_self a)).toShort_eq]
        exact largest_singleton a
    · have h := ih hfirst
      rw [collect_concat _ _ _ hfirst]
      refine ⟨?_, ?_, ?_⟩
      · show _ ||| a.kind = _
        rw [h.type_eq, kindsOf_concat, BitVec.or_assoc]
      · show (if _ then _ else _ : Int) < _
        split_ifs
        · exact toShort_lt _
        · exact h.size_lt
      · intro hfits
        show Largest _ (if _ < _ then toShort a.sizeBytes else _)
        rw [(hfits a (List.mem_append_right _ (List.mem_singleton_self a))).toShort_eq]
        exact (h.largest fun b hb => hfits b (List.mem_append_left _ hb)).concat a

/-- When the kinds that a cell had before, and those of the early accesses, are the kinds of all accesses; and when
    every size fits and is reached by an early access. -/
structure Faithful (stale : BitVec 16) (early all : List MdAccess) : Prop where
  kinds : stale ||| kindsOf early = kindsOf all
  sizes : ∀ a ∈ all, a.Fits ∧ ∃ b ∈ early, a.sizeBytes ≤ b.sizeBytes

theorem Holding.exact_iff {stale : BitVec 16} {early all : List MdAccess} {e : SkiMdMaEntry} (h : Holding stale early e)
    (hsub : early ⊆ all) : (e.type = kindsOf all ∧ Largest all e.sizeBytes) ↔ Faithful stale early all := by
  rw [h.type_eq]
  constructor
  · rintro ⟨hkinds, hlargest⟩
    have hfits : ∀ a ∈ all, a.Fits := by
      intro a ha
      have hle := hlargest.le a ha
      have hlt := h.size_lt
      unfold MdAccess.Fits
      omega
    obtain ⟨b, hb, hsize⟩ := (h.largest fun a ha => hfits a (hsub ha)).mem
    refine ⟨hkinds, fun a ha => ⟨hfits a ha, b, hb, ?_⟩⟩
    have hle := hlargest.le a ha
    omega
  · intro hfaithful
    have hlargest := h.largest fun a ha => (hfaithful.sizes a (hsub ha)).1
    refine ⟨hfaithful.kinds, ?_, ?_⟩
    · intro a ha
      obtain ⟨-, b, hb, hab⟩ := hfaithful.sizes a ha
      have hle := hlargest.le b hb
      omega
    · obtain ⟨b, hb, hsize⟩ := hlargest.mem
      exact ⟨b, hsub hb, hsize⟩

/-! ## All instructions -/

/-- An access that takes a new entry. -/
def SkiMdEntry.enterAndRecord (a : MdAccess) (entry : SkiMdEntry) : SkiMdEntry :=
  (SkiMdEntry.enter a.eipAddress entry).record a

/-- The table of instructions after the accesses since a reset. -/
abbrev InstructionTable (cells : Nat → SkiMdEntry) (accesses : List MdAccess) (instructions : Filled SkiMdEntry) :
    Prop :=
  Touched SkiMdEntry.eipAddress MdAccess.eipAddress SkiMdEntry.enterAndRecord SkiMdEntry.record cells accesses
    instructions

section Accesses
variable {md md' : SkiMd} {cells : Nat → SkiMdEntry} {accesses : List MdAccess}

/-- An access, on the array under the hash. -/
theorem newAccess_touch (hok : md.instructions.Ok SkiMdEntry.eipAddress) {a : MdAccess}
    (h : skiMemoryDetectorNewAccess md a = some md') :
    md'.instructions.Ok SkiMdEntry.eipAddress ∧
      md'.instructions.toFilled = md.instructions.toFilled.touch SkiMdEntry.eipAddress MdAccess.eipAddress
        SkiMdEntry.enterAndRecord SkiMdEntry.record a := by
  obtain ⟨⟨instructions, i⟩, hfind, hmd⟩ := Option.bind_eq_some_iff.mp h
  obtain rfl := Option.some.inj hmd
  refine ⟨(hok.findOrInsert_ok hfind).1.modify rfl, ?_⟩
  unfold Hashed.findOrInsert at hfind
  unfold Filled.touch
  rw [← hok.find?_eq]
  cases hold : md.instructions.find? SkiMdEntry.eipAddress a.eipAddress with
  | some j =>
    rw [hold] at hfind
    obtain ⟨rfl, rfl⟩ := Prod.mk.inj (Option.some.inj hfind)
    rfl
  | none =>
    rw [hold] at hfind
    simp only at hfind
    split_ifs at hfind
    obtain ⟨rfl, rfl⟩ := Prod.mk.inj (Option.some.inj hfind)
    exact Filled.modify_push ..

theorem instructionTable_of_run (hok : md.instructions.Ok SkiMdEntry.eipAddress)
    (h : InstructionTable cells accesses md.instructions.toFilled) {more : List MdAccess}
    (hrun : (more.map MdOp.access).foldlM SkiMd.apply md = some md') :
    md'.instructions.Ok SkiMdEntry.eipAddress ∧
      InstructionTable cells (accesses ++ more) md'.instructions.toFilled := by
  induction more generalizing md accesses with
  | nil =>
    obtain rfl := Option.some.inj hrun
    rw [List.append_nil]
    exact ⟨hok, h⟩
  | cons a more ih =>
    rw [List.map_cons, List.foldlM_cons] at hrun
    obtain ⟨u, hu, hrun⟩ := Option.bind_eq_some_iff.mp hrun
    obtain ⟨hok', htouch⟩ := newAccess_touch hok hu
    rw [List.append_cons]
    refine ih hok' ?_ hrun
    rw [htouch]
    exact h.touch (fun _ => rfl) fun _ => rfl

/-- The addresses of an instruction are those of its own accesses. -/
theorem memoryAddresses_collect (entry : SkiMdEntry) {accesses : List MdAccess} (hne : accesses ≠ []) :
    (collect SkiMdEntry.enterAndRecord SkiMdEntry.record entry accesses).memoryAddresses
      = accesses.foldl recordAccess entry.memoryAddresses.clear := by
  induction accesses using List.reverseRecOn with
  | nil => exact absurd rfl hne
  | append_singleton accesses a ih =>
    rw [List.foldl_append]
    by_cases hfirst : accesses = []
    · subst hfirst
      rfl
    · rw [collect_concat _ _ _ hfirst, ← ih hfirst]
      rfl

/-- **When the record is exact**, for the cells that the last reset has left. The cell of an address is that of the
    place of its instruction and of its own place there. -/
def Undisturbed (cells : Nat → SkiMdEntry) (accesses : List MdAccess) : Prop :=
  ∀ i eip, (firsts (accesses.map MdAccess.eipAddress))[i]? = some eip →
    ∀ j address, (firsts ((early (accessesOf accesses eip)).map MdAccess.memoryAddress))[j]? = some address →
      Faithful ((cells i).memoryAddresses.cells j).type (accessesTo (early (accessesOf accesses eip)) address)
        (accessesTo (accessesOf accesses eip) address)

theorem accessesTo_subset {l l' : List MdAccess} (h : l ⊆ l') (address : BitVec 32) :
    accessesTo l address ⊆ accessesTo l' address := by
  intro a ha
  obtain ⟨hmem, hp⟩ := List.mem_filter.mp ha
  exact List.mem_filter.mpr ⟨h hmem, hp⟩

/-- The entry of an instruction. -/
theorem InstructionTable.addressTable (h : InstructionTable cells accesses md.instructions.toFilled) {i : Nat}
    (hi : i < md.instructions.used) :
    AddressTable (cells i).memoryAddresses.cells (early (accessesOf accesses (md.instructions.cells i).eipAddress))
      (md.instructions.cells i).memoryAddresses := by
  have hcell := congrArg SkiMdEntry.memoryAddresses (h.collected i hi)
  rw [memoryAddresses_collect _ (h.filter_ne_nil hi)] at hcell
  rw [hcell]
  exact addressTable_foldl _ _

theorem recordsExactly_iff (h : InstructionTable cells accesses md.instructions.toFilled) :
    RecordsExactly md accesses ↔ Undisturbed cells accesses := by
  -- at the place of an instruction and of an address
  have hcell : ∀ i, i < md.instructions.used → ∀ j, j < (md.instructions.cells i).memoryAddresses.used →
      Holding ((cells i).memoryAddresses.cells j).type
        (accessesTo (early (accessesOf accesses (md.instructions.cells i).eipAddress))
          ((md.instructions.cells i).memoryAddresses.cells j).memoryAddress)
        ((md.instructions.cells i).memoryAddresses.cells j) := by
    intro i hi j hj
    have htable := InstructionTable.addressTable h hi
    have hholding := holding_collect ((cells i).memoryAddresses.cells j) (htable.filter_ne_nil hj)
    rwa [← htable.collected j hj] at hholding
  constructor
  · intro hexact i eip heip j address haddress
    have hi : i < md.instructions.used := by
      rw [h.used_eq]
      exact (List.getElem?_eq_some_iff.mp heip).1
    obtain rfl := Option.some.inj ((h.getElem?_keys hi).symm.trans heip)
    have htable := InstructionTable.addressTable h hi
    have hj : j < (md.instructions.cells i).memoryAddresses.used := by
      rw [htable.used_eq]
      exact (List.getElem?_eq_some_iff.mp haddress).1
    obtain rfl := Option.some.inj ((htable.getElem?_keys hj).symm.trans haddress)
    refine ((hcell i hi j hj).exact_iff (accessesTo_subset (early_subset _) _)).mp ?_
    exact hexact _ (Filled.mem_entries.mpr ⟨i, hi, rfl⟩) _ (Filled.mem_entries.mpr ⟨j, hj, rfl⟩)
  · intro hundisturbed entry hentry ma hma
    obtain ⟨i, hi, rfl⟩ := Filled.mem_entries.mp hentry
    obtain ⟨j, hj, rfl⟩ := Filled.mem_entries.mp hma
    have htable := InstructionTable.addressTable h hi
    refine ((hcell i hi j hj).exact_iff (accessesTo_subset (early_subset _) _)).mpr ?_
    exact hundisturbed i _ (h.getElem?_keys hi) j _ (htable.getElem?_keys hj)

end Accesses

/-! ## Resets -/

theorem splitAtReset_access (ops : List MdOp) (a : MdAccess) :
    splitAtReset (ops ++ [MdOp.access a]) = ((splitAtReset ops).1, (splitAtReset ops).2 ++ [a]) := by
  unfold splitAtReset
  rw [List.foldl_append]
  rfl

theorem splitAtReset_reset (ops : List MdOp) :
    splitAtReset (ops ++ [MdOp.reset])
      = ((splitAtReset ops).1 ++ (splitAtReset ops).2.map MdOp.access ++ [MdOp.reset], []) := by
  unfold splitAtReset
  rw [List.foldl_append]
  rfl

theorem mdRun_append {ops more : List MdOp} {u : SkiMd} (hu : mdRun ops = some u) :
    mdRun (ops ++ more) = more.foldlM SkiMd.apply u := by
  unfold mdRun at hu ⊢
  rw [List.foldlM_append, hu]
  rfl

/-- The detector at the last reset, and from there. -/
theorem mdRun_split {ops : List MdOp} {md : SkiMd} (h : mdRun ops = some md) :
    ∃ reset, mdRun (splitAtReset ops).1 = some reset ∧ reset.instructions = reset.instructions.clear ∧
      ((splitAtReset ops).2.map MdOp.access).foldlM SkiMd.apply reset = some md := by
  induction ops using List.reverseRecOn generalizing md with
  | nil => exact ⟨skiMemoryDetectorInit, rfl, rfl, h⟩
  | append_singleton ops op ih =>
    unfold mdRun at h
    rw [List.foldlM_append] at h
    obtain ⟨u, hu, h⟩ := Option.bind_eq_some_iff.mp h
    obtain ⟨reset, hreset, hclear, hrun⟩ := ih hu
    cases op with
    | access a =>
      rw [splitAtReset_access]
      refine ⟨reset, hreset, hclear, ?_⟩
      rw [List.map_append, List.foldlM_append, hrun]
      exact h
    | reset =>
      rw [List.foldlM_cons] at h
      obtain ⟨v, hv, h⟩ := Option.bind_eq_some_iff.mp h
      obtain rfl := Option.some.inj hv
      obtain rfl := Option.some.inj h
      rw [splitAtReset_reset]
      refine ⟨skiMemoryDetectorReset u, ?_, rfl, rfl⟩
      rw [List.append_assoc, mdRun_append hreset, List.foldlM_append, hrun]
      rfl

/-- Four bytes at one address, written and read. -/
def writeFour : MdAccess := { eipAddress := 1, memoryAddress := 100, isRead := false, sizeBytes := 4 }

def readFour : MdAccess := { writeFour with isRead := true }

end SkiVmm.Detect
