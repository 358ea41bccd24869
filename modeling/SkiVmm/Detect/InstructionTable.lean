import SkiVmm.Detect.Reset

/-!
# `Detect.InstructionTable` — how many instructions a slot can hold

`ski_stats_add_instruction_access` takes a new cell of `instructions` for every address that it has not seen. The array
has a million cells, but the assertion before the next one is taken compares with the size of another table, three
times as large. `Detect.Slot` stops where the array ends. Here a failed assertion (`abort`) and a cell behind the end
(`outOfBounds`) are kept apart.

* `Records` — the entries of the table are the addresses since the last reset, each once.
* `instructions_inBounds_iff` — a test stays within the array exactly as long as there are no more than a million of
  them. The assertion never fails before.
-/

namespace SkiVmm.Detect

open Lib

inductive AccessFault where
  | abort
  | outOfBounds
deriving DecidableEq, Repr

/-- `ia->total_accesses++`, for the cell `i` of the table. -/
def Slot.countAccess (s : Slot) (instructions : Hashed (BitVec 32) SkiStatsInstructionAccesses) (i : Nat) : Slot :=
  { s with instructions := instructions.modify i fun ia => { ia with totalAccesses := ia.totalAccesses + 1 } }

namespace Checked

/-- `ski_stats_add_instruction_access` -/
def skiStatsAddInstructionAccess (s : Slot) (eipAddress : BitVec 32) : Except AccessFault Slot :=
  match s.instructions.find? SkiStatsInstructionAccesses.eipAddress eipAddress with
  | some i => .ok (s.countAccess s.instructions i)
  | none =>
    if ¬s.instructions.used < maxDataAddresses then .error .abort
    -- not checked by the source
    else if ¬s.instructions.used < maxInstructionAddresses then .error .outOfBounds
    else
      .ok (s.countAccess
        (s.instructions.insert SkiStatsInstructionAccesses.eipAddress (Slot.enterInstruction eipAddress))
        s.instructions.used)

/-- The instructions of a test, one after the other. -/
def recordInstructions (s : Slot) (eips : List (BitVec 32)) : Except AccessFault Slot :=
  eips.foldlM skiStatsAddInstructionAccess s

/-- **The same function**, but for the kind of fault. -/
theorem skiStatsAddInstructionAccess_toOption (s : Slot) (eip : BitVec 32) :
    (skiStatsAddInstructionAccess s eip).toOption = s.skiStatsAddInstructionAccess eip := by
  unfold skiStatsAddInstructionAccess Slot.skiStatsAddInstructionAccess Hashed.findOrInsert
  cases s.instructions.find? SkiStatsInstructionAccesses.eipAddress eip with
  | some i => rfl
  | none =>
    simp only [Nat.lt_min]
    split_ifs <;> first | rfl | omega

end Checked

/-! ## The addresses since the last reset -/

def SlotOp.record (eips : List (BitVec 32)) : SlotOp → List (BitVec 32)
  | .instruction eip => eips ++ [eip]
  | .reset => []
  | _ => eips

def recorded (ops : List SlotOp) : List (BitVec 32) := ops.foldl SlotOp.record []

/-- The table holds each of the addresses once, and nothing else. -/
structure Records (eips : List (BitVec 32)) (table : List SkiStatsInstructionAccesses) : Prop where
  nodup : (table.map SkiStatsInstructionAccesses.eipAddress).Nodup
  mem_iff : ∀ eip, eip ∈ table.map SkiStatsInstructionAccesses.eipAddress ↔ eip ∈ eips
  length_le : table.length ≤ maxInstructionAddresses

section Records
variable {eips : List (BitVec 32)} {table : List SkiStatsInstructionAccesses} {eip : BitVec 32}

theorem records_nil : Records [] [] := ⟨List.nodup_nil, fun _ => Iff.rfl, Nat.zero_le _⟩

/-- The size of the table is the number of different addresses. -/
theorem Records.length_eq (h : Records eips table) : table.length = eips.dedup.length := by
  have hperm : (table.map SkiStatsInstructionAccesses.eipAddress).Perm eips.dedup :=
    (List.perm_ext_iff_of_nodup h.nodup (List.nodup_dedup eips)).mpr fun eip => by
      rw [h.mem_iff, List.mem_dedup]
  rw [← hperm.length_eq, List.length_map]

/-- **One more access**: to an address of the table, or to a new one that has room. -/
theorem Records.instruction (h : Records eips table) {limit : Nat} (hlimit : limit ≤ maxInstructionAddresses)
    {r : List SkiStatsInstructionAccesses × Nat}
    (hr : findOrAppend SkiStatsInstructionAccesses.eipAddress table eip limit ⟨eip, 0⟩ = some r)
    {f : SkiStatsInstructionAccesses → SkiStatsInstructionAccesses} (hf : ∀ ia, (f ia).eipAddress = ia.eipAddress) :
    Records (eips ++ [eip]) (r.1.modify r.2 f) := by
  have hkeys : (r.1.modify r.2 f).map SkiStatsInstructionAccesses.eipAddress
      = r.1.map SkiStatsInstructionAccesses.eipAddress := map_modify_eq fun ia _ => hf ia
  have hfst := map_fst_findOrAppend (table.map SkiStatsInstructionAccesses.eipAddress) eip limit
  have hkey : ∀ ia, id (SkiStatsInstructionAccesses.eipAddress ia) = ia.eipAddress := fun _ => rfl
  have hmap := findOrAppend_map hkey table eip limit ⟨eip, 0⟩
  rw [hmap, hr, Option.map_some, Option.map_some] at hfst
  have hlen : (r.1.modify r.2 f).length = (r.1.map SkiStatsInstructionAccesses.eipAddress).length := by
    rw [List.length_modify, List.length_map]
  split_ifs at hfst with hold hroom
  · have hsame := Option.some.inj hfst
    simp only at hsame
    refine ⟨?_, ?_, ?_⟩
    · rw [hkeys, hsame]
      exact h.nodup
    · intro x
      have hmem := (h.mem_iff eip).mp hold
      rw [hkeys, hsame, h.mem_iff, List.mem_append, List.mem_singleton]
      exact ⟨.inl, fun hx => hx.elim id fun hx => hx ▸ hmem⟩
    · rw [hlen, hsame, List.length_map]
      exact h.length_le
  · have hnew := Option.some.inj hfst
    simp only at hnew
    refine ⟨?_, ?_, ?_⟩
    · rw [hkeys, hnew]
      exact List.concat_eq_append ▸ h.nodup.concat hold
    · intro x
      rw [hkeys, hnew, List.mem_append, List.mem_append, h.mem_iff]
    · rw [hlen, hnew, List.length_append, List.length_singleton]
      exact Nat.le_trans hroom hlimit

/-- The operations on a slot. -/
theorem Records.apply {v v' : Statistics} {op : SlotOp} (h : Records eips v.instructions) (hv : v.apply op = some v') :
    Records (op.record eips) v'.instructions := by
  cases op with
  | instruction eip =>
    obtain ⟨r, hr, rfl⟩ := Option.map_eq_some_iff.mp hv
    exact h.instruction (Nat.min_le_right ..) hr fun _ => rfl
  | reset =>
    obtain rfl := Option.some.inj hv
    exact records_nil
  | start inputNumber | detector eip =>
    obtain rfl := Option.some.inj hv
    exact h
  | data a | race a | analyse exit =>
    obtain ⟨_, -, rfl⟩ := Option.map_eq_some_iff.mp hv
    exact h

/-- **Run lemma**: the table of a slot, after whatever was done to it. -/
theorem records_of_history {file : Option (List (BitVec 32))} {s₀ s : Slot} (hinit : skiStatsInitSlot file = some s₀)
    {ops : List SlotOp} (hops : ops.foldlM Slot.apply s₀ = some s) :
    s.instructions.Ok SkiStatsInstructionAccesses.eipAddress ∧ Records (recorded ops) s.instructions.entries := by
  obtain ⟨eips, hok₀, hview₀⟩ := skiStatsInitSlot_view hinit
  have hloop := (apply_refines eips).foldlM
  have hok : s.Ok eips := hloop.keeps hok₀ hops
  refine ⟨hok.instructions_ok, ?_⟩
  have hview : ops.foldlM Statistics.apply s₀.view = some s.view := by
    rw [← hloop.view_eq ops hok₀, hops]
    rfl
  have hstart : Records [] s₀.view.instructions := by
    rw [hview₀]
    exact records_nil
  -- on the views, operation by operation
  suffices hgen : ∀ (ops : List SlotOp) (done : List (BitVec 32)) (v v' : Statistics),
      Records done v.instructions → ops.foldlM Statistics.apply v = some v' →
        Records (ops.foldl SlotOp.record done) v'.instructions from hgen ops [] _ _ hstart hview
  intro ops
  induction ops with
  | nil =>
    intro done v v' h hv
    obtain rfl := Option.some.inj hv
    exact h
  | cons op ops ih =>
    intro done v v' h hv
    rw [List.foldlM_cons] at hv
    obtain ⟨u, hu, hv⟩ := Option.bind_eq_some_iff.mp hv
    exact ih _ u v' (h.apply hu) hv

end Records

/-! ## A test -/

namespace Checked
variable {eips : List (BitVec 32)} {s : Slot}

/-- An access that finds an entry, or room for one. -/
theorem skiStatsAddInstructionAccess_counts {eip : BitVec 32}
    (hok : s.instructions.Ok SkiStatsInstructionAccesses.eipAddress) (h : Records eips s.instructions.entries)
    {r : Hashed (BitVec 32) SkiStatsInstructionAccesses × Nat}
    (hfind : s.instructions.findOrInsert SkiStatsInstructionAccesses.eipAddress eip
      (min maxDataAddresses maxInstructionAddresses) (Slot.enterInstruction eip) = some r) :
    ∃ s', skiStatsAddInstructionAccess s eip = .ok s' ∧
      s'.instructions.Ok SkiStatsInstructionAccesses.eipAddress ∧
      Records (eips ++ [eip]) s'.instructions.entries := by
  have hentries := hok.findOrInsert_eq eip (min maxDataAddresses maxInstructionAddresses)
    (show ∀ ia, Slot.enterInstruction eip ia = ⟨eip, 0⟩ from fun _ => rfl)
  have hoption := skiStatsAddInstructionAccess_toOption s eip
  unfold Slot.skiStatsAddInstructionAccess at hoption
  rw [hfind] at hentries hoption
  cases hs : skiStatsAddInstructionAccess s eip with
  | error fault =>
    rw [hs] at hoption
    cases hoption
  | ok s' =>
    rw [hs] at hoption
    obtain rfl := Option.some.inj hoption
    refine ⟨_, rfl, (hok.findOrInsert_ok hfind).1.modify rfl, ?_⟩
    show Records _ (r.1.modify r.2 _).entries
    rw [show (r.1.modify r.2 _).entries = _ from Filled.entries_modify _ _ _]
    exact h.instruction (Nat.min_le_right ..) hentries.symm fun _ => rfl

/-- An access with a new address, when all cells are in use. The assertion does not stop it. -/
theorem skiStatsAddInstructionAccess_overruns {eip : BitVec 32}
    (hok : s.instructions.Ok SkiStatsInstructionAccesses.eipAddress) (h : Records eips s.instructions.entries)
    (hnew : s.instructions.find? SkiStatsInstructionAccesses.eipAddress eip = none)
    (hfull : s.instructions.used = maxInstructionAddresses) :
    skiStatsAddInstructionAccess s eip = .error .outOfBounds ∧
      maxInstructionAddresses < (eips ++ [eip]).dedup.length := by
  have hkeys : eip ∉ s.instructions.entries.map SkiStatsInstructionAccesses.eipAddress := by
    intro hmem
    have hsome := hok.isSome_find?_iff.mpr (List.mem_map.mp hmem)
    rw [hnew] at hsome
    cases hsome
  refine ⟨?_, ?_⟩
  · unfold skiStatsAddInstructionAccess
    rw [hnew]
    simp only [hfull]
    rw [if_neg (by decide), if_pos (Nat.lt_irrefl _)]
  · have hsub : ∀ x ∈ s.instructions.entries.map SkiStatsInstructionAccesses.eipAddress, x ∈ eips ++ [eip] :=
      fun x hx => List.mem_append_left _ ((h.mem_iff x).mp hx)
    have hlt := length_lt_length_dedup h.nodup hkeys hsub (List.mem_append_right _ List.mem_cons_self)
    rwa [List.length_map, Filled.length_entries, hfull] at hlt

/-- **One access**: it is counted, or the array is full. -/
theorem skiStatsAddInstructionAccess_cases (eip : BitVec 32)
    (hok : s.instructions.Ok SkiStatsInstructionAccesses.eipAddress) (h : Records eips s.instructions.entries) :
    (∃ s', skiStatsAddInstructionAccess s eip = .ok s' ∧
      s'.instructions.Ok SkiStatsInstructionAccesses.eipAddress ∧
      Records (eips ++ [eip]) s'.instructions.entries) ∨
    skiStatsAddInstructionAccess s eip = .error .outOfBounds ∧
      maxInstructionAddresses < (eips ++ [eip]).dedup.length := by
  cases hfind : s.instructions.findOrInsert SkiStatsInstructionAccesses.eipAddress eip
    (min maxDataAddresses maxInstructionAddresses) (Slot.enterInstruction eip) with
  | some r => exact .inl (skiStatsAddInstructionAccess_counts hok h hfind)
  | none =>
    unfold Hashed.findOrInsert at hfind
    cases hnew : s.instructions.find? SkiStatsInstructionAccesses.eipAddress eip with
    | some i =>
      rw [hnew] at hfind
      cases hfind
    | none =>
      rw [hnew] at hfind
      simp only [ite_eq_right_iff, reduceCtorEq, imp_false, Nat.lt_min, not_and_or, Nat.not_lt] at hfind
      have hle := h.length_le
      rw [Filled.length_entries] at hle
      refine .inr (skiStatsAddInstructionAccess_overruns hok h hnew ?_)
      unfold maxDataAddresses maxInstructionAddresses at *
      omega

/-- **A test** on a slot that has the addresses `eips` already. -/
theorem recordInstructions_outOfBounds_iff (hok : s.instructions.Ok SkiStatsInstructionAccesses.eipAddress)
    (h : Records eips s.instructions.entries) (more : List (BitVec 32)) :
    recordInstructions s more = .error .outOfBounds ↔ maxInstructionAddresses < (eips ++ more).dedup.length := by
  unfold recordInstructions
  induction more generalizing s eips with
  | nil =>
    refine iff_of_false nofun (Nat.not_lt.mpr ?_)
    rw [List.append_nil, ← h.length_eq]
    exact h.length_le
  | cons eip more ih =>
    rw [List.foldlM_cons, List.append_cons]
    rcases skiStatsAddInstructionAccess_cases eip hok h with ⟨s', hs', hok', h'⟩ | ⟨hfault, hfull⟩
    · rw [hs']
      exact ih hok' h'
    · rw [hfault]
      refine iff_of_true rfl (Nat.lt_of_lt_of_le hfull (length_dedup_le ?_))
      exact List.subset_append_left _ more

end Checked

/-- **When a test stays within the array**, on a slot with any history. -/
theorem instructions_inBounds_iff {file : Option (List (BitVec 32))} {s₀ s : Slot}
    (hinit : skiStatsInitSlot file = some s₀) {ops : List SlotOp} (hops : ops.foldlM Slot.apply s₀ = some s)
    (eips : List (BitVec 32)) :
    Checked.recordInstructions s eips ≠ .error .outOfBounds ↔
      (recorded ops ++ eips).dedup.length ≤ maxInstructionAddresses := by
  obtain ⟨hok, hrecords⟩ := records_of_history hinit hops
  rw [Ne, Checked.recordInstructions_outOfBounds_iff hok hrecords, Nat.not_lt]

theorem instructions_inBounds_two :
    ∃ s₀, skiStatsInitSlot none = some s₀ ∧
      Checked.recordInstructions s₀ [4096, 4100, 4096] ≠ .error .outOfBounds := by
  obtain ⟨s₀, hinit⟩ : ∃ s₀, skiStatsInitSlot none = some s₀ := ⟨_, rfl⟩
  have hops : ([] : List SlotOp).foldlM Slot.apply s₀ = some s₀ := rfl
  exact ⟨s₀, hinit, (instructions_inBounds_iff hinit hops _).mpr (by decide)⟩

/-- A million and one instructions, which the assertion would let pass three times over. -/
theorem million_and_one_outOfBounds :
    ∃ s₀, skiStatsInitSlot none = some s₀ ∧
      Checked.recordInstructions s₀ ((List.range 1000001).map (BitVec.ofNat 32)) = .error .outOfBounds := by
  obtain ⟨s₀, hinit⟩ : ∃ s₀, skiStatsInitSlot none = some s₀ := ⟨_, rfl⟩
  have hops : ([] : List SlotOp).foldlM Slot.apply s₀ = some s₀ := rfl
  obtain ⟨hok, hrecords⟩ := records_of_history hinit hops
  have hnodup : ((List.range 1000001).map (BitVec.ofNat 32)).Nodup := by
    refine List.Nodup.map_on ?_ List.nodup_range
    intro a ha b hb heq
    have hnat := congrArg BitVec.toNat heq
    rw [List.mem_range] at ha hb
    rw [BitVec.toNat_ofNat, BitVec.toNat_ofNat, Nat.mod_eq_of_lt (by omega), Nat.mod_eq_of_lt (by omega)] at hnat
    exact hnat
  refine ⟨s₀, hinit, (Checked.recordInstructions_outOfBounds_iff hok hrecords _).mpr ?_⟩
  rw [show recorded [] = [] from rfl, List.nil_append, hnodup.dedup, List.length_map, List.length_range]
  decide

end SkiVmm.Detect
