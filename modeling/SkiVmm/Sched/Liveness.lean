import Mathlib.Logic.Basic

/-!
# `Sched.Liveness` — the read sets of `ski-liveness.h`

A read set (`ski_ma`) keeps the last distinct addresses that were read, each with the number of times the same
value was seen there. A thread that spins, by repeating a read or by `pause`, waits until one of the addresses in
a copy of its read set is written.

The hash of the source finds the entry of an address; here it is a search through the entries. The slots of the
array keep their place while `list` orders them by last use, and `order` is that list of slots.
-/

namespace SkiVmm.Sched

/-- `SKI_MA_ENTRIES_MAX` -/
def maEntriesMax : Nat := 20

/-- `ski_ma_entry` -/
structure SkiMaEntry where
  count : Int
  eip : Int
  memAddress : Int
  memValue : Int
  deriving DecidableEq

/-- `ski_ma`: `entries` holds the first `n_entries` slots, `order` the slots from the oldest use on. -/
structure SkiMa where
  isInitialized : Bool
  entries : List SkiMaEntry
  maxEntries : Nat
  order : List Nat
  deriving DecidableEq

/-- A read set of zero bytes. -/
def SkiMa.zero : SkiMa := { isInitialized := false, entries := [], maxEntries := 0, order := [] }

/-- `ski_liveness_init` -/
def skiLivenessInit (maxEntries : Nat) : SkiMa :=
  { isInitialized := true, entries := [], maxEntries := maxEntries, order := [] }

/-- The count of the first slot, `entries[0].count`. -/
def SkiMa.firstCount (ma : SkiMa) : Int :=
  match ma.entries with
  | [] => 0
  | e :: _ => e.count

/-- `ski_liveness_store`: the new read set and the count returned. On a set that is not initialised the source
    returns without a value; the read sets of CPUs in a test are initialised. -/
def skiLivenessStore (ma : SkiMa) (eip memAddress memValue : Int) : SkiMa × Int :=
  if !ma.isInitialized then (ma, 0)
  else
    let fresh : SkiMaEntry := { count := 1, eip := eip, memAddress := memAddress, memValue := memValue }
    match ma.entries.findIdx? fun e => e.memAddress = memAddress with
    | some i =>
      let entries := ma.entries.modify i fun e =>
        if e.memValue ≠ memValue then { e with memValue := memValue, count := 1 } else { e with count := e.count + 1 }
      ({ ma with entries := entries, order := ma.order.erase i ++ [i] }, (entries[i]?.map (·.count)).getD 0)
    | none =>
      if ma.entries.length < ma.maxEntries then
        ({ ma with entries := ma.entries ++ [fresh], order := ma.order ++ [ma.entries.length] }, 1)
      else
        -- no free entries: the oldest one is used again
        match ma.order with
        | [] => (ma, 1)
        | i :: order => ({ ma with entries := ma.entries.set i fresh, order := order ++ [i] }, 1)

/-- `ski_liveness_is_present` -/
def skiLivenessIsPresent (ma : SkiMa) (memAddress : Int) : Bool :=
  ma.entries.any fun e => e.memAddress = memAddress

/-- `ski_liveness_reset`; the assertion fails on a set that is not initialised. -/
def skiLivenessReset (ma : SkiMa) : Option SkiMa :=
  if ma.isInitialized then some (skiLivenessInit ma.maxEntries) else none

/-- `ski_liveness_copy` -/
def skiLivenessCopy (src : SkiMa) : Option SkiMa :=
  if src.isInitialized then
    some ((src.order.filterMap fun i => src.entries[i]?).foldl
      (fun dest e => (skiLivenessStore dest e.eip e.memAddress e.memValue).1) (skiLivenessInit src.maxEntries))
  else none

theorem skiLivenessStore_isInitialized (ma : SkiMa) (eip memAddress memValue : Int) :
    (skiLivenessStore ma eip memAddress memValue).1.isInitialized = ma.isInitialized := by
  unfold skiLivenessStore
  split
  · rfl
  · split
    · rfl
    · split
      · rfl
      · split <;> rfl

end SkiVmm.Sched
