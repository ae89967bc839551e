import Testbed.Anna.Server
import Mathlib.Data.Multiset.Sort

/-! # Access counts

A thread keeps the times at which each key was accessed, and `run` in `server.cpp` reports their
numbers from time to time.  Times that are too old are to be dropped first.  The loop that does so
stops at the first of them, and it works on a copy: what is dropped is missing in the report, and
stays in the tracker.
-/
namespace Testbed.Anna

open Std Multiset

def kKeyMonitoringThreshold : Nat := 60

/-- The ticks of `system_clock` in a second. -/
def ticksPerSecond : Nat := 10 ^ 9

/-- The test of the loop; a time that is yet to come has a negative age, which is below the
threshold as `0` is. -/
def expired (currentTime time : Nat) : Bool :=
  (currentTime - time) / ticksPerSecond ≥ kKeyMonitoringThreshold

/-- The loop over the times, in their order; `erase` takes out all that are equal. -/
def garbageCollect (currentTime : Nat) (accessTimes : Multiset Nat) : Multiset Nat :=
  match accessTimes.sort.find? (expired currentTime) with
  | none => accessTimes
  | some time => accessTimes.filter (· ≠ time)

/-- The key access stats: the counts, and the tracker after them. -/
def keyAccessStats (currentTime : Nat) (keyAccessTracker : ExtTreeMap Key (Multiset Nat)) :
    List (Key × Nat) × ExtTreeMap Key (Multiset Nat) :=
  -- `access_times` is a copy
  (keyAccessTracker.toList.map fun pair => (pair.1, (garbageCollect currentTime pair.2).card),
    keyAccessTracker)

/-- The time is less than the threshold old. -/
def Recent (currentTime time : Nat) : Prop :=
  currentTime < time + kKeyMonitoringThreshold * ticksPerSecond

instance (currentTime : Nat) : DecidablePred (Recent currentTime) :=
  fun _ => inferInstanceAs (Decidable (_ < _))

variable {currentTime time : Nat} {accessTimes : Multiset Nat}

theorem expired_iff : expired currentTime time = true ↔ ¬ Recent currentTime time := by
  rw [expired, decide_eq_true_eq, ge_iff_le, Nat.le_div_iff_mul_le (by decide), Recent]
  have hpos : 0 < kKeyMonitoringThreshold * ticksPerSecond := by decide
  omega

theorem garbageCollect_cases (currentTime : Nat) (accessTimes : Multiset Nat) :
    (garbageCollect currentTime accessTimes = accessTimes ∧
      ∀ time ∈ accessTimes, Recent currentTime time) ∨
    ∃ time ∈ accessTimes, ¬ Recent currentTime time ∧
      garbageCollect currentTime accessTimes = accessTimes.filter (· ≠ time) := by
  unfold garbageCollect
  split
  · rename_i hnone
    refine Or.inl ⟨rfl, fun time htime => ?_⟩
    have hnot := List.find?_eq_none.mp hnone time ((mem_sort _).mpr htime)
    exact not_not.mp (mt expired_iff.mpr hnot)
  · rename_i time hsome
    exact Or.inr ⟨time, (mem_sort _).mp (List.mem_of_find?_eq_some hsome),
      expired_iff.mp (List.find?_some hsome), rfl⟩

/-- One expired time is dropped, as often as it is there. -/
theorem card_garbageCollect_iff : (garbageCollect currentTime accessTimes).card =
        (accessTimes.filter (Recent currentTime)).card ↔
      ∀ time ∈ accessTimes, ∀ time' ∈ accessTimes, ¬ Recent currentTime time →
        ¬ Recent currentTime time' → time = time' := by
  obtain ⟨heq, hrecent⟩ | ⟨first, hfirst, hold, heq⟩ := garbageCollect_cases currentTime accessTimes
  · rw [heq, filter_eq_self.mpr hrecent]
    exact iff_of_true rfl fun time htime _ _ hnot => absurd (hrecent time htime) hnot
  · rw [heq]
    have hle : accessTimes.filter (Recent currentTime) ≤ accessTimes.filter (· ≠ first) :=
      monotone_filter_right _ fun time hrecent heq => hold (heq ▸ hrecent)
    constructor
    · intro hcard time htime time' htime' hnot hnot'
      have hsame := eq_of_le_of_card_le hle hcard.le
      have hall : ∀ t ∈ accessTimes, ¬ Recent currentTime t → t = first := fun t ht hnot =>
        by_contra fun hne => hnot (of_mem_filter
          (hsame.symm ▸ mem_filter.mpr ⟨ht, hne⟩ : t ∈ accessTimes.filter _))
      rw [hall time htime hnot, hall time' htime' hnot']
    · intro hall
      refine congrArg Multiset.card (filter_congr fun time htime => ?_)
      exact ⟨fun hne => by_contra fun hnot => hne (hall time htime first hfirst hnot hold),
        fun hrecent heq => hold (heq ▸ hrecent)⟩

/-- The counts are those of the recent times, and only these are left in the tracker. -/
def Windowed (currentTime : Nat) (keyAccessTracker : ExtTreeMap Key (Multiset Nat)) : Prop :=
  let stats := keyAccessStats currentTime keyAccessTracker
  (∀ key count, (key, count) ∈ stats.1 →
    count = ((keyAccessTracker.getD key 0).filter (Recent currentTime)).card) ∧
  ∀ (key : Key) accessTimes, stats.2[key]? = some accessTimes →
    ∀ time ∈ accessTimes, Recent currentTime time

/-- **Access counts are windowed** just if no time is old: then there is nothing to drop. -/
theorem windowed_iff (currentTime : Nat) (keyAccessTracker : ExtTreeMap Key (Multiset Nat)) :
    Windowed currentTime keyAccessTracker ↔
      ∀ (key : Key) accessTimes, keyAccessTracker[key]? = some accessTimes →
        ∀ time ∈ accessTimes, Recent currentTime time := by
  refine ⟨fun h => h.2, fun h => ⟨fun key count hmem => ?_, h⟩⟩
  obtain ⟨⟨_, accessTimes⟩, hpair, heq⟩ := List.mem_map.mp hmem
  cases heq
  have hget := ExtTreeMap.mem_toList_iff_getElem?_eq_some.mp hpair
  rw [ExtTreeMap.getD_eq_getD_getElem?, hget, Option.getD_some]
  refine card_garbageCollect_iff.mpr fun time htime _ _ hnot => ?_
  exact absurd (h _ _ hget time htime) hnot

/-- A key was accessed twice, both times too long ago: one is counted, and both are kept. -/
theorem not_windowed :
    ¬ ∀ currentTime keyAccessTracker, Windowed currentTime keyAccessTracker := fun h =>
  absurd ((h (70 * ticksPerSecond) ((∅ : ExtTreeMap Key (Multiset Nat)).insert "k" {0, 1})).2 "k"
    {0, 1} ExtTreeMap.getElem?_insert_self 0 (mem_cons_self 0 _)) (by decide)

end Testbed.Anna
