import Mathlib.Tactic.Common
import Testbed.Lib.ExtremeRegisters

/-! # The last-writer-wins and priority lattices

`lww_pair_lattice.hpp` and `priority_lattice.hpp`, both at `T = V = string`.
`LWWPairLattice` keeps the pair of greatest timestamp and lets an equal timestamp
overwrite; `PriorityLattice` keeps the pair of least priority and lets only a
strictly smaller one overwrite.  They are the two registers of
`Testbed.Lib.ExtremeRegisters`.

The overwrite on ties makes the last-writer-wins value depend on the delivery
order: replicas agree exactly when all pairs of the greatest timestamp carry one
value (`lww_replicas_converge_iff`), and differ as soon as two of them do not
(`lww_replicas_diverge`).
-/
namespace Testbed.Anna

open Lib Lib.ExtremeRegisters

/-! ## Last writer wins -/

section LastWriterWins

local instance timestampOrder : LinearOrder UInt64 where
  le_refl := UInt64.le_refl
  le_trans _ _ _ := UInt64.le_trans
  le_antisymm _ _ := UInt64.le_antisymm
  le_total := UInt64.le_total
  lt_iff_le_not_ge _ _ := by
    rw [UInt64.lt_iff_toNat_lt, UInt64.le_iff_toNat_le, UInt64.le_iff_toNat_le]
    omega
  toDecidableLE := inferInstance

local instance timestampBot : OrderBot UInt64 where
  bot := 0
  bot_le a := by rw [UInt64.le_iff_toNat_le]; simp

/-- `TimestampValuePair<string>`. -/
@[ext] structure TimestampValuePair where
  timestamp : UInt64
  value : String
deriving DecidableEq, Repr

namespace LWWPairLattice

instance : Inhabited TimestampValuePair := ⟨⟨0, ""⟩⟩

def doMerge (element p : TimestampValuePair) : TimestampValuePair :=
  if p.timestamp ≥ element.timestamp then { timestamp := p.timestamp, value := p.value }
  else element

/-- `size`: the value's bytes and the timestamp's. -/
def size (element : TimestampValuePair) : Nat := element.value.utf8ByteSize + 8

/-- A pair as an entry ranked by its timestamp. -/
def toEntry : TimestampValuePair ≃ UInt64 × String where
  toFun p := (p.timestamp, p.value)
  invFun e := ⟨e.1, e.2⟩

theorem toEntry_doMerge (element p : TimestampValuePair) :
    toEntry (doMerge element p) = overwrite (toEntry element) (toEntry p) := by
  change _ = if element.timestamp ≤ p.timestamp then toEntry p else toEntry element
  unfold doMerge
  by_cases h : element.timestamp ≤ p.timestamp
  · rw [if_pos h, if_pos h]
  · rw [if_neg h, if_neg h]

end LWWPairLattice

open LWWPairLattice

variable (S : Multiset TimestampValuePair)

/-- `p` is a pair of `S` with the greatest timestamp. -/
def LatestPair (p : TimestampValuePair) : Prop :=
  p ∈ S ∧ ∀ q ∈ S, q.timestamp ≤ p.timestamp

theorem latest_map_iff (p : TimestampValuePair) :
    Latest (S.map toEntry) (toEntry p) ↔ LatestPair S p := by
  unfold Latest LatestPair
  rw [Multiset.mem_map_of_injective toEntry.injective]
  refine and_congr_right fun _ => ⟨fun h q hq => ?_, fun h e he => ?_⟩
  · exact h _ (Multiset.mem_map_of_mem _ hq)
  · obtain ⟨q, hq, rfl⟩ := Multiset.mem_map.mp he
    exact h q hq

/-- **When last-writer-wins replicas converge.**  Any two replicas that merge the
same pairs, in any order and any number of times, end with the same timestamp;
they always end with the same value too iff the pairs of the greatest timestamp
all carry one value. -/
theorem lww_replicas_converge_iff : (∀ l₁ l₂, Delivers S l₁ → Delivers S l₂ →
      (replay doMerge default l₁).timestamp = (replay doMerge default l₂).timestamp) ∧
    (Converges doMerge default S ↔ ∀ p q, LatestPair S p → LatestPair S q → p.value = q.value) := by
  have hreplay := fun l => replay_map toEntry toEntry toEntry_doMerge default l
  constructor
  · intro l₁ l₂ h₁ h₂
    have h := rank_eq_of_delivers "" ((delivers_map toEntry).mpr h₁) ((delivers_map toEntry).mpr h₂)
    change (replay _ (toEntry default) _).1 = (replay _ (toEntry default) _).1 at h
    rwa [← hreplay, ← hreplay] at h
  · rw [converges_map_iff toEntry toEntry toEntry_doMerge]
    refine (converges_overwrite_iff "" _).trans ⟨fun h p q hp hq => ?_, fun h p q hp hq => ?_⟩
    · exact h _ _ ((latest_map_iff S p).mpr hp) ((latest_map_iff S q).mpr hq)
    · exact h _ _ ((latest_map_iff S (toEntry.symm p)).mp hp)
        ((latest_map_iff S (toEntry.symm q)).mp hq)

/-- **Last-writer-wins replicas can differ for good**: two writes with one
timestamp, delivered in both orders. -/
theorem lww_replicas_diverge :
    ¬ ∀ S : Multiset TimestampValuePair, Converges doMerge default S := by
  intro h
  let p : TimestampValuePair := ⟨1, "x"⟩
  let q : TimestampValuePair := ⟨1, "y"⟩
  have hc := h ↑[p, q] [p, q] [q, p] ⟨le_rfl, by simp⟩
    ⟨(Multiset.coe_eq_coe.mpr (List.reverse_perm [p, q])).ge, by simp [or_comm]⟩
  exact absurd hc (by decide)

end LastWriterWins

/-! ## Priorities -/

/-- The `double`s that serve as priorities, as far as the lattice uses them: a
total order with the two values that stand for "no priority yet", `INT_MAX` in
memory and protobuf's default `0` on disk. -/
class Priority (D : Type) extends LinearOrder D where
  zero : D
  intMax : D
  zero_lt_intMax : zero < intMax

/-- Integers as priorities. -/
@[reducible] def integerPriority : Priority Int where
  zero := 0
  intMax := 2147483647
  zero_lt_intMax := by decide

attribute [instance] integerPriority

/-- `PriorityValuePair<double, string>`. -/
@[ext] structure PriorityValuePair (D : Type) where
  priority : D
  value : String
deriving DecidableEq

namespace PriorityLattice
variable {D : Type} [Priority D]

/-- Initialized at a high value, since merging takes the minimum. -/
instance : Inhabited (PriorityValuePair D) := ⟨⟨Priority.intMax, ""⟩⟩

/-- `do_merge`, at `Compare = std::less`. -/
def doMerge (element p : PriorityValuePair D) : PriorityValuePair D :=
  if p.priority < element.priority then p else element

/-- `size`: the value's bytes and the priority's. -/
def size (element : PriorityValuePair D) : Nat := 8 + element.value.utf8ByteSize

end PriorityLattice

end Testbed.Anna
