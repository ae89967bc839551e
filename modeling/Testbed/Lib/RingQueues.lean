import Mathlib.Logic.Function.Basic
import Mathlib.Data.List.Basic
import Mathlib.Tactic.Common

/-! # Queues in a ring of slots

A queue of bounded capacity keeps its elements in a ring of slots, from `head` up to, but
not including, `tail`.  Equal indices mean that it is empty, so one slot always stays
free.  `contents` is the list that the ring stands for: an element is added behind while
fewer than `cap - 1` are in (`contents_enqueue`), and the first one is taken off
(`dequeue_eq_some`).
-/
namespace Testbed.Lib

open List

/-- A ring of `cap` slots, with the indices of the first element and of the first free
slot. -/
structure RingQueue (T : Type) (cap : Nat) where
  head : Nat
  tail : Nat
  items : Nat → T
  head_lt : head < cap
  tail_lt : tail < cap

namespace RingQueue
variable {T : Type} {cap : Nat}

/-- The next slot around the ring. -/
def next (cap i : Nat) : Nat := if i + 1 = cap then 0 else i + 1

theorem next_lt {i : Nat} (h : i < cap) : next cap i < cap := by
  unfold next
  split <;> omega

variable (q : RingQueue T cap)

/-- Add an element, unless that would close the ring; the flag says which. -/
def enqueue (v : T) : RingQueue T cap × Bool :=
  let tailNext := next cap q.tail
  if tailNext = q.head then (q, false)
  else
    ({ q with items := Function.update q.items q.tail v, tail := tailNext
              tail_lt := next_lt q.tail_lt }, true)

/-- Take off the first element, if there is one. -/
def dequeue : Option (T × RingQueue T cap) :=
  if q.head = q.tail then none
  else some (q.items q.head, { q with head := next cap q.head, head_lt := next_lt q.head_lt })

/-! ## The elements -/

/-- How many slots there are from `i` up to `j`. -/
def between (cap i j : Nat) : Nat := if i ≤ j then j - i else j + cap - i

theorem between_next_right {i j : Nat} (hi : i < cap) (hne : next cap j ≠ i) :
    between cap i (next cap j) = between cap i j + 1 := by
  by_cases hlast : j + 1 = cap
  · rw [next, if_pos hlast] at hne ⊢
    unfold between
    split <;> split <;> omega
  · rw [next, if_neg hlast] at hne ⊢
    unfold between
    split <;> split <;> omega

theorem between_next_left {i j : Nat} (hi : i < cap) (hj : j < cap) (hne : i ≠ j) :
    between cap i j = between cap (next cap i) j + 1 := by
  by_cases hlast : i + 1 = cap
  · rw [next, if_pos hlast]
    unfold between
    split <;> split <;> omega
  · rw [next, if_neg hlast]
    unfold between
    split <;> split <;> omega

/-- How many elements are in. -/
def size : Nat := between cap q.head q.tail

/-- The slot `k` places after `i`. -/
def after (cap i k : Nat) : Nat := if i + k < cap then i + k else i + k - cap

theorem after_next {i k : Nat} (hk : k + 1 < cap) :
    after cap (next cap i) k = after cap i (k + 1) := by
  unfold after next
  split <;> split <;> split <;> omega

/-- The elements, in the order of their arrival. -/
def contents : List T :=
  (List.range q.size).map fun k => q.items (after cap q.head k)

theorem size_lt : q.size < cap := by
  have htail := q.tail_lt
  unfold size between
  split <;> omega

@[simp] theorem length_contents : q.contents.length = q.size := by
  rw [contents, length_map, length_range]

variable {q : RingQueue T cap}

theorem contents_eq_nil_iff : q.contents = [] ↔ q.head = q.tail := by
  have hhead := q.head_lt
  rw [← length_eq_zero_iff, length_contents, size, between]
  split <;> omega

theorem next_tail_eq_head_iff : next cap q.tail = q.head ↔ q.size + 1 = cap := by
  have hhead := q.head_lt
  have htail := q.tail_lt
  unfold next size between
  split <;> split <;> omega

/-- **Adding behind.** -/
theorem contents_enqueue (q : RingQueue T cap) (v : T) : (q.enqueue v).1.contents =
      if q.contents.length + 1 < cap then q.contents ++ [v] else q.contents := by
  have hhead := q.head_lt
  have htail := q.tail_lt
  have hsize := q.size_lt
  rw [length_contents, enqueue]
  by_cases hfull : next cap q.tail = q.head
  · rw [if_pos hfull, if_neg (by have := next_tail_eq_head_iff.mp hfull; omega)]
  · have hroom : q.size + 1 < cap := by
      have := mt next_tail_eq_head_iff.mpr hfull
      omega
    rw [if_neg hfull, if_pos hroom]
    -- the new element stands in the slot after the others
    have hsize' : ∀ items tail_lt, size (⟨q.head, next cap q.tail, items, q.head_lt, tail_lt⟩ :
        RingQueue T cap) = q.size + 1 := fun _ _ => between_next_right hhead hfull
    have hlast : after cap q.head q.size = q.tail := by
      unfold after size between
      split <;> split <;> omega
    have hothers : ∀ k < q.size, after cap q.head k ≠ q.tail := by
      intro k hk
      unfold after
      unfold size between at hk
      split <;> split at hk <;> omega
    rw [contents, hsize', range_succ, map_append, map_singleton]
    refine congrArg₂ (· ++ ·) (map_congr_left fun k hk => ?_) (congrArg (fun x => [x]) ?_)
    · exact Function.update_of_ne (hothers k (mem_range.mp hk)) _ _
    · change Function.update q.items q.tail v (after cap q.head q.size) = v
      rw [hlast, Function.update_self]

/-- **Taking off the first.** -/
theorem dequeue_eq_some {q' : RingQueue T cap} {v : T} (h : q.dequeue = some (v, q')) :
    q.contents = v :: q'.contents := by
  have hhead := q.head_lt
  have htail := q.tail_lt
  unfold dequeue at h
  split at h
  · cases h
  · rename_i hne
    cases h
    have hsize : q.size = size (⟨next cap q.head, q.tail, q.items, next_lt q.head_lt, q.tail_lt⟩ :
        RingQueue T cap) + 1 := between_next_left hhead htail hne
    rw [contents, hsize, range_succ_eq_map, map_cons, map_map]
    refine congrArg₂ (· :: ·) (congrArg q.items ?_) (map_congr_left fun k hk => ?_)
    · unfold after
      split <;> omega
    · have hk' := mem_range.mp hk
      have hlt := q.size_lt
      exact congrArg q.items (after_next (by omega)).symm

theorem dequeue_eq_none_iff : q.dequeue = none ↔ q.contents = [] := by
  rw [contents_eq_nil_iff, dequeue]
  split <;> simp_all

end RingQueue

end Testbed.Lib
