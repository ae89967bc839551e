import Mathlib.Data.List.Dedup
import Mathlib.Data.List.Induction

/-! # Lists in order of last use

A list that keeps the `n` entries touched last, newest first: `foldl_touch` says what it holds
after any sequence of touches, if it starts with `n` copies of one entry.
-/
namespace Testbed.Lib

open List

variable {α : Type} [DecidableEq α]

/-- The last `n` of the entries that were touched, from the newest to the oldest. -/
def touch (n : Nat) (l : List α) (a : α) : List α :=
  (a :: l.erase a).take n

theorem dedup_concat (l : List α) (a : α) :
    (l ++ [a]).dedup.reverse = a :: l.dedup.reverse.erase a := by
  rw [(nodup_reverse.mpr (nodup_dedup l)).erase_eq_filter, filter_reverse, ← reverse_concat']
  congr 1
  induction l with
  | nil => rfl
  | cons b l ih =>
    by_cases hb : b ∈ l
    · rw [cons_append, dedup_cons_of_mem (mem_append_left _ hb), dedup_cons_of_mem hb, ih]
    · by_cases hba : b = a
      · rw [cons_append, dedup_cons_of_mem (by simp [hba]), dedup_cons_of_notMem hb, ih,
          filter_cons_of_neg (by simp [hba])]
      · rw [cons_append, dedup_cons_of_notMem (by simp [hb, hba]), dedup_cons_of_notMem hb, ih,
          filter_cons_of_pos (by simp [hba]), cons_append]

theorem take_erase_take (l : List α) (n : Nat) (a : α) :
    ((l.take (n + 1)).erase a).take n = (l.erase a).take n := by
  induction l generalizing n with
  | nil => rfl
  | cons b l ih =>
    by_cases hb : b = a
    · simp [hb, take_take]
    · cases n with
      | zero => rfl
      | succ n => simp [hb, ih]

theorem take_erase_append (l : List α) (n : Nat) (a d : α) :
    ((l ++ replicate (n + 1) d).erase a).take n = (l.erase a ++ replicate (n + 1) d).take n := by
  by_cases ha : a ∈ l
  · rw [erase_append_left _ ha]
  · rw [erase_append_right _ ha, erase_of_not_mem ha]
    by_cases had : a = d
    · rw [had, replicate_succ, erase_cons_head, ← replicate_succ, take_append, take_append,
        take_replicate, take_replicate]
      congr 2
      omega
    · rw [erase_of_not_mem fun hmem => had (eq_of_mem_replicate hmem)]

/-- **A recency list has the last distinct elements**, the newest first. -/
theorem foldl_touch (n : Nat) (d : α) (l : List α) :
    l.foldl (touch n) (replicate n d) = (l.dedup.reverse ++ replicate n d).take n := by
  induction l using reverseRecOn with
  | nil => simp
  | append_singleton l a ih =>
    rw [foldl_append, ih, foldl_cons, foldl_nil, dedup_concat, touch]
    cases n with
    | zero => rfl
    | succ n =>
      rw [take_succ_cons, take_erase_take, take_erase_append, cons_append, take_succ_cons]

end Testbed.Lib
