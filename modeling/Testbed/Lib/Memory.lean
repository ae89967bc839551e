import Mathlib.Algebra.Order.Ring.Nat
import Mathlib.Logic.Function.Basic
import Mathlib.Data.Nat.ModEq

/-! # Bytes in memory

A memory maps places to bytes.  Programs use addresses, and `place` tells which place an
address stands for: several addresses may stand for the same place, as when pages are mapped
twice.  `copy` writes bytes to consecutive addresses, `load` and `store` read and write
little-endian numbers of a given width.

What a write does is stated for the addresses that stand for different places
(`Distinct`, `Apart`): the bytes that were written are there (`copy_at`), a number that was
stored is read back (`load_store`), and bytes apart from them stay (`load_store_apart`).
-/
namespace Testbed.Lib

open Nat

/-- Bytes by place. -/
abbrev Memory := Nat → UInt8

namespace Memory

variable (place : Nat → Nat)

/-- The bytes `source 0`, …, `source (n - 1)`, written to the addresses from `a` on. -/
def copy (m : Memory) (a : Nat) (source : Nat → UInt8) : Nat → Memory
  | 0 => m
  | n + 1 => Function.update (copy m a source n) (place (a + n)) (source n)

/-- The number that stands in `w` bytes from `a` on, the least significant byte first. -/
def load (m : Memory) (a : Nat) : Nat → Nat
  | 0 => 0
  | w + 1 => load m a w + (m (place (a + w))).toNat * 256 ^ w

/-- The byte `i` of a number. -/
def byteOf (v i : Nat) : UInt8 := UInt8.ofNat (v / 256 ^ i)

/-- The number `v`, written to `w` bytes from `a` on. -/
def store (m : Memory) (a w v : Nat) : Memory := copy place m a (byteOf v) w

/-! ## Addresses that stand for different places -/

/-- The `n` addresses from `a` on stand for different places. -/
def Distinct (a n : Nat) : Prop := ∀ i < n, ∀ j < n, place (a + i) = place (a + j) → i = j

/-- No place is shared by the `n` addresses from `a` on and the `k` addresses from `b` on. -/
def Apart (a n b k : Nat) : Prop := ∀ i < n, ∀ j < k, place (a + i) ≠ place (b + j)

variable {place} {m m' : Memory} {a b n k : Nat}

theorem Distinct.mono (h : Distinct place a n) (hk : k ≤ n) : Distinct place a k :=
  fun i hi j hj => h i (hi.trans_le hk) j (hj.trans_le hk)

theorem Distinct.shift {d : Nat} (h : Distinct place a n) (hd : d + k ≤ n) :
    Distinct place (a + d) k := by
  intro i hi j hj heq
  have hsame := h (d + i) (by omega) (d + j) (by omega)
    (by rw [← add_assoc, ← add_assoc]; exact heq)
  omega

theorem distinct_id (a n : Nat) : Distinct id a n := fun _ _ _ _ h => add_left_cancel h

theorem apart_id (h : a + n ≤ b ∨ b + k ≤ a) : Apart id a n b k := by
  intro i hi j hj heq
  simp only [id_eq] at heq
  omega

variable {x w v : Nat} {source : Nat → UInt8}

theorem mod_ne_of_lt {size y : Nat} (hlt : x < y) (hnear : y < x + size) : x % size ≠ y % size := by
  intro heq
  have hdvd := (modEq_iff_dvd' hlt.le).mp heq
  have hle := le_of_dvd (by omega) hdvd
  omega

theorem distinct_mod {size : Nat} (h : n ≤ size) : Distinct (· % size) a n := by
  intro i hi j hj heq
  by_contra hne
  rcases lt_or_gt_of_ne hne with hlt | hlt
  · exact mod_ne_of_lt (by omega) (by omega) heq
  · exact mod_ne_of_lt (by omega) (by omega) heq.symm

/-! ## Copies -/

theorem copy_at {i : Nat} (h : Distinct place a n) (hi : i < n) :
    copy place m a source n (place (a + i)) = source i := by
  induction n with
  | zero => omega
  | succ n ih =>
    rw [copy]
    by_cases hlast : i = n
    · rw [hlast, Function.update_self]
    · have hne : place (a + i) ≠ place (a + n) := fun heq => hlast (h i hi n (by omega) heq)
      rw [Function.update_of_ne hne]
      exact ih (h.mono (le_succ n)) (by omega)

theorem copy_of_ne (h : ∀ i < n, place (a + i) ≠ x) : copy place m a source n x = m x := by
  induction n with
  | zero => rfl
  | succ n ih =>
    rw [copy, Function.update_of_ne (h n (lt_succ_self n)).symm]
    exact ih fun i hi => h i (by omega)

theorem copy_id : copy id m a source n x = if a ≤ x ∧ x < a + n then source (x - a) else m x := by
  split
  · rename_i hx
    have heq := Nat.add_sub_cancel' hx.1
    have hcopy := @copy_at id m a n source (x - a) (distinct_id a n) (by omega)
    rwa [heq] at hcopy
  · rename_i hx
    refine copy_of_ne fun i hi heq => hx ?_
    simp only [id_eq] at heq
    omega

/-! ## Numbers -/

theorem load_lt (m : Memory) (a w : Nat) : load place m a w < 256 ^ w := by
  induction w with
  | zero => exact one_pos
  | succ w ih =>
    have hbyte : (m (place (a + w))).toNat ≤ 255 := le_of_lt_succ (UInt8.toNat_lt _)
    have hscaled := mul_le_mul_right (256 ^ w) hbyte
    rw [load, pow_succ]
    omega

theorem load_congr {place' : Nat → Nat} (h : ∀ i < w, m (place (a + i)) = m' (place' (b + i))) :
    load place m a w = load place' m' b w := by
  induction w with
  | zero => rfl
  | succ w ih => rw [load, load, ih fun i hi => h i (by omega), h w (lt_succ_self w)]

theorem load_store_apart {l : Nat} (h : Apart place a w b l) :
    load place (store place m a w v) b l = load place m b l :=
  load_congr fun i hi => copy_of_ne fun j hj => h j hj i hi

theorem load_of_byteOf (h : ∀ i < w, m (place (a + i)) = byteOf v i) :
    load place m a w = v % 256 ^ w := by
  induction w with
  | zero => rw [load, pow_zero, mod_one]
  | succ w ih =>
    have hbyte : (byteOf v w).toNat = v / 256 ^ w % 256 := UInt8.toNat_ofNat'
    rw [load, ih fun i hi => h i (by omega), h w (lt_succ_self w), hbyte, mod_pow_succ,
      mul_comm (256 ^ w)]

/-- **A number that was stored** is read back. -/
theorem load_store (h : Distinct place a w) : load place (store place m a w v) a w = v % 256 ^ w :=
  load_of_byteOf fun _ hi => copy_at h hi

end Memory

end Testbed.Lib
