import Mathlib.Order.Lattice
import Mathlib.Data.List.Basic

/-! # The ordered set of the Python client

`ListBasedOrderedSet` of `client/python/anna/lattices.py` keeps its values in a list.  `_index_of`
is a binary search, and `insert` appends a value that is larger than the last one, or puts it where
the search ends.  The list is strictly increasing and has the values that were inserted
(`sorted_set`).
-/
namespace Testbed.Anna

open List

/-- `int(n / 2)`.  The quotient is rounded to a double when `n` is large; all that the search needs
is that the middle is inside the interval. -/
structure Halving where
  half : Nat → Nat
  lt : ∀ n, 0 < n → half n < n

namespace ListBasedOrderedSet
variable {α : Type} [LinearOrder α] (halving : Halving)

/-- The loop of `_index_of`: nothing is returned when the fuel runs out or the list is read
outside. -/
def indexLoop (lst : List α) (value : α) : Nat → Nat → Nat → Option (Nat × Bool)
  | 0, _, _ => none
  | fuel + 1, low, high =>
    if low < high then
      let middle := low + halving.half (high - low)
      match lst[middle]? with
      | none => none
      | some pivot =>
        if value = pivot then some (middle, true)
        else if value < pivot then indexLoop lst value fuel low middle
        else if pivot < value then indexLoop lst value fuel (middle + 1) high
        else indexLoop lst value fuel low high
    else some (low, false)

variable (lst : List α) (value : α)

def indexOf : Option (Nat × Bool) :=
  indexLoop halving lst value (lst.length + 1) 0 lst.length

def insert : Option (List α) :=
  match lst.getLast? with
  | none => some (lst ++ [value])
  | some last =>
    if value > last then some (lst ++ [value])
    else
      match indexOf halving lst value with
      | none => none
      | some (idx, present) => some (if present then lst else lst.take idx ++ value :: lst.drop idx)

/-! ## The search -/

/-- The values below the index are smaller, and those from the index on are larger. -/
structure Cut (low high : Nat) : Prop where
  smaller : ∀ j v, lst[j]? = some v → j < low → v < value
  larger : ∀ j v, lst[j]? = some v → high ≤ j → value < v

/-- What `_index_of` returns: the place of the value, or where it belongs. -/
def Locates : Nat × Bool → Prop
  | (i, true) => lst[i]? = some value
  | (i, false) => i ≤ lst.length ∧ Cut lst value i i

variable {lst : List α} {value : α} {low high i : Nat}

section
variable (hsorted : lst.Pairwise (· < ·))
include hsorted

theorem getElem?_lt {j k : Nat} {v w : α} (hv : lst[j]? = some v)
    (hw : lst[k]? = some w) (hlt : j < k) : v < w := by
  obtain ⟨hj, rfl⟩ := List.getElem?_eq_some_iff.mp hv
  obtain ⟨hk, rfl⟩ := List.getElem?_eq_some_iff.mp hw
  exact pairwise_iff_getElem.mp hsorted j k hj hk hlt

theorem getElem?_le {j k : Nat} {v w : α} (hv : lst[j]? = some v)
    (hw : lst[k]? = some w) (hle : j ≤ k) : v ≤ w := by
  rcases Nat.eq_or_lt_of_le hle with rfl | hlt
  · exact (Option.some.inj (hv.symm.trans hw)).le
  · exact (getElem?_lt hsorted hv hw hlt).le

/-- **The search returns**: the interval shrinks, and the value is nowhere else. -/
theorem indexLoop_locates {fuel : Nat} (hhigh : high ≤ lst.length)
    (hlow : low ≤ high) (hcut : Cut lst value low high) (hfuel : high - low < fuel) :
    ∃ found, indexLoop halving lst value fuel low high = some found ∧ Locates lst value found := by
  induction fuel generalizing low high with
  | zero => omega
  | succ _ ih =>
    rw [indexLoop]
    by_cases hlt : low < high
    · have hmiddle := halving.lt (high - low) (by omega)
      obtain ⟨pivot, hpivot⟩ : ∃ pivot, lst[low + halving.half (high - low)]? = some pivot :=
        ⟨_, getElem?_eq_getElem (by omega)⟩
      rw [if_pos hlt]
      dsimp only
      rw [hpivot]
      dsimp only
      rcases lt_trichotomy value pivot with hvalue | rfl | hvalue
      · rw [if_neg hvalue.ne, if_pos hvalue]
        refine ih (by omega) (by omega) ⟨hcut.smaller, fun j v hv hj => ?_⟩ (by omega)
        exact hvalue.trans_le (getElem?_le hsorted hpivot hv hj)
      · rw [if_pos rfl]
        exact ⟨_, rfl, hpivot⟩
      · rw [if_neg hvalue.ne', if_neg hvalue.asymm, if_pos hvalue]
        refine ih hhigh (by omega) ⟨fun j v hv hj => ?_, hcut.larger⟩ (by omega)
        exact (getElem?_le hsorted hv hpivot (by omega)).trans_lt hvalue
    · rw [if_neg hlt]
      have heq : low = high := by omega
      exact ⟨_, rfl, by omega, heq ▸ hcut⟩

theorem indexOf_locates (value : α) :
    ∃ found, indexOf halving lst value = some found ∧ Locates lst value found := by
  refine indexLoop_locates halving hsorted (Nat.le_refl _) (Nat.zero_le _) ⟨fun _ _ _ hj => ?_, ?_⟩
    (by omega)
  · cases hj
  · intro j v hv hj
    rw [getElem?_eq_none hj] at hv
    cases hv

end

/-! ## Insertion -/

theorem Cut.not_mem (h : Cut lst value i i) : value ∉ lst := by
  intro hmem
  obtain ⟨j, hj⟩ := mem_iff_getElem?.mp hmem
  rcases Nat.lt_or_ge j i with hlt | hge
  · exact (h.smaller j value hj hlt).false
  · exact (h.larger j value hj hge).false

theorem Cut.pairwise_insert (h : Cut lst value i i) (hsorted : lst.Pairwise (· < ·)) :
    (lst.take i ++ value :: lst.drop i).Pairwise (· < ·) := by
  have hsmaller : ∀ v ∈ lst.take i, v < value := by
    intro v hv
    obtain ⟨j, hj⟩ := mem_iff_getElem?.mp hv
    rw [getElem?_take] at hj
    split at hj
    · exact h.smaller j v hj ‹_›
    · cases hj
  have hlarger : ∀ v ∈ lst.drop i, value < v := by
    intro v hv
    obtain ⟨j, hj⟩ := mem_iff_getElem?.mp hv
    rw [getElem?_drop] at hj
    exact h.larger (i + j) v hj (Nat.le_add_right i j)
  refine pairwise_append.mpr ⟨hsorted.take, ?_, fun v hv w hw => ?_⟩
  · exact pairwise_cons.mpr ⟨hlarger, hsorted.drop⟩
  · rcases mem_cons.mp hw with rfl | hw
    · exact hsmaller v hv
    · exact (hsmaller v hv).trans (hlarger w hw)

/-- **`insert` keeps the list sorted**, and adds the value. -/
theorem insert_returns (hsorted : lst.Pairwise (· < ·)) (value : α) :
    ∃ lst', insert halving lst value = some lst' ∧ lst'.Pairwise (· < ·) ∧
      ∀ v, v ∈ lst' ↔ v ∈ lst ∨ v = value := by
  unfold insert
  cases hlast : lst.getLast? with
  | none =>
    cases getLast?_eq_none_iff.mp hlast
    exact ⟨[value], rfl, pairwise_singleton _ _, by simp⟩
  | some last =>
    dsimp only
    split
    · rename_i hvalue
      refine ⟨_, rfl, pairwise_append.mpr ⟨hsorted, pairwise_singleton _ _, ?_⟩, by simp⟩
      intro v hv w hw
      rw [mem_singleton.mp hw]
      obtain ⟨j, hj⟩ := mem_iff_getElem?.mp hv
      have hend := List.getLast?_eq_getElem? ▸ hlast
      have hbound := (List.getElem?_eq_some_iff.mp hj).1
      exact (getElem?_le hsorted hj hend (by omega)).trans_lt hvalue
    · obtain ⟨⟨i, present⟩, hindex, hlocates⟩ := indexOf_locates halving hsorted value
      rw [hindex]
      cases present with
      | true =>
        have hmem := mem_iff_getElem?.mpr ⟨i, hlocates⟩
        exact ⟨lst, rfl, hsorted, fun v => ⟨.inl, fun h => h.elim id fun heq => heq ▸ hmem⟩⟩
      | false =>
        refine ⟨_, rfl, hlocates.2.pairwise_insert hsorted, fun v => ?_⟩
        have hparts : v ∈ lst ↔ v ∈ lst.take i ∨ v ∈ lst.drop i := by
          rw [← mem_append, take_append_drop]
        simp only [Bool.false_eq_true, if_false, mem_append, mem_cons, hparts]
        tauto

theorem insert_all_returns (hsorted : lst.Pairwise (· < ·)) (values : List α) :
    ∃ lst', values.foldlM (insert halving) lst = some lst' ∧ lst'.Pairwise (· < ·) ∧
      ∀ v, v ∈ lst' ↔ v ∈ lst ∨ v ∈ values := by
  induction values generalizing lst with
  | nil => exact ⟨lst, rfl, hsorted, by simp⟩
  | cons value _ ih =>
    obtain ⟨_, hinsert, hsorted₁, hmem₁⟩ := insert_returns halving hsorted value
    obtain ⟨lst', hrest, hsorted', hmem'⟩ := ih hsorted₁
    refine ⟨lst', ?_, hsorted', fun v => ?_⟩
    · rw [foldlM_cons, hinsert]
      exact hrest
    · rw [hmem', hmem₁, mem_cons, or_assoc]

/-- **The list is a sorted set**: it has the values that were inserted, in order, and the search
finds a value, or the place where it belongs. -/
theorem sorted_set (halving : Halving) :
    (∀ values : List α, ∃ lst, values.foldlM (insert halving) [] = some lst ∧
      lst.Pairwise (· < ·) ∧ ∀ v, v ∈ lst ↔ v ∈ values) ∧
    ∀ lst : List α, lst.Pairwise (· < ·) → ∀ value,
      (value ∈ lst → ∃ i, indexOf halving lst value = some (i, true) ∧ lst[i]? = some value) ∧
      (value ∉ lst → ∃ i, indexOf halving lst value = some (i, false) ∧ i ≤ lst.length ∧
        ∀ j v, lst[j]? = some v → (j < i → v < value) ∧ (i ≤ j → value < v)) := by
  refine ⟨fun values => ?_, fun lst hsorted value => ?_⟩
  · obtain ⟨lst, hrun, hsorted, hmem⟩ := insert_all_returns halving .nil values
    exact ⟨lst, hrun, hsorted, fun v => by simp [hmem]⟩
  · obtain ⟨⟨i, present⟩, hindex, hlocates⟩ := indexOf_locates halving hsorted value
    cases present with
    | true =>
      have hmem := mem_iff_getElem?.mpr ⟨i, hlocates⟩
      exact ⟨fun _ => ⟨i, hindex, hlocates⟩, fun hnot => absurd hmem hnot⟩
    | false =>
      refine ⟨fun hmem => absurd hmem hlocates.2.not_mem, fun _ => ⟨i, hindex, hlocates.1, ?_⟩⟩
      exact fun j v hv => ⟨hlocates.2.smaller j v hv, hlocates.2.larger j v hv⟩

/-- Two is not in the list, and belongs between one and three. -/
theorem sorted_set_two : ∃ i, indexOf ⟨(· / 2), fun _ h => Nat.div_lt_self h (by decide)⟩ [1, 3] 2 =
    some (i, false) ∧ i = 1 := by
  obtain ⟨i, hindex, -, hcut⟩ := ((sorted_set _).2 [1, 3] (by decide) 2).2 (by decide)
  have hlow := (hcut 1 3 rfl).1
  have hhigh := (hcut 0 1 rfl).2
  refine ⟨i, hindex, ?_⟩
  by_contra hne
  rcases Nat.lt_or_gt_of_ne hne with _ | _
  · exact absurd (hhigh (by omega)) (by decide)
  · exact absurd (hlow (by omega)) (by decide)

end ListBasedOrderedSet

end Testbed.Anna
