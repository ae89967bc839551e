import Mathlib.Tactic.Common

/-! # Sweeps of a map

A sweep looks at all entries of a map, collects something from those that are due, and
erases them.  `getElem?_sweep` says what is left of the map, and
`countP_flatMap_of_only` counts what was collected from one of the entries.
-/
namespace Testbed.Lib

open Std List ExtTreeMap

variable {K V X : Type} [Ord K] [TransOrd K] [LawfulEqOrd K] {l : List (K × V)} {m : ExtTreeMap K V}
  {k : K}

theorem getElem?_eraseAll [DecidableEq K] {keys : List K} :
    (keys.foldl erase m)[k]? = if k ∈ keys then none else m[k]? := by
  induction keys generalizing m with
  | nil => rfl
  | cons a _ ih =>
    rw [foldl_cons, ih, getElem?_erase]
    by_cases ha : a = k
    · simp [ha]
    · simp [ha, Ne.symm ha]

/-- **A sweep** erases what is due, and keeps the rest. -/
theorem getElem?_sweep [DecidableEq K] (due : K × V → Bool) (k : K) :
    ((m.toList.filter due).foldl (fun m pair => m.erase pair.1) m)[k]? =
      m[k]?.filter fun v => !due (k, v) := by
  have hswept {v : V} (hget : m[k]? = some v) :
      k ∈ (m.toList.filter due).map Prod.fst ↔ due (k, v) = true := by
    rw [mem_map]
    constructor
    · rintro ⟨⟨_, v'⟩, hpair, rfl⟩
      obtain ⟨hmem, hdue⟩ := mem_filter.mp hpair
      rw [mem_toList_iff_getElem?_eq_some.mp hmem] at hget
      cases hget
      exact hdue
    · intro hdue
      exact ⟨(k, v), mem_filter.mpr ⟨mem_toList_iff_getElem?_eq_some.mpr hget, hdue⟩, rfl⟩
  rw [← foldl_map (f := Prod.fst) (g := erase), getElem?_eraseAll]
  cases hget : m[k]? with
  | none => exact ite_self _
  | some v =>
    rw [Option.filter_some]
    by_cases hdue : due (k, v) = true
    · rw [if_pos ((hswept hget).mpr hdue), hdue]
      rfl
    · rw [if_neg (mt (hswept hget).mp hdue), Bool.eq_false_iff.mpr hdue]
      rfl

theorem pairwise_toList (m : ExtTreeMap K V) : m.toList.Pairwise fun a b => a.1 ≠ b.1 :=
  distinct_keys_toList.imp fun h heq => h (Std.compare_eq_iff_eq.mpr heq)

omit [Ord K] [TransOrd K] [LawfulEqOrd K] in
theorem countP_flatMap_of_only (hdistinct : l.Pairwise fun a b => a.1 ≠ b.1) {g : K × V → List X}
    {P : X → Bool} {v : V} (hmem : (k, v) ∈ l)
    (honly : ∀ pair ∈ l, pair.1 ≠ k → ∀ x ∈ g pair, ¬ P x = true) :
    (l.flatMap g).countP P = (g (k, v)).countP P := by
  induction l with
  | nil => cases hmem
  | cons pair l ih =>
    obtain ⟨hfirst, hrest⟩ := pairwise_cons.mp hdistinct
    rw [flatMap_cons, countP_append]
    rcases mem_cons.mp hmem with rfl | hmem
    · have hzero : (l.flatMap g).countP P = 0 := by
        refine countP_eq_zero.mpr fun x hx => ?_
        obtain ⟨pair, hpair, hx⟩ := mem_flatMap.mp hx
        exact honly pair (mem_cons_of_mem _ hpair) (hfirst pair hpair).symm x hx
      rw [hzero, Nat.add_zero]
    · have hzero := countP_eq_zero.mpr (honly pair mem_cons_self (hfirst (k, v) hmem))
      rw [hzero, Nat.zero_add]
      exact ih hrest hmem fun pair' hpair' => honly pair' (mem_cons_of_mem pair hpair')

omit [Ord K] [TransOrd K] [LawfulEqOrd K] in
theorem countP_eq_one_of_only (hdistinct : l.Pairwise fun a b => a.1 ≠ b.1) {P : K × V → Bool}
    {v : V} (hmem : (k, v) ∈ l) (hP : P (k, v) = true)
    (honly : ∀ pair ∈ l, pair.1 ≠ k → ¬ P pair = true) : l.countP P = 1 := by
  have hcount : (l.flatMap fun pair => [pair]).countP P = [(k, v)].countP P := by
    refine countP_flatMap_of_only hdistinct hmem fun pair hpair hne x hx => ?_
    rw [mem_singleton.mp hx]
    exact honly pair hpair hne
  rwa [flatMap_singleton', countP_singleton, if_pos hP] at hcount

end Testbed.Lib
