import Mathlib.Data.Finset.Card
import Mathlib.Data.List.Nodup

/-! # Walks that look for new labels

A walk passes nodes that carry labels, and keeps a node when its label is new to it.
`firstVisits` lists what a whole walk keeps, in the order of the walk: one node for
every label that occurs (`length_firstVisits`).  A walk that stops after `n` nodes
keeps the first `n` of them.

When the nodes of some labels are taken off the circle, the others move up
(`mem_take_filter`), and when one label is added the first `n` stay or make room for it
(`take_eq_or_insertIdx_dropLast`).
-/
namespace Testbed.Lib

open List

section
variable {T L : Type} [DecidableEq L] (label : T → L)

/-- Pass a node. -/
def visit (met : List T) (pos : T) : List T :=
  if label pos ∈ met.map label then met else met ++ [pos]

/-- The nodes kept at the end of a walk that starts with `met`. -/
def firstVisits (met walk : List T) : List T := walk.foldl (visit label) met

variable {label} {met walk : List T}

theorem prefix_visit (met : List T) (pos : T) : met <+: visit label met pos := by
  unfold visit
  split
  · exact prefix_refl met
  · exact prefix_append met [pos]

theorem prefix_firstVisits (met walk : List T) : met <+: firstVisits label met walk := by
  induction walk generalizing met with
  | nil => exact prefix_refl met
  | cons pos _ ih => exact (prefix_visit met pos).trans (ih (visit label met pos))

variable {pos : T}

theorem nodup_visit (h : (met.map label).Nodup) : ((visit label met pos).map label).Nodup := by
  unfold visit
  split
  · exact h
  · rename_i hnew
    rw [map_append, map_singleton]
    exact nodup_append.mpr ⟨h, nodup_singleton _, by
      intro l hl _ hl' heq
      rw [mem_singleton.mp hl'] at heq
      exact hnew (heq ▸ hl)⟩

theorem nodup_firstVisits (h : (met.map label).Nodup) :
    ((firstVisits label met walk).map label).Nodup := by
  induction walk generalizing met with
  | nil => exact h
  | cons _ _ ih => exact ih (nodup_visit h)

/-- A loop that goes on until `n` nodes are kept, and fails if the walk has fewer. -/
theorem loop_eq {ε R : Type} {e : ε} {n : Nat} (loop : List T → List T → Except ε R)
    (out : List T → R)
    (hnil : ∀ met, (met.map label).Nodup →
      loop met [] = if met.length < n then .error e else .ok (out met))
    (hcons : ∀ met pos walk, (met.map label).Nodup → loop met (pos :: walk) =
      if met.length < n then loop (visit label met pos) walk else .ok (out met))
    (h : (met.map label).Nodup) (hle : met.length ≤ n) :
    loop met walk = if n ≤ (firstVisits label met walk).length then
      .ok (out ((firstVisits label met walk).take n)) else .error e := by
  induction walk generalizing met with
  | nil =>
    rw [hnil met h, firstVisits, foldl_nil]
    by_cases hlt : met.length < n
    · rw [if_pos hlt, if_neg (Nat.not_le.mpr hlt)]
    · rw [if_neg hlt, if_pos (Nat.not_lt.mp hlt), take_of_length_le hle]
  | cons pos walk ih =>
    rw [hcons met pos walk h]
    by_cases hlt : met.length < n
    · rw [if_pos hlt]
      refine ih (nodup_visit h) ?_
      unfold visit
      split
      · exact hle
      · rw [length_append, length_singleton]
        omega
    · -- enough are met already, and the rest of the walk adds behind them
      have hmet : met <+: firstVisits label met (pos :: walk) := prefix_firstVisits _ _
      have hlength : n = met.length := by omega
      rw [if_neg hlt, if_pos (hlength ▸ hmet.length_le), hlength, ← prefix_iff_eq_take.mp hmet]

theorem mem_map_visit {l : L} :
    l ∈ (visit label met pos).map label ↔ l ∈ met.map label ∨ l = label pos := by
  unfold visit
  split
  · rename_i hold
    exact ⟨Or.inl, fun h => h.elim (fun h => h) fun h => h ▸ hold⟩
  · rw [map_append, map_singleton, mem_append, mem_singleton]

theorem mem_map_firstVisits {l : L} :
    l ∈ (firstVisits label met walk).map label ↔ l ∈ met.map label ∨ l ∈ walk.map label := by
  induction walk generalizing met with
  | nil => exact (or_iff_left not_mem_nil).symm
  | cons _ _ ih =>
    rw [map_cons, mem_cons, ← or_assoc, ← mem_map_visit]
    exact ih

theorem length_firstVisits (walk : List T) :
    (firstVisits label [] walk).length = (walk.map label).toFinset.card := by
  have hnodup : ((firstVisits label [] walk).map label).Nodup := nodup_firstVisits nodup_nil
  rw [← length_map label, ← toFinset_card_of_nodup hnodup]
  refine congrArg Finset.card (Finset.ext fun l => ?_)
  rw [mem_toFinset, mem_toFinset, mem_map_firstVisits, map_nil]
  exact or_iff_right not_mem_nil

theorem firstVisits_eq_nil_iff {walk : List T} : firstVisits label [] walk = [] ↔ walk = [] := by
  rw [← length_eq_zero_iff, length_firstVisits, Finset.card_eq_zero,
    toFinset_eq_empty_iff, map_eq_nil_iff]

theorem mem_take_firstVisits (pos : T) (walk : List T) {n : Nat} (hn : 1 ≤ n) :
    pos ∈ (firstVisits label [] (pos :: walk)).take n := by
  obtain ⟨_, hrest⟩ : [pos] <+: firstVisits label [] (pos :: walk) := prefix_firstVisits [pos] walk
  obtain ⟨m, rfl⟩ : ∃ m, n = m + 1 := ⟨n - 1, by omega⟩
  rw [← hrest]
  exact mem_cons_self

/-! ## Taking labels off the circle -/

variable (p : L → Bool)

theorem filter_visit (met : List T) (pos : T) :
    (visit label met pos).filter (fun x => p (label x)) =
      if p (label pos) then visit label (met.filter fun x => p (label x)) pos
      else met.filter fun x => p (label x) := by
  have hmem : p (label pos) = true →
      (label pos ∈ (met.filter fun x => p (label x)).map label ↔ label pos ∈ met.map label) := by
    intro hp
    simp only [mem_map, mem_filter]
    exact ⟨fun ⟨x, ⟨hx, _⟩, heq⟩ => ⟨x, hx, heq⟩, fun ⟨x, hx, heq⟩ => ⟨x, ⟨hx, heq ▸ hp⟩, heq⟩⟩
  unfold visit
  by_cases hp : p (label pos) = true
  · rw [if_pos hp]
    by_cases hold : label pos ∈ met.map label
    · rw [if_pos hold, if_pos ((hmem hp).mpr hold)]
    · rw [if_neg hold, if_neg (mt (hmem hp).mp hold), filter_append]
      simp [hp]
  · rw [if_neg hp]
    by_cases hold : label pos ∈ met.map label
    · rw [if_pos hold]
    · rw [if_neg hold, filter_append]
      simp [hp]

theorem filter_firstVisits (met walk : List T) :
    (firstVisits label met walk).filter (fun x => p (label x)) =
      firstVisits label (met.filter fun x => p (label x)) (walk.filter fun x => p (label x)) := by
  induction walk generalizing met with
  | nil => rfl
  | cons pos _ ih =>
    refine (ih (visit label met pos)).trans ?_
    rw [filter_visit]
    by_cases hp : p (label pos) = true
    · rw [if_pos hp, filter_cons_of_pos (p := fun x => p (label x)) hp]
      rfl
    · rw [if_neg hp, filter_cons_of_neg (p := fun x => p (label x)) hp]

end

theorem mem_take_filter {α : Type} {l : List α} {n : Nat} {x : α} {p : α → Bool}
    (h : x ∈ l.take n) (hp : p x = true) : x ∈ (l.filter p).take n := by
  have hprefix : (l.take n).filter p <+: (l.filter p).take n := by
    refine prefix_take_iff.mpr ⟨.filter p ( take_prefix n l), ?_⟩
    exact (length_filter_le p _).trans (length_take_le n l)
  exact hprefix.subset (mem_filter.mpr ⟨h, hp⟩)

/-! ## Where labels first occur -/

section
variable {T L : Type} [DecidableEq L]

/-- The list has the nodes at which labels first occur on the walk, in the order of
the walk, and leaves none out before its end. -/
structure FirstOccurrences (label : T → L) (walk l : List T) : Prop where
  first : ∀ n ∈ l, walk[(walk.map label).idxOf (label n)]? = some n
  ordered : l.Pairwise fun m n =>
    (walk.map label).idxOf (label m) < (walk.map label).idxOf (label n)
  closed : ∀ n ∈ l, ∀ m ∈ walk,
    (walk.map label).idxOf (label m) < (walk.map label).idxOf (label n) → label m ∈ l.map label

variable {label : T → L} {walk l : List T}

theorem FirstOccurrences.take (h : FirstOccurrences label walk l) (n : Nat) :
    FirstOccurrences label walk (l.take n) := by
  refine ⟨fun m hm => h.first m (mem_of_mem_take hm), ?_, ?_⟩
  · exact h.ordered.sublist (take_sublist n l)
  · intro m hm p hp hlt
    obtain ⟨p', hp', hlabel⟩ := mem_map.mp (h.closed m (mem_of_mem_take hm) p hp hlt)
    rw [← take_append_drop n l] at hp'
    rcases mem_append.mp hp' with hp' | hp'
    · exact mem_map.mpr ⟨p', hp', hlabel⟩
    · -- behind the cut the labels occur later
      have hordered := h.ordered
      rw [← take_append_drop n l] at hordered
      have hlate := (pairwise_append.mp hordered).2.2 m hm p' hp'
      rw [hlabel] at hlate
      exact absurd hlt (Nat.lt_asymm hlate)

theorem idxOf_map_append {m : T} (hm : label m ∈ walk.map label) (pos : T) :
    ((walk ++ [pos]).map label).idxOf (label m) = (walk.map label).idxOf (label m) := by
  rw [map_append, idxOf_append_of_mem hm]

theorem idxOf_map_append_self (hnew : label pos ∉ walk.map label) :
    ((walk ++ [pos]).map label).idxOf (label pos) = walk.length := by
  rw [map_append, idxOf_append_of_notMem hnew, map_singleton, idxOf_cons_self,
    length_map, Nat.add_zero]

theorem FirstOccurrences.visit (h : FirstOccurrences label walk l)
    (hall : ∀ m, m ∈ l.map label ↔ m ∈ walk.map label) (pos : T) :
    FirstOccurrences label (walk ++ [pos]) (visit label l pos) := by
  have hold : ∀ n ∈ l, label n ∈ walk.map label := fun n hn =>
    (hall _).mp (mem_map_of_mem hn)
  have hbefore : ∀ n ∈ l, (walk.map label).idxOf (label n) < walk.length := fun n hn => by
    simpa using idxOf_lt_length_of_mem (hold n hn)
  have hfirst : ∀ n ∈ l,
      (walk ++ [pos])[((walk ++ [pos]).map label).idxOf (label n)]? = some n := fun n hn => by
    rw [idxOf_map_append (hold n hn), getElem?_append_left (hbefore n hn), h.first n hn]
  have hordered : l.Pairwise fun m n => ((walk ++ [pos]).map label).idxOf (label m) <
      ((walk ++ [pos]).map label).idxOf (label n) := by
    refine h.ordered.imp_of_mem fun hm hn hlt => ?_
    rwa [idxOf_map_append (hold _ hm), idxOf_map_append (hold _ hn)]
  unfold Lib.visit
  by_cases hpos : label pos ∈ l.map label
  · rw [if_pos hpos]
    refine ⟨hfirst, hordered, fun n hn m hm _ => ?_⟩
    rcases mem_append.mp hm with hm | hm
    · exact (hall _).mpr (mem_map_of_mem hm)
    · rwa [mem_singleton.mp hm]
  · have hself := idxOf_map_append_self (mt (hall _).mpr hpos)
    rw [if_neg hpos]
    refine ⟨?_, ?_, ?_⟩
    · intro n hn
      rcases mem_append.mp hn with hn | hn
      · exact hfirst n hn
      · rw [mem_singleton.mp hn, hself, getElem?_append_right (Nat.le_refl _), Nat.sub_self]
        rfl
    · refine pairwise_append.mpr ⟨hordered, pairwise_singleton _ _, ?_⟩
      intro m hm n hn
      rw [mem_singleton.mp hn, hself, idxOf_map_append (hold m hm)]
      exact hbefore m hm
    · intro n _ m hm _
      rw [map_append, mem_append]
      rcases mem_append.mp hm with hm | hm
      · exact .inl ((hall _).mpr (mem_map_of_mem hm))
      · rw [mem_singleton.mp hm]
        exact .inr mem_cons_self

/-- **A walk keeps the nodes at which labels first occur.** -/
theorem firstOccurrences_firstVisits (walk : List T) :
    FirstOccurrences label walk (firstVisits label [] walk) := by
  induction walk using List.reverseRecOn with
  | nil => exact ⟨by simp [firstVisits], List.Pairwise.nil, by simp [firstVisits]⟩
  | append_singleton _ pos ih =>
    rw [firstVisits, foldl_append]
    refine ih.visit (fun m => ?_) pos
    rw [mem_map_firstVisits, map_nil]
    exact or_iff_right not_mem_nil

/-! ## One more label -/

/-- When one node is put into a list, the first `n` stay, or the node gets a place
among them and the last one goes. -/
theorem take_eq_or_insertIdx_dropLast {p : T → Bool} (hone : (l.filter fun x => !p x).length ≤ 1)
    {n : Nat} (hn : n ≤ (l.filter p).length) :
    l.take n = (l.filter p).take n ∨ ∃ i < n, ∃ x, p x = false ∧ x ∈ l ∧
        l.take n = (((l.filter p).take n).insertIdx i x).dropLast := by
  induction l generalizing n with
  | nil => exact .inl rfl
  | cons y l ih =>
    cases n with
    | zero => exact .inl rfl
    | succ n =>
      by_cases hy : p y = true
      · rw [filter_cons_of_neg (by simp [hy])] at hone
        rw [filter_cons_of_pos hy, length_cons] at hn
        rw [filter_cons_of_pos hy, take_succ_cons, take_succ_cons]
        rcases ih hone (Nat.le_of_succ_le_succ hn) with heq | ⟨i, hi, x, hx, hmem, heq⟩
        · exact .inl (congrArg (y :: ·) heq)
        · refine .inr ⟨i + 1, Nat.succ_lt_succ hi, x, hx, mem_cons_of_mem y hmem, ?_⟩
          have hle : i ≤ ((l.filter p).take n).length := by
            rw [length_take_of_le (Nat.le_of_succ_le_succ hn)]
            exact Nat.le_of_lt hi
          have hne : ((l.filter p).take n).insertIdx i x ≠ [] :=
            ne_nil_of_mem ((mem_insertIdx hle).mpr (.inl rfl))
          rw [heq, insertIdx_succ_cons, dropLast_cons_of_ne_nil hne]
      · -- the new node: behind it the lists are the same
        have hrest : l.filter p = l := by
          rw [filter_cons_of_pos (by simpa using hy), length_cons] at hone
          refine filter_eq_self.mpr fun x hx => ?_
          by_contra hpx
          have hmem : x ∈ l.filter fun x => !p x := mem_filter.mpr ⟨hx, by simpa using hpx⟩
          have hpos := length_pos_of_mem hmem
          omega
        rw [filter_cons_of_neg hy, hrest] at hn ⊢
        refine .inr ⟨0, Nat.succ_pos n, y, by simpa using hy, mem_cons_self, ?_⟩
        have hne : l.take (n + 1) ≠ [] := by
          intro hnil
          have hlen := congrArg List.length hnil
          rw [length_take_of_le hn] at hlen
          cases hlen
        rw [insertIdx_zero, take_succ_cons, dropLast_cons_of_ne_nil hne,
          dropLast_eq_take, length_take_of_le hn, take_take, Nat.add_sub_cancel,
          Nat.min_eq_left (Nat.le_succ n)]

end

end Testbed.Lib
