import Mathlib.Data.Finset.Card
import Mathlib.Tactic.Common

/-! # Maps of sets

A map from keys to sets of values is a relation between keys and values, `Links`; a key that
has no entry is linked to nothing.  The lemmas say which pairs each operation adds and which
it takes away.
-/
namespace Testbed.Lib

open Std List

/-- A loop each step of which can only add. -/
theorem foldl_adds_iff {σ α : Type} {f : σ → α → σ} {P : σ → Prop} {A : α → Prop}
    (hstep : ∀ s a, P (f s a) ↔ A a ∨ P s) {l : List α} {s : σ} :
    P (l.foldl f s) ↔ (∃ a ∈ l, A a) ∨ P s := by
  induction l generalizing s with
  | nil => simp
  | cons _ _ ih =>
    rw [foldl_cons, ih, hstep]
    simp only [mem_cons, exists_eq_or_imp, or_assoc, or_left_comm]

/-- A loop each step of which can only take away. -/
theorem foldl_drops_iff {σ α : Type} {f : σ → α → σ} {P : σ → Prop} {A : α → Prop}
    (hstep : ∀ s a, P (f s a) ↔ A a ∧ P s) {l : List α} {s : σ} :
    P (l.foldl f s) ↔ (∀ a ∈ l, A a) ∧ P s := by
  induction l generalizing s with
  | nil => simp
  | cons _ _ ih => rw [foldl_cons, ih, hstep, forall_mem_cons, and_assoc, and_left_comm]

variable {T : Type} [Ord T] [TransOrd T] [LawfulEqOrd T] {x : T} {l : List T} {set : ExtTreeSet T}

theorem nodup_toList (set : ExtTreeSet T) : set.toList.Nodup :=
  ExtTreeSet.distinct_toList.imp fun hne => mt Std.compare_eq_iff_eq.mpr hne

theorem size_eq_card [DecidableEq T] {f : Finset T} (h : ∀ x, x ∈ set ↔ x ∈ f) :
    set.size = f.card := by
  have hset : set.toList.toFinset = f := by
    ext x
    rw [mem_toFinset, ExtTreeSet.mem_toList, h]
  rw [← ExtTreeSet.length_toList, ← toFinset_card_of_nodup (nodup_toList set), hset]

theorem mem_insertAll : x ∈ l.foldl ExtTreeSet.insert set ↔ x ∈ set ∨ x ∈ l := by
  refine (foldl_adds_iff (P := fun s => x ∈ s) fun _ a => ExtTreeSet.mem_insert (k := a)).trans ?_
  simp [or_comm]

theorem mem_eraseAll : x ∈ l.foldl ExtTreeSet.erase set ↔ x ∈ set ∧ x ∉ l := by
  refine (foldl_drops_iff (P := fun s => x ∈ s) fun _ a => ExtTreeSet.mem_erase (k := a)).trans ?_
  rw [and_comm]
  simp [forall_mem_ne']

variable {K V : Type} [Ord K] [TransOrd K] [Ord V] [TransOrd V]
  {m : ExtTreeMap K (ExtTreeSet V)} {k k' : K} {v v' : V}

/-- The map links the key to the value. -/
def Links (m : ExtTreeMap K (ExtTreeSet V)) (k : K) (v : V) : Prop := v ∈ m.getD k ∅

theorem not_links_empty : ¬ Links (∅ : ExtTreeMap K (ExtTreeSet V)) k v := by
  unfold Links
  exact ExtTreeSet.not_mem_empty

variable {values : ExtTreeSet V}

theorem links_insert_self : Links (m.insert k values) k v ↔ v ∈ values := by
  unfold Links
  rw [ExtTreeMap.getD_insert_self]

variable [LawfulEqOrd K]

theorem links_insert_of_ne (h : k ≠ k') : Links (m.insert k values) k' v ↔ Links m k' v := by
  unfold Links
  rw [ExtTreeMap.getD_insert, if_neg (fun heq => h (Std.compare_eq_iff_eq.mp heq))]

theorem links_erase : Links (m.erase k) k' v ↔ k ≠ k' ∧ Links m k' v := by
  unfold Links
  rw [ExtTreeMap.getD_erase]
  by_cases h : k = k'
  · rw [if_pos (Std.compare_eq_iff_eq.mpr h)]
    exact iff_of_false ExtTreeSet.not_mem_empty fun hne => hne.1 h
  · rw [if_neg (fun heq => h (Std.compare_eq_iff_eq.mp heq)), and_iff_right h]

variable [LawfulEqOrd V]

/-- Take the value out of all sets. -/
def dropValue (m : ExtTreeMap K (ExtTreeSet V)) (v : V) : ExtTreeMap K (ExtTreeSet V) :=
  m.map fun _ values => values.erase v

theorem links_dropValue : Links (dropValue m v) k v' ↔ v ≠ v' ∧ Links m k v' := by
  unfold Links dropValue
  rw [ExtTreeMap.getD_map, ExtTreeMap.getD_eq_getD_getElem?]
  cases m[k]? with
  | none => exact iff_of_false ExtTreeSet.not_mem_empty fun h => ExtTreeSet.not_mem_empty h.2
  | some =>
    rw [Option.map_some, Option.getD_some, Option.getD_some, ExtTreeSet.mem_erase, ne_eq,
      Std.compare_eq_iff_eq]

/-- Put the value into the set of the key. -/
def link (m : ExtTreeMap K (ExtTreeSet V)) (k : K) (v : V) : ExtTreeMap K (ExtTreeSet V) :=
  m.insert k ((m.getD k ∅).insert v)

theorem links_link : Links (link m k v) k' v' ↔ k = k' ∧ v = v' ∨ Links m k' v' := by
  unfold link
  by_cases h : k = k'
  · subst h
    rw [links_insert_self, ExtTreeSet.mem_insert, Std.compare_eq_iff_eq, and_iff_right rfl]
    rfl
  · rw [links_insert_of_ne h]
    exact (or_iff_right fun heq => h heq.1).symm

/-- Take the value out of the set of the key. -/
def unlink (m : ExtTreeMap K (ExtTreeSet V)) (k : K) (v : V) : ExtTreeMap K (ExtTreeSet V) :=
  m.insert k ((m.getD k ∅).erase v)

theorem links_unlink : Links (unlink m k v) k' v' ↔ ¬ (k = k' ∧ v = v') ∧ Links m k' v' := by
  unfold unlink
  by_cases h : k = k'
  · subst h
    rw [links_insert_self, ExtTreeSet.mem_erase, ne_eq, Std.compare_eq_iff_eq, and_iff_right rfl]
    rfl
  · rw [links_insert_of_ne h]
    exact (and_iff_right fun heq => h heq.1).symm

theorem links_foldl_link (keys : List K) : Links (keys.foldl (fun m k => link m k v) m) k' v' ↔
      k' ∈ keys ∧ v = v' ∨ Links m k' v' := by
  refine (foldl_adds_iff (P := (Links · k' v')) fun _ k => links_link (k := k)).trans ?_
  simp

theorem links_foldl_unlink (keys : List K) : Links (keys.foldl (fun m k => unlink m k v) m) k' v' ↔
      ¬ (k' ∈ keys ∧ v = v') ∧ Links m k' v' := by
  refine (foldl_drops_iff (P := (Links · k' v')) fun _ k => links_unlink (k := k)).trans ?_
  grind

theorem links_foldl_link_values (values : List V) :
    Links (values.foldl (fun m v => link m k v) m) k' v' ↔
      k = k' ∧ v' ∈ values ∨ Links m k' v' := by
  refine (foldl_adds_iff (P := (Links · k' v')) fun _ v => links_link (v := v)).trans ?_
  simp [and_comm]

end Testbed.Lib
