import Mathlib.Data.Set.Insert
import Mathlib.Tactic.Common

/-! # Maps of hashed slots

A `SlotMap` keeps nodes in the slots that a hash assigns them: the first node of a
slot stays, a later one is dropped, and a node is erased by its slot.  The slots
are arranged in a circle: `find` looks for the first node at or after a slot, and
`turn` lists the nodes in the order in which a walk from there meets them.

Nodes come in groups, the members, whose nodes are added and erased together.
`Placed` says what such a map is for: every member owns the slots of its
footprint.  It determines the owners (`Placed.unique`), and both operations keep
it as long as footprints are disjoint (`Placed.claim`, `Placed.release`).
-/
namespace Testbed.Lib

open Std List

/-! ## Ownership of slots -/

section
variable {R L : Type} {foot : L → Set R} {M : Set L} {owner owner' : R → Option L}

/-- The members own exactly their footprints. -/
def Placed (foot : L → Set R) (M : Set L) (owner : R → Option L) : Prop :=
  ∀ x g, owner x = some g ↔ g ∈ M ∧ x ∈ foot g

theorem Placed.unique (h : Placed foot M owner) (h' : Placed foot M owner') (x : R) :
    owner x = owner' x :=
  Option.ext fun g => (h x g).trans (h' x g).symm

/-- A new member takes the free slots of its footprint; when no other member's
footprint meets it, these are all of them. -/
theorem Placed.claim {s : L} (h : Placed foot M owner) (hdisj : ∀ g ∈ M, ∀ x ∈ foot g, x ∉ foot s)
    (howner : ∀ x g, owner' x = some g ↔ owner x = some g ∨ owner x = none ∧ g = s ∧ x ∈ foot s) :
    Placed foot (insert s M) owner' := by
  intro x g
  rw [howner, h, Set.mem_insert_iff]
  constructor
  · rintro (⟨hg, hx⟩ | ⟨-, rfl, hx⟩)
    · exact ⟨Or.inr hg, hx⟩
    · exact ⟨Or.inl rfl, hx⟩
  · rintro ⟨rfl | hg, hx⟩
    · cases hfree : owner x with
      | none => exact Or.inr ⟨rfl, rfl, hx⟩
      | some g' =>
        obtain ⟨hg', hx'⟩ := (h x g').mp hfree
        exact absurd hx (hdisj g' hg' _ hx')
    · exact Or.inl ⟨hg, hx⟩

/-- A leaving member's footprint is emptied; when no other member's footprint
meets it, the others keep all they own. -/
theorem Placed.release {s : L} (h : Placed foot M owner)
    (hdisj : ∀ g ∈ M, g ≠ s → ∀ x ∈ foot g, x ∉ foot s)
    (howner : ∀ x g, owner' x = some g ↔ owner x = some g ∧ x ∉ foot s) :
    Placed foot (M \ {s}) owner' := by
  intro x g
  rw [howner, h, Set.mem_sdiff, Set.mem_singleton_iff]
  constructor
  · rintro ⟨⟨hg, hx⟩, hs⟩
    exact ⟨⟨hg, by rintro rfl; exact hs hx⟩, hx⟩
  · rintro ⟨⟨hg, hne⟩, hx⟩
    exact ⟨⟨hg, hx⟩, hdisj g hg hne x hx⟩

end

/-! ## Sorted lists

In a list where a test holds up to some point, `takeWhile` and `dropWhile` filter. -/

theorem span_eq_filter {α : Type} {q : α → Bool} {l : List α}
    (h : l.Pairwise fun a b => q b = true → q a = true) :
    l.takeWhile q = l.filter q ∧ l.dropWhile q = l.filter fun a => !q a := by
  induction l with
  | nil => exact ⟨rfl, rfl⟩
  | cons a l ih =>
    obtain ⟨hfirst, hrest⟩ := pairwise_cons.mp h
    obtain ⟨htake, hdrop⟩ := ih hrest
    by_cases ha : q a = true
    · rw [takeWhile_cons_of_pos ha, filter_cons_of_pos ha, htake,
        dropWhile_cons_of_pos ha, filter_cons_of_neg (by simp [ha]), hdrop]
      exact ⟨rfl, rfl⟩
    · have hnone : ∀ b ∈ a :: l, ¬ q b = true :=
        forall_mem_cons.mpr ⟨ha, fun b hb hq => ha (hfirst b hb hq)⟩
      rw [takeWhile_cons_of_neg ha, filter_eq_nil_iff.mpr hnone, dropWhile_cons_of_neg ha]
      refine ⟨rfl, (filter_eq_self.mpr fun b hb => ?_).symm⟩
      simpa using hnone b hb

/-! ## The map -/

/-- Nodes by slot, each in the slot of its hash. -/
@[ext] structure SlotMap {R T : Type} [Ord R] [TransOrd R] [LawfulEqOrd R] (slot : T → R) where
  nodes : ExtTreeMap R T
  placed : ∀ {x n}, nodes[x]? = some n → slot n = x

namespace SlotMap
variable {R T : Type} [Ord R] [TransOrd R] [LawfulEqOrd R] {slot : T → R}

instance : Inhabited (SlotMap slot) := ⟨⟨∅, fun h => by simp at h⟩⟩

@[simp] theorem nodes_default : (default : SlotMap slot).nodes = ∅ := rfl

variable (m : SlotMap slot)

/-- The node gets its slot unless another node holds it. -/
def insert (node : T) : SlotMap slot where
  nodes := m.nodes.insertIfNew (slot node) node
  placed {x n} h := by
    rw [ExtTreeMap.getElem?_insertIfNew] at h
    split at h
    · rename_i hx
      rw [Std.compare_eq_iff_eq] at hx
      rw [← Option.some.inj h, hx.1]
    · exact m.placed h

/-- Whatever node holds the slot of `node` goes. -/
def erase (m : SlotMap slot) (node : T) : SlotMap slot where
  nodes := m.nodes.erase (slot node)
  placed {x n} h := by
    rw [ExtTreeMap.getElem?_erase] at h
    split at h
    · exact absurd h (by simp)
    · exact m.placed h

/-- The entries from the first slot that is not before `x` to the last. -/
def lowerBound (x : R) : List (R × T) :=
  m.nodes.toList.dropWhile (fun p => compare p.1 x == .lt)

/-- The node at or after `x`, or the first node when there is none. -/
def find (x : R) : Option T :=
  match m.lowerBound x with
  | p :: _ => some p.2
  | [] => m.nodes.toList.head?.map Prod.snd

/-- All nodes, in the order in which a walk once around the circle meets them. -/
def turn (x : R) : List T :=
  (m.lowerBound x ++ m.nodes.toList.takeWhile (fun p => compare p.1 x == .lt)).map Prod.snd

variable {m : SlotMap slot}

theorem size_foldl_insert {l : List T} (hslots : (l.map slot).Nodup)
    (hfree : ∀ n ∈ l, slot n ∉ m.nodes) :
    (l.foldl insert m).nodes.size = m.nodes.size + l.length := by
  induction l generalizing m with
  | nil => rfl
  | cons n l ih =>
    obtain ⟨hfirst, hrest⟩ := nodup_cons.mp hslots
    have hinsert : (m.insert n).nodes.size = m.nodes.size + 1 := by
      rw [insert, ExtTreeMap.size_insertIfNew, if_neg (hfree n mem_cons_self)]
    rw [foldl_cons, ih hrest, hinsert, length_cons, Nat.add_assoc, Nat.add_comm 1]
    intro n' hn'
    rw [insert, ExtTreeMap.mem_insertIfNew, Std.compare_eq_iff_eq, not_or]
    refine ⟨fun heq => hfirst ?_, hfree n' (mem_cons_of_mem n hn')⟩
    rw [heq]
    exact mem_map_of_mem hn'

theorem find_eq_head?_turn (m : SlotMap slot) (x : R) : m.find x = (m.turn x).head? := by
  have hsplit := takeWhile_append_dropWhile (p := fun p => compare p.1 x == .lt)
    (l := m.nodes.toList)
  unfold find turn
  change _ ++ m.lowerBound x = _ at hsplit
  cases hlow : m.lowerBound x with
  | nil =>
    rw [hlow, append_nil] at hsplit
    simp [hsplit]
  | cons p rest => simp

theorem mem_turn {x : R} {n : T} : n ∈ m.turn x ↔ m.nodes[slot n]? = some n := by
  have hperm : (m.lowerBound x ++
      m.nodes.toList.takeWhile (fun p => compare p.1 x == .lt)).Perm m.nodes.toList :=
    perm_append_comm.trans (.of_eq takeWhile_append_dropWhile)
  unfold turn
  rw [(hperm.map Prod.snd).mem_iff, mem_map]
  constructor
  · rintro ⟨⟨y, n'⟩, hmem, rfl⟩
    have hy := ExtTreeMap.mem_toList_iff_getElem?_eq_some.mp hmem
    rw [m.placed hy, hy]
  · intro h
    exact ⟨(slot n, n), ExtTreeMap.mem_toList_iff_getElem?_eq_some.mpr h, rfl⟩

theorem turn_insert_default (node : T) (x : R) :
    ((default : SlotMap slot).insert node).turn x = [node] := by
  have hlist : ((default : SlotMap slot).insert node).nodes.toList = [(slot node, node)] := by
    change ((∅ : ExtTreeMap R T).insertIfNew (slot node) node).toList = _
    have hlen : ((∅ : ExtTreeMap R T).insertIfNew (slot node) node).toList.length = 1 := by
      rw [ExtTreeMap.length_toList, ExtTreeMap.size_insertIfNew]
      simp
    have hmem : (slot node, node) ∈ ((∅ : ExtTreeMap R T).insertIfNew (slot node) node).toList :=
      ExtTreeMap.mem_toList_iff_getElem?_eq_some.mpr
        (by rw [ExtTreeMap.getElem?_insertIfNew, if_pos (by simp)])
    obtain ⟨p, hp⟩ := length_eq_one_iff.mp hlen
    rw [hp] at hmem ⊢
    rw [mem_singleton.mp hmem]
  rw [turn, lowerBound, hlist]
  by_cases hx : compare (slot node) x == .lt <;> simp [hx]

/-! ### Many nodes at once -/

section
variable [DecidableEq R]

theorem getElem?_insert (m : SlotMap slot) (node : T) (x : R) :
    (m.insert node).nodes[x]? = m.nodes[x]?.or (if slot node = x then some node else none) := by
  change (m.nodes.insertIfNew (slot node) node)[x]? = _
  simp only [ExtTreeMap.getElem?_insertIfNew, Std.compare_eq_iff_eq]
  by_cases hx : slot node = x
  · subst hx
    by_cases hmem : slot node ∈ m.nodes <;> simp [hmem]
  · simp [hx]

theorem getElem?_erase (m : SlotMap slot) (node : T) (x : R) :
    (m.erase node).nodes[x]? = if slot node = x then none else m.nodes[x]? := by
  change (m.nodes.erase (slot node))[x]? = _
  simp only [ExtTreeMap.getElem?_erase, Std.compare_eq_iff_eq]

theorem getElem?_foldl_insert (l : List T) (m : SlotMap slot) (x : R) :
    (l.foldl insert m).nodes[x]? = m.nodes[x]?.or (l.find? fun n => slot n = x) := by
  induction l generalizing m with
  | nil => simp
  | cons n l ih =>
    rw [foldl_cons, ih, getElem?_insert, Option.or_assoc]
    by_cases hn : slot n = x <;> simp [hn]

theorem getElem?_foldl_erase (l : List T) (m : SlotMap slot) (x : R) :
    (l.foldl erase m).nodes[x]? = if ∃ n ∈ l, slot n = x then none else m.nodes[x]? := by
  induction l generalizing m with
  | nil => simp
  | cons n l ih =>
    rw [foldl_cons, ih, getElem?_erase]
    by_cases hn : slot n = x <;> simp [hn]

end

/-! ### Maps that agree up to a label of their nodes -/

section
variable {L : Type} {label : T → L} {m m' : SlotMap slot}

section
variable (h : ∀ x : R, m.nodes[x]?.map label = m'.nodes[x]?.map label)
include h

theorem toList_map_label : m.nodes.toList.map (fun p => (p.1, label p.2)) =
      m'.nodes.toList.map (fun p => (p.1, label p.2)) := by
  have hmap : m.nodes.map (fun _ => label) = m'.nodes.map (fun _ => label) := by
    apply ExtTreeMap.ext_getElem?
    intro x
    rw [ExtTreeMap.getElem?_map, ExtTreeMap.getElem?_map, h x]
  have hlist := congrArg ExtTreeMap.toList hmap
  rwa [ExtTreeMap.toList_map, ExtTreeMap.toList_map] at hlist

theorem turn_map_label (x : R) : (m.turn x).map label = (m'.turn x).map label := by
  have hlist := toList_map_label h
  have hturn : ∀ m : SlotMap slot, (m.turn x).map label =
      ((m.nodes.toList.map (fun p => (p.1, label p.2))).dropWhile (fun p => compare p.1 x == .lt) ++
        (m.nodes.toList.map (fun p => (p.1, label p.2))).takeWhile
          (fun p => compare p.1 x == .lt)).map Prod.snd := by
    intro m
    simp only [turn, lowerBound, dropWhile_map, takeWhile_map, ← map_append, map_map]
    rfl
  rw [hturn m, hturn m', hlist]

theorem find_map_label (x : R) : (m.find x).map label = (m'.find x).map label := by
  rw [find_eq_head?_turn, find_eq_head?_turn, ← head?_map, ← head?_map, turn_map_label h]

end

end

/-! ### Maps without some of the nodes -/

theorem turn_eq_filter (m : SlotMap slot) (x : R) :
    m.turn x = (m.nodes.toList.filter (fun p => !(compare p.1 x == .lt)) ++
      m.nodes.toList.filter (fun p => compare p.1 x == .lt)).map Prod.snd := by
  have hsorted : m.nodes.toList.Pairwise fun a b =>
      (compare b.1 x == .lt) = true → (compare a.1 x == .lt) = true := by
    refine ExtTreeMap.ordered_keys_toList.imp fun {a b} hlt hb => ?_
    exact beq_iff_eq.mpr (Std.TransCmp.lt_trans hlt (beq_iff_eq.mp hb))
  obtain ⟨htake, hdrop⟩ := span_eq_filter hsorted
  rw [turn, lowerBound, htake, hdrop]

theorem turn_restrict {m' : SlotMap slot} {p : T → Bool}
    (h : ∀ x : R, m.nodes[x]? = m'.nodes[x]?.filter p) (x : R) :
    m.turn x = (m'.turn x).filter p := by
  have hnodes : m.nodes = m'.nodes.filter fun _ n => p n := by
    refine ExtTreeMap.ext_getElem? fun x => ?_
    rw [h, ExtTreeMap.getElem?_filter']
  rw [turn_eq_filter, turn_eq_filter, hnodes, ExtTreeMap.toList_filter, filter_map,
    filter_append, filter_filter, filter_filter, filter_filter,
    filter_filter]
  simp only [Function.comp, Bool.and_comm]

end SlotMap

end Testbed.Lib
