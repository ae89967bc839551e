import Mathlib.Order.WithBot
import Mathlib.Order.Lattice
import Testbed.Lib.SetMaps

/-! # The core lattices

`common/include/lattices/core_lattices.hpp`.  A `Lattice<T>` object is its
`element`, and `merge` runs the class's `do_merge` on it; here a lattice class is
a structure around the element, and `⊔` is `merge`.

The standard containers are the extensional ordered ones: `map<K, V>` (an
`unordered_map`) is `ExtTreeMap K V` and `set<T>` is `ExtTreeSet T`, so that two
containers are equal iff `operator==` says so, and iteration, whose order the
standard leaves open, goes through the keys in increasing order.  A
`MapLattice<K, V>` is ordered pointwise, with absent keys lowest; `do_merge` is
its join (`MapLattice.entry_sup`).
-/
namespace Testbed.Anna

open Std (ExtTreeMap ExtTreeSet TransOrd LawfulEqOrd)
open Std.ExtTreeMap Std.ExtTreeSet

/-! ## Maximum -/

/-- `MaxLattice<unsigned>`. -/
@[ext] structure MaxLattice where
  element : UInt32
deriving DecidableEq, Repr, Inhabited

namespace MaxLattice

/-- `do_merge` reads the element into an `int`; the comparison with the unsigned
argument converts it back. -/
def doMerge (l : MaxLattice) (e : UInt32) : MaxLattice :=
  let current : Int32 := l.element.toInt32
  if current.toUInt32 < e then ⟨e⟩ else l

instance : Max MaxLattice := ⟨fun a b => a.doMerge b.element⟩

theorem sup_element (a b : MaxLattice) :
    (a ⊔ b).element = if a.element < b.element then b.element else a.element := by
  change (a.doMerge b.element).element = _
  simp only [doMerge, UInt32.toUInt32_toInt32]
  split <;> rfl

theorem sup_toNat (a b : MaxLattice) :
    (a ⊔ b).element.toNat = max a.element.toNat b.element.toNat := by
  rw [sup_element]
  split <;> rename_i h <;> rw [UInt32.lt_iff_toNat_lt] at h <;> omega

instance : LE MaxLattice := ⟨fun a b => a.element.toNat ≤ b.element.toNat⟩

theorem le_def (a b : MaxLattice) : a ≤ b ↔ a.element.toNat ≤ b.element.toNat := Iff.rfl

instance : SemilatticeSup MaxLattice where
  sup := (· ⊔ ·)
  le_refl _ := Nat.le_refl _
  le_trans _ _ _ := Nat.le_trans
  le_antisymm a b h₁ h₂ := MaxLattice.ext (UInt32.toNat_inj.mp (Nat.le_antisymm h₁ h₂))
  le_sup_left a b := by rw [le_def, sup_toNat]; exact Nat.le_max_left ..
  le_sup_right a b := by rw [le_def, sup_toNat]; exact Nat.le_max_right ..
  sup_le a b c h₁ h₂ := by rw [le_def, sup_toNat]; exact Nat.max_le.mpr ⟨h₁, h₂⟩

end MaxLattice

/-! ## Sets -/

/-- `SetLattice<T>` and `OrderedSetLattice<T>`: the two classes differ in the
container's iteration order only. -/
@[ext] structure SetLattice (T : Type) [Ord T] where
  element : ExtTreeSet T

namespace SetLattice
variable {T : Type} [Ord T] [TransOrd T] [LawfulEqOrd T]

instance : DecidableEq (SetLattice T) := fun a b =>
  decidable_of_iff (a.element = b.element) ⟨SetLattice.ext, congrArg _⟩

/-- Insert every element of the argument. -/
def doMerge (l : SetLattice T) (e : ExtTreeSet T) : SetLattice T :=
  ⟨e.foldl (fun acc elem => acc.insert elem) l.element⟩

/-- `insert` a single element. -/
def insert (l : SetLattice T) (e : T) : SetLattice T := ⟨l.element.insert e⟩

/-- `size`.  The source narrows the container's size to 32 bits; a serialized set
stays far below that many elements. -/
def size (l : SetLattice T) : Nat := l.element.size

instance : Max (SetLattice T) := ⟨fun a b => a.doMerge b.element⟩
instance : Bot (SetLattice T) := ⟨⟨∅⟩⟩
instance : Inhabited (SetLattice T) := ⟨⊥⟩

omit [TransOrd T] [LawfulEqOrd T] in
@[simp] theorem bot_element : (⊥ : SetLattice T).element = ∅ := rfl

theorem mem_sup (a b : SetLattice T) (x : T) :
    x ∈ (a ⊔ b).element ↔ x ∈ a.element ∨ x ∈ b.element := by
  change x ∈ b.element.foldl (fun acc elem => acc.insert elem) a.element ↔ _
  rw [ExtTreeSet.foldl_eq_foldl_toList, Lib.mem_insertAll, ExtTreeSet.mem_toList]

instance : LE (SetLattice T) := ⟨fun a b => ∀ x ∈ a.element, x ∈ b.element⟩

instance : SemilatticeSup (SetLattice T) where
  sup := (· ⊔ ·)
  le_refl _ _ h := h
  le_trans _ _ _ h₁ h₂ x hx := h₂ x (h₁ x hx)
  le_antisymm a b h₁ h₂ := SetLattice.ext (ext_mem fun x => ⟨h₁ x, h₂ x⟩)
  le_sup_left a b x hx := (mem_sup a b x).mpr (Or.inl hx)
  le_sup_right a b x hx := (mem_sup a b x).mpr (Or.inr hx)
  sup_le a b c h₁ h₂ x hx := ((mem_sup a b x).mp hx).elim (h₁ x) (h₂ x)

instance : OrderBot (SetLattice T) where
  bot_le a x hx := absurd hx (by simp)

omit [LawfulEqOrd T] in
theorem size_eq_zero_iff (l : SetLattice T) : l.size = 0 ↔ l = ⊥ := by
  have h : l.element.isEmpty = (l.element.size == 0) := ExtTreeSet.isEmpty_eq_size_beq_zero
  rw [size, ← beq_iff_eq, ← h, ExtTreeSet.isEmpty_iff]
  exact ⟨SetLattice.ext, fun h => congrArg element h⟩

end SetLattice

/-! ## Maps -/

/-- `MapLattice<K, V>`. -/
@[ext] structure MapLattice (K V : Type) [Ord K] where
  element : ExtTreeMap K V

namespace MapLattice
variable {K V : Type} [Ord K] [TransOrd K] [LawfulEqOrd K]

instance [DecidableEq V] : DecidableEq (MapLattice K V) := fun a b =>
  decidable_of_iff (a.element = b.element) ⟨MapLattice.ext, congrArg _⟩

instance : Bot (MapLattice K V) := ⟨⟨∅⟩⟩
instance : Inhabited (MapLattice K V) := ⟨⊥⟩

omit [TransOrd K] [LawfulEqOrd K] in
@[simp] theorem bot_element : (⊥ : MapLattice K V).element = ∅ := rfl

/-- Merge `v` into the entry of `k`, or create the entry. -/
def insertPair [Max V] (element : ExtTreeMap K V) (k : K) (v : V) : ExtTreeMap K V :=
  match element[k]? with
  | some search => element.insert k (search ⊔ v)
  | none => element.insert k v

/-- Insert every pair of the argument. -/
def doMerge [Max V] (l : MapLattice K V) (m : ExtTreeMap K V) : MapLattice K V :=
  ⟨m.foldl insertPair l.element⟩

/-- `insert` a single pair. -/
def insert [Max V] (l : MapLattice K V) (k : K) (v : V) : MapLattice K V :=
  ⟨insertPair l.element k v⟩

def contains (l : MapLattice K V) (k : K) : Bool := l.element.contains k

/-- `at`: the entry of `k`, which `operator[]` creates when it is absent. -/
def at' [Inhabited V] (l : MapLattice K V) (k : K) : V × MapLattice K V :=
  match l.element[k]? with
  | some v => (v, l)
  | none => (default, ⟨l.element.insert k default⟩)

def remove (l : MapLattice K V) (k : K) : MapLattice K V := ⟨l.element.erase k⟩

def size (l : MapLattice K V) : Nat := l.element.size

instance [Max V] : Max (MapLattice K V) := ⟨fun a b => a.doMerge b.element⟩

/-- The entry of `k`, an absent one lowest. -/
def entry (l : MapLattice K V) (k : K) : WithBot V := l.element[k]?

theorem ext_entry {a b : MapLattice K V} (h : ∀ k, a.entry k = b.entry k) : a = b :=
  MapLattice.ext (ext_getElem? h)

section
variable [SemilatticeSup V]

omit [LawfulEqOrd K] in
theorem entry_insertPair_self (e : ExtTreeMap K V) (k : K) (v : V) :
    (⟨insertPair e k v⟩ : MapLattice K V).entry k =
      (⟨e⟩ : MapLattice K V).entry k ⊔ (v : WithBot V) := by
  cases h : e[k]? <;> (simp only [entry, insertPair, h, getElem?_insert_self]; rfl)

theorem entry_insertPair_of_ne (e : ExtTreeMap K V) {k k' : K} (v : V) (hk : k ≠ k') :
    (⟨insertPair e k v⟩ : MapLattice K V).entry k' = (⟨e⟩ : MapLattice K V).entry k' := by
  cases h : e[k]? <;>
    (simp only [entry, insertPair, h, getElem?_insert, Std.compare_eq_iff_eq, hk]; rfl)

theorem entry_foldl_le_iff (l : List (K × V)) (e : ExtTreeMap K V) (k : K) (c : WithBot V) :
    (⟨l.foldl (fun acc p => insertPair acc p.1 p.2) e⟩ : MapLattice K V).entry k ≤ c ↔
      (⟨e⟩ : MapLattice K V).entry k ≤ c ∧ ∀ v, (k, v) ∈ l → (v : WithBot V) ≤ c := by
  induction l generalizing e with
  | nil => simp
  | cons p l ih =>
    obtain ⟨k₀, v₀⟩ := p
    rw [List.foldl_cons, ih]
    by_cases hk : k₀ = k
    · subst hk
      simp only [entry_insertPair_self, sup_le_iff, List.mem_cons, Prod.mk.injEq, true_and]
      constructor
      · rintro ⟨⟨he, hv⟩, hl⟩
        exact ⟨he, fun v hvl => hvl.elim (fun h => h ▸ hv) (hl v)⟩
      · rintro ⟨he, hl⟩
        exact ⟨⟨he, hl v₀ (Or.inl rfl)⟩, fun v hv => hl v (Or.inr hv)⟩
    · rw [entry_insertPair_of_ne _ _ hk]
      have hne : ¬ k = k₀ := fun h => hk h.symm
      simp [hne]

/-- **`do_merge` is the pointwise join.** -/
theorem entry_sup (a b : MapLattice K V) (k : K) : (a ⊔ b).entry k = a.entry k ⊔ b.entry k := by
  refine eq_of_forall_ge_iff fun c => ?_
  change (⟨b.element.foldl insertPair a.element⟩ : MapLattice K V).entry k ≤ c ↔ _
  rw [ExtTreeMap.foldl_eq_foldl_toList, entry_foldl_le_iff, sup_le_iff]
  refine and_congr_right fun _ => ?_
  simp only [mem_toList_iff_getElem?_eq_some]
  cases h : b.element[k]? with
  | none => simp only [entry, h]; exact ⟨fun _ => bot_le, fun _ v hv => nomatch hv⟩
  | some v => simp only [entry, h, Option.some.injEq, forall_eq']; rfl

instance : LE (MapLattice K V) := ⟨fun a b => ∀ k, a.entry k ≤ b.entry k⟩

instance : SemilatticeSup (MapLattice K V) where
  sup := (· ⊔ ·)
  le_refl _ _ := le_rfl
  le_trans _ _ _ h₁ h₂ k := (h₁ k).trans (h₂ k)
  le_antisymm a b h₁ h₂ := ext_entry fun k => le_antisymm (h₁ k) (h₂ k)
  le_sup_left a b k := by rw [entry_sup]; exact le_sup_left
  le_sup_right a b k := by rw [entry_sup]; exact le_sup_right
  sup_le a b c h₁ h₂ k := by rw [entry_sup]; exact sup_le (h₁ k) (h₂ k)

instance : OrderBot (MapLattice K V) where
  bot_le a k := by
    have h : (⊥ : MapLattice K V).entry k = ⊥ := getElem?_empty
    rw [h]
    exact bot_le

end

end MapLattice

end Testbed.Anna
