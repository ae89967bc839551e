import Testbed.Anna.CausalLattices

/-! # The laws of merging

Whatever order a hash map hands out its pairs in, `merge` of a lattice of maps is the
join of the pointwise order.  `LatticeShape` names the classes that occur: maximum, sets,
ordered sets, and maps whose values are such lattices.  `LatticeShape.Merges` runs the
loops in any order, at every level of nesting, and `LatticeShape.merges_laws` says that
the outcome is the least upper bound.

For the causal lattices, whose `do_merge` compares clocks, `causal_merge_domination` says
which of two states survives a merge.
-/
namespace Testbed.Anna

open Std (ExtTreeMap ExtTreeSet TransOrd LawfulEqOrd)
open Lib.DominatingVersions
open MapLattice Std.ExtTreeMap

/-! ## Loops in any order -/

theorem foldl_insert_perm {T : Type} [Ord T] [TransOrd T] [LawfulEqOrd T] (a b : SetLattice T)
    {elems : List T} (h : elems.Perm b.element.toList) :
    (⟨elems.foldl (fun acc elem => acc.insert elem) a.element⟩ : SetLattice T) = a ⊔ b := by
  refine SetLattice.ext (ExtTreeSet.ext_mem fun x => ?_)
  rw [Lib.mem_insertAll, SetLattice.mem_sup, h.mem_iff, ExtTreeSet.mem_toList]

section
variable {K V : Type} [Ord K] [TransOrd K] [LawfulEqOrd K]

/-- `do_merge` of a map over pairs in the given order, where `merge search v merged` says
that merging `v` into `search` can give `merged`. -/
inductive MergesPairs (merge : V → V → V → Prop) :
    ExtTreeMap K V → List (K × V) → ExtTreeMap K V → Prop
  | done (element : ExtTreeMap K V) : MergesPairs merge element [] element
  | present {element final : ExtTreeMap K V} {k : K} {v search merged : V} {pairs : List (K × V)}
      (hfind : element[k]? = some search) (hmerge : merge search v merged)
      (hrest : MergesPairs merge (element.insert k merged) pairs final) :
      MergesPairs merge element ((k, v) :: pairs) final
  | absent {element final : ExtTreeMap K V} {k : K} {v : V} {pairs : List (K × V)}
      (hfind : element[k]? = none)
      (hrest : MergesPairs merge (element.insert k v) pairs final) :
      MergesPairs merge element ((k, v) :: pairs) final

variable {merge : V → V → V → Prop} [SemilatticeSup V] {pairs : List (K × V)}

omit [LawfulEqOrd K] in
theorem mergesPairs_iff (hmerge : ∀ search v merged, merge search v merged ↔ merged = search ⊔ v)
    {element final : ExtTreeMap K V} :
    MergesPairs merge element pairs final ↔
      final = pairs.foldl (fun acc p => insertPair acc p.1 p.2) element := by
  induction pairs generalizing element with
  | nil =>
    constructor
    · rintro ⟨⟩
      rfl
    · rintro rfl
      exact .done final
  | cons p _ ih =>
    obtain ⟨k, v⟩ := p
    rw [List.foldl_cons, ← ih]
    constructor
    · rintro (_ | ⟨hfind, hm, hrest⟩ | ⟨hfind, hrest⟩)
      · rw [(hmerge _ _ _).mp hm] at hrest
        simpa only [insertPair, hfind] using hrest
      · simpa only [insertPair, hfind] using hrest
    · intro hrest
      cases hfind : element[k]? with
      | some =>
        simp only [insertPair, hfind] at hrest
        exact .present hfind ((hmerge _ _ _).mpr rfl) hrest
      | none =>
        simp only [insertPair, hfind] at hrest
        exact .absent hfind hrest

theorem foldl_insertPair_perm (a b : MapLattice K V) (h : pairs.Perm b.element.toList) :
    (⟨pairs.foldl (fun acc p => insertPair acc p.1 p.2) a.element⟩ : MapLattice K V) = a ⊔ b := by
  refine ext_entry fun k => eq_of_forall_ge_iff fun c => ?_
  have hsup : a ⊔ b = ⟨b.element.toList.foldl
      (fun acc p => MapLattice.insertPair acc p.1 p.2) a.element⟩ :=
    MapLattice.ext foldl_eq_foldl_toList
  rw [hsup, MapLattice.entry_foldl_le_iff, MapLattice.entry_foldl_le_iff]
  simp only [h.mem_iff]

end

/-! ## The lattice classes -/

/-- The lattice classes that maps are built from. -/
inductive LatticeShape : Type 1
  /-- `MaxLattice<unsigned>` -/
  | max
  /-- `SetLattice<T>` -/
  | set (T : Type) [Ord T] [TransOrd T] [LawfulEqOrd T]
  /-- `OrderedSetLattice<T>` -/
  | orderedSet (T : Type) [Ord T] [TransOrd T] [LawfulEqOrd T]
  /-- `MapLattice<K, V>` -/
  | map (K : Type) [Ord K] [TransOrd K] [LawfulEqOrd K] (V : LatticeShape)

namespace LatticeShape

/-- The states of the class. -/
def State : LatticeShape → Type
  | max => MaxLattice
  | set T => SetLattice T
  | orderedSet T => SetLattice T
  | map K V => MapLattice K V.State

/-- `merge` of the class is the join of its order. -/
instance semilatticeSup : (shape : LatticeShape) → SemilatticeSup shape.State
  | max => inferInstanceAs (SemilatticeSup MaxLattice)
  | set T => inferInstanceAs (SemilatticeSup (SetLattice T))
  | orderedSet T => inferInstanceAs (SemilatticeSup (SetLattice T))
  | map K V =>
    let _ := V.semilatticeSup
    inferInstanceAs (SemilatticeSup (MapLattice K V.State))

/-- `merge` when hash sets and hash maps hand out their contents in any order, those
inside other maps too. -/
def Merges : (shape : LatticeShape) → shape.State → shape.State → shape.State → Prop
  | max => fun (a b m : MaxLattice) => m = a.doMerge b.element
  | set T => fun (a b m : SetLattice T) => ∃ elems : List T, elems.Perm b.element.toList ∧
      m = ⟨elems.foldl (fun acc elem => acc.insert elem) a.element⟩
  | orderedSet T => fun (a b m : SetLattice T) =>
      m = ⟨b.element.toList.foldl (fun acc elem => acc.insert elem) a.element⟩
  | map K V => fun (a b m : MapLattice K V.State) => ∃ pairs : List (K × V.State),
      pairs.Perm b.element.toList ∧ MergesPairs V.Merges a.element pairs m.element

/-- The pointwise order, with absent keys lowest. -/
def Below : (shape : LatticeShape) → shape.State → shape.State → Prop
  | max => fun (a b : MaxLattice) => a.element ≤ b.element
  | set T => fun (a b : SetLattice T) => ∀ x ∈ a.element, x ∈ b.element
  | orderedSet T => fun (a b : SetLattice T) => ∀ x ∈ a.element, x ∈ b.element
  | map K V => fun (a b : MapLattice K V.State) => ∀ (k : K) (v : V.State),
      a.element[k]? = some v → ∃ w, b.element[k]? = some w ∧ V.Below v w

variable (shape : LatticeShape)

theorem merges_iff (a b m : shape.State) : shape.Merges a b m ↔ m = a ⊔ b := by
  induction shape with
  | max => exact Iff.rfl
  | set =>
    constructor
    · rintro ⟨_, hperm, rfl⟩
      exact foldl_insert_perm a b hperm
    · rintro rfl
      exact ⟨_, List.Perm.refl _, (foldl_insert_perm a b (List.Perm.refl _)).symm⟩
  | orderedSet T =>
    have hfold := foldl_insert_perm (T := T) a b (List.Perm.refl _)
    exact ⟨fun h => h.trans hfold, fun h => h.trans hfold.symm⟩
  | map _ _ ih =>
    constructor
    · rintro ⟨_, hperm, hmerges⟩
      rw [mergesPairs_iff ih] at hmerges
      exact (MapLattice.ext hmerges).trans (foldl_insertPair_perm a b hperm)
    · intro h
      refine ⟨_, List.Perm.refl _, (mergesPairs_iff ih).mpr ?_⟩
      exact congrArg element (h.trans (foldl_insertPair_perm a b (List.Perm.refl _)).symm)

theorem below_iff (a b : shape.State) : shape.Below a b ↔ a ≤ b := by
  induction shape with
  | max | set | orderedSet => exact Iff.rfl
  | map _ _ ih =>
    refine forall_congr' fun k => ?_
    unfold entry
    cases ha : a.element[k]? with
    | none => exact iff_of_true (fun v hv => nomatch hv) bot_le
    | some v =>
      cases hb : b.element[k]? with
      | none =>
        refine iff_of_false (fun h => ?_) (WithBot.not_coe_le_bot v)
        obtain ⟨w, hw, -⟩ := h v rfl
        cases hw
      | some w =>
        refine Iff.trans ?_ ((ih v w).trans WithBot.coe_le_coe.symm)
        constructor
        · intro h
          obtain ⟨_, hw', _⟩ := h v rfl
          rwa [Option.some.inj hw']
        · rintro h _ ⟨⟩
          exact ⟨w, rfl, h⟩

/-- **Merging is joining.**  For maximum, sets, ordered sets and maps of maps of them:
whatever order of iteration the containers choose, a merge has one outcome, `a ⊔ b`.  It is
commutative, associative and idempotent, and the least upper bound in the pointwise
order, which is a partial order. -/
theorem merges_laws : (∀ a b m, shape.Merges a b m ↔ m = a ⊔ b) ∧
    (∀ a b : shape.State, a ⊔ b = b ⊔ a) ∧
    (∀ a b c : shape.State, a ⊔ b ⊔ c = a ⊔ (b ⊔ c)) ∧
    (∀ a : shape.State, a ⊔ a = a) ∧
    (∀ a b, shape.Below a (a ⊔ b) ∧ shape.Below b (a ⊔ b) ∧
      ∀ u, shape.Below a u → shape.Below b u → shape.Below (a ⊔ b) u) ∧
    (∀ a, shape.Below a a) ∧
    (∀ a b c, shape.Below a b → shape.Below b c → shape.Below a c) ∧
    (∀ a b, shape.Below a b → shape.Below b a → a = b) := by
  simp only [below_iff]
  refine ⟨shape.merges_iff, sup_comm, sup_assoc, sup_idem, fun a b => ?_, le_refl,
    fun a b c => le_trans, fun a b => le_antisymm⟩
  exact ⟨le_sup_left, le_sup_right, fun u => sup_le⟩

/-- Vector clocks and the dependencies of a version are such maps. -/
example : (map String max).State = VectorClock ∧
    (map Key (map String max)).State = MapLattice Key VectorClock := ⟨rfl, rfl⟩

/-- A replica merges updates one by one. -/
def Replays : shape.State → List shape.State → shape.State → Prop
  | a, [], m => m = a
  | a, b :: l, m => ∃ a', shape.Merges a b a' ∧ Replays a' l m

/-- **Replicas converge**: all runs end in the least upper bound of the updates. -/
theorem replays_lub (a : shape.State) (l : List shape.State) :
    ∃ m, (∀ m', shape.Replays a l m' ↔ m' = m) ∧
      ∀ u, shape.Below m u ↔ shape.Below a u ∧ ∀ b ∈ l, shape.Below b u := by
  simp only [below_iff]
  induction l generalizing a with
  | nil => exact ⟨a, fun m' => Iff.rfl, fun u => by simp⟩
  | cons b l ih =>
    obtain ⟨m, honly, hlub⟩ := ih (a ⊔ b)
    refine ⟨m, fun m' => ?_, fun u => ?_⟩
    · simp only [Replays, merges_iff, exists_eq_left, honly]
    · rw [hlub, sup_le_iff, List.forall_mem_cons, and_assoc]

end LatticeShape

/-! ## Domination -/

namespace VectorClock

/-- The counter of a joined clock: the larger of two, or the only one. -/
def larger : Option MaxLattice → Option MaxLattice → Option MaxLattice
  | some x, some y => some ⟨Max.max x.element y.element⟩
  | some x, none => some x
  | none, y => y

/-- Every client of `a` is one of `b`, with a counter that is not smaller, and the clocks
differ.  A counter that is zero is not the same as none. -/
structure DominatedBy (a b : VectorClock) : Prop where
  keys : ∀ k, k ∈ a.element → k ∈ b.element
  counters : ∀ (k : String) (x y : MaxLattice), a.element[k]? = some x →
    b.element[k]? = some y → x.element ≤ y.element
  ne : a ≠ b

/-- The clocks differ, and neither dominates. -/
structure Incomparable (a b : VectorClock) : Prop where
  ne : a ≠ b
  not_dominated : ¬ DominatedBy a b
  not_dominating : ¬ DominatedBy b a

theorem dominatedBy_iff {a b : VectorClock} : DominatedBy a b ↔ a ≤ b ∧ a ≠ b := by
  have hle : a ≤ b ↔ ∀ (k : String) (x : MaxLattice), a.element[k]? = some x →
      ∃ y, b.element[k]? = some y ∧ x.element ≤ y.element :=
    (LatticeShape.below_iff (.map String .max) a b).symm
  rw [hle]
  constructor
  · rintro ⟨hkeys, hcounters, hne⟩
    refine ⟨fun k x hx => ?_, hne⟩
    have hb := hkeys k (mem_iff_isSome_getElem?.mpr (by rw [hx]; rfl))
    obtain ⟨y, hy⟩ := Option.isSome_iff_exists.mp (mem_iff_isSome_getElem?.mp hb)
    exact ⟨y, hy, hcounters k x y hx hy⟩
  · rintro ⟨hbelow, hne⟩
    refine ⟨fun k hk => ?_, fun k x y hx hy => ?_, hne⟩
    · obtain ⟨x, hx⟩ := Option.isSome_iff_exists.mp (mem_iff_isSome_getElem?.mp hk)
      obtain ⟨y, hy, -⟩ := hbelow k x hx
      exact mem_iff_isSome_getElem?.mpr (by rw [hy]; rfl)
    · obtain ⟨_, hy', _⟩ := hbelow k x hx
      rw [hy] at hy'
      rwa [Option.some.inj hy']

theorem incomparable_iff {a b : VectorClock} : Incomparable a b ↔ ¬ a ≤ b ∧ ¬ b ≤ a := by
  constructor
  · rintro ⟨hne, hab, hba⟩
    rw [dominatedBy_iff] at hab hba
    exact ⟨fun hle => hab ⟨hle, hne⟩, fun hle => hba ⟨hle, hne.symm⟩⟩
  · rintro ⟨hab, hba⟩
    refine ⟨fun heq => hab heq.le, fun h => hab ?_, fun h => hba ?_⟩
    · exact (dominatedBy_iff.mp h).1
    · exact (dominatedBy_iff.mp h).1

theorem getElem?_sup (a b : VectorClock) (k : String) :
    (a ⊔ b).element[k]? = larger a.element[k]? b.element[k]? := by
  have hentry : (a ⊔ b).element[k]? = a.entry k ⊔ b.entry k := entry_sup a b k
  rw [hentry]
  unfold entry
  cases a.element[k]? with
  | none => exact bot_sup_eq (b.entry k)
  | some x =>
    cases b.element[k]? with
    | none => exact sup_bot_eq (x : WithBot MaxLattice)
    | some y =>
      have hmax : x ⊔ y = ⟨Max.max x.element y.element⟩ := by
        refine MaxLattice.ext (UInt32.toNat_inj.mp ?_)
        rw [MaxLattice.sup_toNat, UInt32.toNat_max]
      exact (WithBot.coe_sup x y).symm.trans (congrArg _ hmax)

end VectorClock

open VectorClock

section
variable {M V : Type} [SemilatticeSup V] {toVersion : M ≃ VectorClock × V} {merge : M → M → M}
  (hmerge : ∀ a b, toVersion (merge a b) = absorb (toVersion a) (toVersion b))
include hmerge

theorem counter_merge (a b : M) (k : String) : (toVersion (merge a b)).1.element[k]? =
      larger (toVersion a).1.element[k]? (toVersion b).1.element[k]? := by
  rw [hmerge, absorb_fst, getElem?_sup]

theorem merge_self (a : M) : merge a a = a :=
  toVersion.injective ((hmerge a a).trans (absorb_dominating le_rfl))

theorem merge_of_dominatedBy {a b : M} (h : DominatedBy (toVersion a).1 (toVersion b).1) :
    merge a b = b ∧ merge b a = b := by
  obtain ⟨hle, hne⟩ := dominatedBy_iff.mp h
  constructor
  · exact toVersion.injective ((hmerge a b).trans (absorb_dominating hle))
  · exact toVersion.injective ((hmerge b a).trans (absorb_dominated (lt_of_le_of_ne hle hne)))

theorem merge_of_incomparable {a b : M} (h : Incomparable (toVersion a).1 (toVersion b).1) :
    merge a b = merge b a ∧ (toVersion (merge a b)).2 = (toVersion a).2 ⊔ (toVersion b).2 := by
  obtain ⟨hab, hba⟩ := incomparable_iff.mp h
  have hleft := (hmerge a b).trans (absorb_concurrent hab hba)
  have hright := (hmerge b a).trans (absorb_concurrent hba hab)
  refine ⟨toVersion.injective ?_, congrArg Prod.snd hleft⟩
  rw [hleft, hright, sup_comm (toVersion a).1, sup_comm (toVersion a).2]

end

/-- **Merging causal states.**  The clock of a merge has the larger counter of every
client that either clock knows.  A state whose clock strictly dominates survives as it is,
whichever way round the two are merged; states with incomparable clocks merge, both ways,
to the union of the values with the merged dependencies; a state merged with itself
stays. -/
theorem causal_merge_domination {E : Type} [Ord E] [TransOrd E] [LawfulEqOrd E] :
    (∀ a b : VectorClockValuePair (SetLattice E),
      (∀ k : String, (SingleKeyCausalLattice.doMerge a b).vectorClock.element[k]? =
        larger a.vectorClock.element[k]? b.vectorClock.element[k]?) ∧
      (DominatedBy a.vectorClock b.vectorClock →
        SingleKeyCausalLattice.doMerge a b = b ∧ SingleKeyCausalLattice.doMerge b a = b) ∧
      (Incomparable a.vectorClock b.vectorClock →
        SingleKeyCausalLattice.doMerge a b = SingleKeyCausalLattice.doMerge b a ∧
        ∀ x, x ∈ (SingleKeyCausalLattice.doMerge a b).value.element ↔
          x ∈ a.value.element ∨ x ∈ b.value.element) ∧
      SingleKeyCausalLattice.doMerge a a = a) ∧
    (∀ a b : MultiKeyCausalPayload (SetLattice E),
      (∀ k : String, (MultiKeyCausalLattice.doMerge a b).vectorClock.element[k]? =
        larger a.vectorClock.element[k]? b.vectorClock.element[k]?) ∧
      (DominatedBy a.vectorClock b.vectorClock →
        MultiKeyCausalLattice.doMerge a b = b ∧ MultiKeyCausalLattice.doMerge b a = b) ∧
      (Incomparable a.vectorClock b.vectorClock →
        MultiKeyCausalLattice.doMerge a b = MultiKeyCausalLattice.doMerge b a ∧
        (MultiKeyCausalLattice.doMerge a b).dependencies = a.dependencies ⊔ b.dependencies ∧
        ∀ x, x ∈ (MultiKeyCausalLattice.doMerge a b).value.element ↔
          x ∈ a.value.element ∨ x ∈ b.value.element) ∧
      MultiKeyCausalLattice.doMerge a a = a) := by
  have single := @SingleKeyCausalLattice.toVersion_doMerge (SetLattice E) _
  have multi := @MultiKeyCausalLattice.toVersion_doMerge (SetLattice E) _
  refine ⟨fun a b => ⟨counter_merge single a b, merge_of_dominatedBy single, fun h => ?_,
    merge_self single a⟩, fun a b => ⟨counter_merge multi a b, merge_of_dominatedBy multi,
    fun h => ?_, merge_self multi a⟩⟩
  · obtain ⟨hcomm, hvalue⟩ := merge_of_incomparable single h
    replace hvalue : (SingleKeyCausalLattice.doMerge a b).value = a.value ⊔ b.value := hvalue
    exact ⟨hcomm, fun x => by rw [hvalue, SetLattice.mem_sup]⟩
  · obtain ⟨hcomm, hpair⟩ := merge_of_incomparable multi h
    have hvalue : (MultiKeyCausalLattice.doMerge a b).value = a.value ⊔ b.value :=
      congrArg Prod.snd hpair
    exact ⟨hcomm, congrArg Prod.fst hpair, fun x => by rw [hvalue, SetLattice.mem_sup]⟩

/-- An explicit zero dominates an absent counter: of the clocks `[]` and `[a:0]` the
second survives. -/
theorem explicit_zero_dominates : SingleKeyCausalLattice.doMerge
        (⟨clockOf [], (⊥ : SetLattice String).insert "x"⟩ : VectorClockValuePair _)
        ⟨clockOf [("a", 0)], ⊥⟩ = ⟨clockOf [("a", 0)], ⊥⟩ ∧
      SingleKeyCausalLattice.doMerge ⟨clockOf [("a", 0)], ⊥⟩
        (⟨clockOf [], (⊥ : SetLattice String).insert "x"⟩ : VectorClockValuePair _) =
        ⟨clockOf [("a", 0)], ⊥⟩ := by
  refine ((causal_merge_domination (E := String)).1 _ _).2.1 ⟨fun k hk => ?_, ?_, by decide⟩
  · exact absurd hk not_mem_empty
  · intro k x y hx
    cases hx

end Testbed.Anna
