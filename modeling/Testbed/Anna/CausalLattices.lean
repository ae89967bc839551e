import Testbed.Lib.DominatingVersions
import Testbed.Anna.Types
import Testbed.Anna.CoreLattices

/-! # The causal lattices

`single_key_causal_lattice.hpp` and `multi_key_causal_lattice.hpp`.  A state is a
vector clock with a value (and, for the multi-key lattice, the dependencies of
the value).  `do_merge` joins the clocks and then looks which side the joined
clock equals.

Both classes are registers of `Testbed.Lib.DominatingVersions`
(`SingleKeyCausalLattice.toVersion_doMerge`,
`MultiKeyCausalLattice.toVersion_doMerge`), so replicas need not agree: two
versions with one clock, or three versions of which the first two cover the
third, are enough to split them (`causal_replicas_diverge`).  When they do agree
is `causal_replicas_converge_iff`.
-/
namespace Testbed.Anna

open Std (ExtTreeSet)
open Lib Lib.DominatingVersions Multiset

/-- `VectorClock`: counters by client id. -/
abbrev VectorClock := MapLattice String MaxLattice

/-! ## Single-key causality -/

/-- `VectorClockValuePair<T>`. -/
@[ext] structure VectorClockValuePair (T : Type) where
  vectorClock : VectorClock
  value : T
deriving DecidableEq

namespace SingleKeyCausalLattice
variable {T : Type}

instance [Bot T] : Bot (VectorClockValuePair T) := ⟨⟨⊥, ⊥⟩⟩
instance [Bot T] : Inhabited (VectorClockValuePair T) := ⟨⊥⟩

/-- `do_merge`: an incoming clock that equals the join takes over the value, a
clock that adds nothing leaves it, and the values of concurrent clocks are
merged. -/
def doMerge [Max T] (element p : VectorClockValuePair T) : VectorClockValuePair T :=
  let prev := element.vectorClock
  let vectorClock := element.vectorClock ⊔ p.vectorClock
  if vectorClock = p.vectorClock then
    { vectorClock, value := p.value }
  else if ¬ vectorClock = prev then
    { vectorClock, value := element.value ⊔ p.value }
  else
    { vectorClock, value := element.value }

/-- `size`: two numbers for each entry of the clock, and the values. -/
def size {E : Type} [Ord E] (element : VectorClockValuePair (SetLattice E)) : Nat :=
  element.vectorClock.size * 2 * 4 + element.value.size

/-- A state as a version: its clock, and what the clock decides about. -/
def toVersion : VectorClockValuePair T ≃ VectorClock × T where
  toFun p := (p.vectorClock, p.value)
  invFun v := ⟨v.1, v.2⟩

theorem toVersion_doMerge [SemilatticeSup T] (element p : VectorClockValuePair T) :
    toVersion (doMerge element p) = absorb (toVersion element) (toVersion p) := by
  rw [absorb_eq_ite]
  unfold doMerge
  dsimp only
  rw [apply_ite toVersion, apply_ite toVersion]
  rfl

end SingleKeyCausalLattice

/-! ## Multi-key causality -/

/-- `MultiKeyCausalPayload<T>`. -/
@[ext] structure MultiKeyCausalPayload (T : Type) where
  vectorClock : VectorClock
  dependencies : MapLattice Key VectorClock
  value : T
deriving DecidableEq

namespace MultiKeyCausalLattice
variable {T : Type}

instance [Bot T] : Bot (MultiKeyCausalPayload T) := ⟨⟨⊥, ⊥, ⊥⟩⟩
instance [Bot T] : Inhabited (MultiKeyCausalPayload T) := ⟨⊥⟩

/-- `do_merge`: as for one key, with the dependencies treated like the value. -/
def doMerge [Max T] (element p : MultiKeyCausalPayload T) : MultiKeyCausalPayload T :=
  let prev := element.vectorClock
  let vectorClock := element.vectorClock ⊔ p.vectorClock
  if vectorClock = p.vectorClock then
    -- incoming version is dominating
    { vectorClock, dependencies := p.dependencies, value := p.value }
  else if ¬ vectorClock = prev then
    -- versions are concurrent
    { vectorClock, dependencies := element.dependencies ⊔ p.dependencies,
      value := element.value ⊔ p.value }
  else
    { vectorClock, dependencies := element.dependencies, value := element.value }

/-- `size`: the clock's entries, the dependencies with their clocks, and the
values. -/
def size {E : Type} [Ord E] (element : MultiKeyCausalPayload (SetLattice E)) : Nat :=
  let depSize := element.dependencies.element.foldl
    (fun depSize key vc => depSize + key.utf8ByteSize + vc.size * 2 * 4) 0
  element.vectorClock.size * 2 * 4 + depSize + element.value.size

/-- A state as a version: the clock decides about dependencies and value. -/
def toVersion : MultiKeyCausalPayload T ≃ VectorClock × (MapLattice Key VectorClock × T) where
  toFun p := (p.vectorClock, p.dependencies, p.value)
  invFun v := ⟨v.1, v.2.1, v.2.2⟩

theorem toVersion_doMerge [SemilatticeSup T] (element p : MultiKeyCausalPayload T) :
    toVersion (doMerge element p) = absorb (toVersion element) (toVersion p) := by
  rw [absorb_eq_ite]
  unfold doMerge
  dsimp only
  rw [apply_ite toVersion, apply_ite toVersion]
  rfl

end MultiKeyCausalLattice

/-! ## Convergence of replicas -/

section
variable {L : Type} [DecidableEq L] (S : Multiset L)

/-- A string that tells `p` from the other members of `S`. -/
noncomputable def ownName (p : L) : String :=
  String.ofList (List.replicate (S.toList.idxOf p) 'v')

theorem ownName_inj {S : Multiset L} {p q : L} (hp : p ∈ S) (h : ownName S p = ownName S q) :
    p = q := by
  have hlen := congrArg List.length (String.ofList_injective h)
  rw [List.length_replicate, List.length_replicate] at hlen
  exact (List.idxOf_inj (mem_toList.mpr hp)).mp hlen

/-- The value made of that string alone. -/
noncomputable def ownValue (p : L) : SetLattice String :=
  (⊥ : SetLattice String).insert (ownName S p)

theorem mem_ownValue (p : L) (x : String) : x ∈ (ownValue S p).element ↔ x = ownName S p := by
  rw [ownValue, SetLattice.insert, ExtTreeSet.mem_insert, Std.compare_eq_iff_eq]
  simp [eq_comm]

theorem mem_joinOf {α : Type*} (f : α → SetLattice String) (l : List α) (x : String) :
    x ∈ (joinOf f l).element ↔ ∃ q ∈ l, x ∈ (f q).element := by
  induction l with
  | nil => simp
  | cons q l ih => simp [SetLattice.mem_sup, ih]

theorem mem_of_ownValue_le {S : Multiset L} {p : L} (hp : p ∈ S) {l : List L}
    (h : ownValue S p ≤ joinOf (ownValue S) l) : p ∈ l := by
  have hx := h (ownName S p) ((mem_ownValue S p _).mpr rfl)
  obtain ⟨q, hq, hxq⟩ := (mem_joinOf _ l _).mp hx
  rw [ownName_inj hp ((mem_ownValue S q _).mp hxq)]
  exact hq

end

/-- **When causal replicas converge.**  For single-key and for multi-key causal
lattices, any two replicas that merge the same versions, in any order and any
number of times, end in the same state iff the versions are `Decided`.  Clocks
that are `Settled` make them so whatever values they carry; clocks that are not
have values that make replicas differ. -/
theorem causal_replicas_converge_iff (S : Multiset (VectorClockValuePair (SetLattice String)))
    (M : Multiset (MultiKeyCausalPayload (SetLattice String))) :
    ((Converges SingleKeyCausalLattice.doMerge ⊥ S ↔
        Decided (S.map SingleKeyCausalLattice.toVersion)) ∧
      (Settled (S.map SingleKeyCausalLattice.toVersion) →
        Converges SingleKeyCausalLattice.doMerge ⊥ S) ∧
      (¬ Settled (S.map SingleKeyCausalLattice.toVersion) →
        ∃ value : VectorClockValuePair (SetLattice String) → SetLattice String,
          ¬ Converges SingleKeyCausalLattice.doMerge ⊥
            (S.map fun p => { p with value := value p }))) ∧
    (Converges MultiKeyCausalLattice.doMerge ⊥ M ↔
        Decided (M.map MultiKeyCausalLattice.toVersion)) ∧
      (Settled (M.map MultiKeyCausalLattice.toVersion) →
        Converges MultiKeyCausalLattice.doMerge ⊥ M) ∧
      (¬ Settled (M.map MultiKeyCausalLattice.toVersion) →
        ∃ value : MultiKeyCausalPayload (SetLattice String) → SetLattice String,
          ¬ Converges MultiKeyCausalLattice.doMerge ⊥
            (M.map fun p => { p with value := value p })) := by
  constructor
  · have hiff := fun S => converges_map_iff SingleKeyCausalLattice.toVersion
      SingleKeyCausalLattice.toVersion SingleKeyCausalLattice.toVersion_doMerge
      (⊥ : VectorClockValuePair (SetLattice String)) S
    refine ⟨(hiff S).trans (converges_iff _), fun h => (hiff S).mpr (converges_of_settled h), ?_⟩
    intro hS
    set T := S.map SingleKeyCausalLattice.toVersion with hT
    refine ⟨fun p => ownValue T (SingleKeyCausalLattice.toVersion p), fun hc => ?_⟩
    refine exists_relabelling_of_not_settled (ownValue T)
      (fun p hp l _ h => mem_of_ownValue_le hp h) hS ?_
    have := (hiff _).mp hc
    rw [map_map] at this
    rw [hT, map_map]
    exact this
  · have hiff := fun M => converges_map_iff MultiKeyCausalLattice.toVersion
      MultiKeyCausalLattice.toVersion MultiKeyCausalLattice.toVersion_doMerge
      (⊥ : MultiKeyCausalPayload (SetLattice String)) M
    refine ⟨(hiff M).trans (converges_iff _), fun h => (hiff M).mpr (converges_of_settled h), ?_⟩
    intro hM
    set T := M.map MultiKeyCausalLattice.toVersion with hT
    refine ⟨fun p => ownValue T (MultiKeyCausalLattice.toVersion p), fun hc => ?_⟩
    refine exists_relabelling_of_not_settled (fun p => (p.2.1, ownValue T p)) ?_ hM ?_
    · intro p hp l hl h
      refine mem_of_ownValue_le hp (h.2.trans (le_of_eq ?_))
      clear h hl
      induction l with
      | nil => rfl
      | cons q l ih => rw [joinOf_cons, joinOf_cons, ← ih]; rfl
    · have := (hiff _).mp hc
      rw [map_map] at this
      rw [hT, map_map]
      exact this

/-- The vector clock of a test version. -/
def clockOf (l : List (String × UInt32)) : VectorClock :=
  l.foldl (fun vc p => vc.insert p.1 ⟨p.2⟩) ⊥

/-- **Causal replicas can differ for good.**  The versions written at clocks
`[a:2]`, `[b:1]` and `[a:1, b:1]` have distinct clocks.  Delivered in this order
the third is covered by the join of the first two and its value is dropped;
delivered in the opposite order the second is. -/
theorem causal_replicas_diverge : (¬ ∀ S : Multiset (VectorClockValuePair (SetLattice String)),
      Converges SingleKeyCausalLattice.doMerge ⊥ S) ∧
    (¬ ∀ S : Multiset (MultiKeyCausalPayload (SetLattice String)),
      Converges MultiKeyCausalLattice.doMerge ⊥ S) := by
  constructor
  · intro h
    let a : VectorClockValuePair (SetLattice String) :=
      ⟨clockOf [("a", 2)], (⊥ : SetLattice String).insert "x"⟩
    let b : VectorClockValuePair (SetLattice String) :=
      ⟨clockOf [("b", 1)], (⊥ : SetLattice String).insert "y"⟩
    let c : VectorClockValuePair (SetLattice String) :=
      ⟨clockOf [("a", 1), ("b", 1)], (⊥ : SetLattice String).insert "z"⟩
    have hc := h ↑[a, b, c] [a, b, c] [c, b, a] ⟨le_rfl, by simp⟩
      ⟨(coe_eq_coe.mpr (List.reverse_perm [a, b, c])).ge, by simp⟩
    exact absurd hc (by decide)
  · intro h
    let a : MultiKeyCausalPayload (SetLattice String) :=
      ⟨clockOf [("a", 2)], ⊥, (⊥ : SetLattice String).insert "x"⟩
    let b : MultiKeyCausalPayload (SetLattice String) :=
      ⟨clockOf [("b", 1)], ⊥, (⊥ : SetLattice String).insert "y"⟩
    let c : MultiKeyCausalPayload (SetLattice String) :=
      ⟨clockOf [("a", 1), ("b", 1)], ⊥, (⊥ : SetLattice String).insert "z"⟩
    have hc := h ↑[a, b, c] [a, b, c] [c, b, a] ⟨le_rfl, by simp⟩
      ⟨(coe_eq_coe.mpr (List.reverse_perm [a, b, c])).ge, by simp⟩
    exact absurd hc (by decide)

end Testbed.Anna
