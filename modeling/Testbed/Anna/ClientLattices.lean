import Testbed.Anna.CausalLattices
import Testbed.Anna.RegisterLattices
import Testbed.Lib.FallibleRuns

/-! # The lattices of the Python client

`lattices.py` has merges of its own for the six lattice types.  They are compared with the
merges of the servers, over the same values.

Most of them raise.  A `set` of Python has no `insert`, a list no `lst`, and a `VectorClock`
is not a `MapLattice` for the test of `merge`.  What is left are pairs with a timestamp, where
the two sides keep different values of a tie, and pairs with a priority (`merge_agrees_iff`).
-/
namespace Testbed.Anna.ClientLattices

open Std (ExtTreeSet)
open Lib

/-- What the statements of the client raise. -/
inductive Raised
  | valueError
  | attributeError
  | typeError
  | keyError
  | indexError
  /-- Of protobuf. -/
  | decodeError
deriving DecidableEq

/-! ## `merge` -/

/-- `LWWPairLattice.merge`. -/
def mergeLWW (self other : TimestampValuePair) : Except Raised TimestampValuePair :=
  if other.timestamp > self.timestamp then return other else return self

/-- `new_set.insert(v)`: there is no such method. -/
def insertIntoSet (_newSet : ExtTreeSet String) (_v : String) : Except Raised (ExtTreeSet String) :=
  .error .attributeError

/-- `SetLattice.merge`. -/
def mergeSet (self other : SetLattice String) : Except Raised (SetLattice String) := do
  let newSet ← other.element.toList.foldlM insertIntoSet ∅
  let newSet ← self.element.toList.foldlM insertIntoSet newSet
  return ⟨newSet⟩

/-- `other.reveal().lst`: what is revealed is the list itself. -/
def revealLst (_lst : List String) : Except Raised (List String) := .error .attributeError

/-- The loop of `OrderedSetLattice.merge`, with the rest of the two lists. -/
def lockstep : List String → List String → List String
  | [], other => other
  | us, [] => us
  | a :: us, b :: other =>
    if a = b then a :: lockstep us other
    else if a < b then a :: lockstep us (b :: other)
    else b :: lockstep (a :: us) other
termination_by us other => us.length + other.length

/-- `OrderedSetLattice.merge`. -/
def mergeOrderedSet (self other : SetLattice String) : Except Raised (SetLattice String) := do
  let other ← revealLst other.element.toList
  return ⟨.ofList (lockstep self.element.toList other)⟩

/-- The class of a map. -/
inductive MapClass
  | mapLattice
  | vectorClock
deriving DecidableEq

/-- `MapLattice.merge` with an object of this class.  Where the class is right, the loop
over `other.mp.keys` raises: `keys` is a method. -/
def mergeMap {V : Type} (otherClass : MapClass) (_self _other : MapLattice String V) :
    Except Raised (MapLattice String V) :=
  if otherClass ≠ .mapLattice then .error .valueError else .error .typeError

/-- `SingleKeyCausalLattice.merge`.  `previous` is a `MapLattice`, which no `VectorClock`
equals, and the merged set is not kept. -/
def mergeSingleKeyCausal (self other : VectorClockValuePair (SetLattice String)) :
    Except Raised (VectorClockValuePair (SetLattice String)) := do
  let vectorClock ← mergeMap .vectorClock self.vectorClock other.vectorClock
  if vectorClock = other.vectorClock then return ⟨vectorClock, other.value⟩
  else
    let _ ← mergeSet self.value other.value
    return ⟨vectorClock, self.value⟩

/-- `MultiKeyCausalLattice.merge`. -/
def mergeMultiKeyCausal (self other : MultiKeyCausalPayload (SetLattice String)) :
    Except Raised (MultiKeyCausalPayload (SetLattice String)) := do
  let vectorClock ← mergeMap .vectorClock self.vectorClock other.vectorClock
  if vectorClock = other.vectorClock then
    return ⟨vectorClock, other.dependencies, other.value⟩
  else
    let dependencies ← mergeMap .mapLattice self.dependencies other.dependencies
    let _ ← mergeSet self.value other.value
    return ⟨vectorClock, dependencies, self.value⟩

/-- `PriorityLattice.merge`. -/
def mergePriority {D : Type} [Priority D] (self other : PriorityValuePair D) :
    Except Raised (PriorityValuePair D) :=
  if other.priority < self.priority then return other else return self

/-! ## The two sides -/

/-- Two values of one of the six types. -/
inductive Pair (D : Type)
  | lww (a b : TimestampValuePair)
  | set (a b : SetLattice String)
  | orderedSet (a b : SetLattice String)
  | singleCausal (a b : VectorClockValuePair (SetLattice String))
  | multiCausal (a b : MultiKeyCausalPayload (SetLattice String))
  | priority (a b : PriorityValuePair D)

variable {D : Type} [Priority D]

/-- The client's merge returns the value of the server's. -/
def Pair.Agrees : Pair D → Prop
  | .lww a b => mergeLWW a b = .ok (LWWPairLattice.doMerge a b)
  | .set a b => mergeSet a b = .ok (a.doMerge b.element)
  | .orderedSet a b => mergeOrderedSet a b = .ok (a.doMerge b.element)
  | .singleCausal a b => mergeSingleKeyCausal a b = .ok (SingleKeyCausalLattice.doMerge a b)
  | .multiCausal a b => mergeMultiKeyCausal a b = .ok (MultiKeyCausalLattice.doMerge a b)
  | .priority a b => mergePriority a b = .ok (PriorityLattice.doMerge a b)

/-- The pairs that the client can merge: those without a tie of timestamps between different
values, two empty sets, and all pairs with priorities. -/
def Pair.Mergeable : Pair D → Prop
  | .lww a b => a.timestamp = b.timestamp → a.value = b.value
  | .set a b => a.element = ∅ ∧ b.element = ∅
  | .priority _ _ => True
  | _ => False

theorem mergeLWW_eq_iff (a b : TimestampValuePair) :
    mergeLWW a b = .ok (LWWPairLattice.doMerge a b) ↔
      (a.timestamp = b.timestamp → a.value = b.value) := by
  let _ := timestampOrder
  unfold mergeLWW LWWPairLattice.doMerge
  rcases lt_trichotomy a.timestamp b.timestamp with hlt | heq | hgt
  · rw [if_pos hlt, if_pos hlt.le]
    exact iff_of_true rfl fun heq => absurd heq hlt.ne
  · rw [if_neg heq.not_lt, if_pos heq.le]
    constructor
    · intro h _
      exact congrArg TimestampValuePair.value (Except.ok.inj h)
    · intro h
      exact congrArg Except.ok (TimestampValuePair.ext heq (h heq))
  · rw [if_neg hgt.not_gt, if_neg hgt.not_ge]
    exact iff_of_true rfl fun heq => absurd heq hgt.ne'

theorem foldlM_insertIntoSet_eq_ok {values newSet result : ExtTreeSet String} :
    values.toList.foldlM insertIntoSet newSet = .ok result ↔ values = ∅ ∧ newSet = result := by
  rw [← ExtTreeSet.isEmpty_iff, ← ExtTreeSet.isEmpty_toList]
  cases values.toList with
  | nil => simp [pure, Except.pure]
  | cons => exact iff_of_false nofun (by simp)

theorem mergeSet_eq_iff (a b : SetLattice String) :
    mergeSet a b = .ok (a.doMerge b.element) ↔ a.element = ∅ ∧ b.element = ∅ := by
  unfold mergeSet
  rw [bind_eq_ok]
  constructor
  · rintro ⟨_, hother, hself⟩
    obtain ⟨_, hself, -⟩ := bind_eq_ok.mp hself
    exact ⟨(foldlM_insertIntoSet_eq_ok.mp hself).1, (foldlM_insertIntoSet_eq_ok.mp hother).1⟩
  · rintro ⟨ha, hb⟩
    refine ⟨∅, foldlM_insertIntoSet_eq_ok.mpr ⟨hb, rfl⟩,
      bind_eq_ok.mpr ⟨∅, foldlM_insertIntoSet_eq_ok.mpr ⟨ha, rfl⟩, ?_⟩⟩
    rw [SetLattice.doMerge, ha, hb]
    rfl

/-- **Client and server agree on a merge** just if the client can merge the pair. -/
theorem merge_agrees_iff (pair : Pair D) : pair.Agrees ↔ pair.Mergeable := by
  cases pair with
  | lww a b => exact mergeLWW_eq_iff a b
  | set a b => exact mergeSet_eq_iff a b
  | orderedSet | singleCausal | multiCausal => exact iff_of_false nofun id
  | priority =>
    refine iff_of_true ?_ trivial
    unfold Pair.Agrees mergePriority PriorityLattice.doMerge
    dsimp only
    split
    · rfl
    · rfl

/-- The client cannot merge a set with itself, unless it is empty. -/
theorem client_merge_raises : ∃ _ : Priority Int, ¬ ∀ pair : Pair Int, pair.Agrees := by
  refine ⟨integerPriority, fun h => ?_⟩
  let a : SetLattice String := ⟨(∅ : ExtTreeSet String).insert "a"⟩
  have hempty := ((mergeSet_eq_iff a a).mp (h (.set a a))).1
  exact absurd hempty ExtTreeSet.insert_ne_empty

end Testbed.Anna.ClientLattices
