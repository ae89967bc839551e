import Mathlib.Data.Countable.Basic
import Mathlib.Logic.Equiv.List
import Testbed.Anna.CausalLattices
import Testbed.Anna.RegisterLattices

/-! # Protobuf values

The messages in which lattice values travel and are stored (`anna.proto`), the
conversions of `common.hpp` between them and the lattices, and protobuf's wire
format as far as the store relies on it (`Codec`).

Every lattice value survives the way into a message and back (`toLww_ofLww` and
its like); so does every message the way into text and back, by the codec.
-/
namespace Testbed.Anna

open Std Function ExtTreeMap

/-! ## The wire format -/

/-- Protobuf for the messages of one type.  Parsing what was serialized gives the
message back; the empty text is the message with all fields unset.  On other
texts parsing leaves some message and reports whether it succeeded. -/
structure Codec (M : Type) [Inhabited M] where
  serializeAsString : M → String
  parseFromString : String → M × Bool
  parse_serialize : ∀ m, parseFromString (serializeAsString m) = (m, true)
  parse_empty : parseFromString "" = (default, true)

theorem Codec.nonempty (M : Type) [Inhabited M] [Countable M] : Nonempty (Codec M) := by
  classical
  obtain ⟨code, hcode⟩ := Countable.exists_injective_nat M
  let write : M → String := fun m =>
    if m = default then "" else String.ofList (List.replicate (code m + 1) '.')
  have hwrite : Injective write := by
    intro m m' h
    by_cases hm : m = default <;> by_cases hm' : m' = default
    · rw [hm, hm']
    · simp [write, hm, hm'] at h
    · simp [write, hm, hm'] at h
    · simp only [write, hm, hm', if_false] at h
      have hlen := congrArg List.length (String.ofList_injective h)
      simp only [List.length_replicate] at hlen
      exact hcode (by omega)
  have hread := leftInverse_invFun hwrite
  refine ⟨⟨write, fun s => (invFun write s, true), fun m => ?_, ?_⟩⟩
  · rw [hread m]
  · have hdefault : write default = "" := if_pos rfl
    rw [← hdefault, hread default]

/-! ## Messages -/

structure LWWValue where
  timestamp : UInt64 := 0
  value : String := ""
deriving DecidableEq, Repr, Inhabited

structure SetValue where
  values : List String := []
deriving DecidableEq, Repr, Inhabited

@[ext] structure SingleKeyCausalValue where
  vectorClock : ExtTreeMap String UInt32 := ∅
  values : List String := []
deriving DecidableEq, Inhabited

@[ext] structure KeyVersion where
  key : Key := ""
  vectorClock : ExtTreeMap String UInt32 := ∅
deriving DecidableEq, Inhabited

@[ext] structure MultiKeyCausalValue where
  vectorClock : ExtTreeMap String UInt32 := ∅
  dependencies : List KeyVersion := []
  values : List String := []
deriving DecidableEq, Inhabited

structure PriorityValue (D : Type) where
  priority : D
  value : String
deriving DecidableEq

instance {D : Type} [Priority D] : Inhabited (PriorityValue D) := ⟨⟨Priority.zero, ""⟩⟩

/-! ### All of them have a wire format -/

section

instance countableString : Countable String :=
  Injective.countable (f := fun s : String => s.toList.map Char.toNat) fun _ _ h =>
    String.toList_injective (List.map_injective_iff.mpr (fun _ _ => Char.toNat_inj.mp) h)

instance countableClock : Countable (ExtTreeMap String UInt32) :=
  Injective.countable
    (f := fun m : ExtTreeMap String UInt32 => m.toList.map fun p => (p.1, p.2.toNat))
    fun m m' h => by
      refine toList_inj.mp (List.map_injective_iff.mpr (fun p q hpq => ?_) h)
      obtain ⟨hkey, hcount⟩ := Prod.mk.inj hpq
      exact Prod.ext hkey (UInt32.toNat_inj.mp hcount)

instance : Countable LWWValue :=
  Injective.countable (f := fun m : LWWValue => (m.timestamp.toNat, m.value)) fun m m' h => by
    obtain ⟨ht, hv⟩ := Prod.mk.inj h
    cases m
    cases m'
    exact congr (congrArg LWWValue.mk (UInt64.toNat_inj.mp ht)) hv

instance : Countable SetValue :=
  Injective.countable (f := SetValue.values) fun m m' h => by
    cases m
    cases m'
    exact congrArg SetValue.mk h

instance : Countable SingleKeyCausalValue :=
  Injective.countable (f := fun m : SingleKeyCausalValue => (m.vectorClock, m.values)) fun _ _ h =>
      SingleKeyCausalValue.ext (Prod.mk.inj h).1 (Prod.mk.inj h).2

instance : Countable KeyVersion :=
  Injective.countable (f := fun m : KeyVersion => (m.key, m.vectorClock)) fun _ _ h =>
    KeyVersion.ext (Prod.mk.inj h).1 (Prod.mk.inj h).2

instance : Countable MultiKeyCausalValue :=
  Injective.countable
    (f := fun m : MultiKeyCausalValue => (m.vectorClock, m.dependencies, m.values)) fun _ _ h =>
      MultiKeyCausalValue.ext (Prod.mk.inj h).1 (Prod.mk.inj (Prod.mk.inj h).2).1
        (Prod.mk.inj (Prod.mk.inj h).2).2

instance {D : Type} [Countable D] : Countable (PriorityValue D) :=
  Injective.countable (f := fun m : PriorityValue D => (m.priority, m.value)) fun m m' h => by
    cases m
    cases m'
    exact congr (congrArg PriorityValue.mk (Prod.mk.inj h).1) (Prod.mk.inj h).2

instance : Countable Tier :=
  Injective.countable (f := Tier.ctorIdx) fun t t' h => by
    cases t <;> cases t' <;> first | rfl | exact absurd h (by decide)

instance : Countable ReplicationFactor :=
  Injective.countable
    (f := fun m : ReplicationFactor => (m.key, m.globalValues, m.localValues)) fun m m' h => by
      obtain ⟨hkey, hrest⟩ := Prod.mk.inj h
      obtain ⟨hglobal, hlocal⟩ := Prod.mk.inj hrest
      cases m
      cases m'
      exact congr (congr (congrArg ReplicationFactor.mk hkey) hglobal) hlocal

end

/-! ## Between lattices and messages -/

/-- The message of `serialize(LWWPairLattice)`. -/
def ofLww (l : TimestampValuePair) : LWWValue := ⟨l.timestamp, l.value⟩

/-- The lattice of `deserialize_lww`. -/
def toLww (lww : LWWValue) : TimestampValuePair := ⟨lww.timestamp, lww.value⟩

theorem toLww_ofLww (l : TimestampValuePair) : toLww (ofLww l) = l := rfl

variable (l : SetLattice String)

/-- The message of `serialize(SetLattice)`, `serialize(OrderedSetLattice)`. -/
def ofSet : SetValue := ⟨l.element.toList⟩

/-- A loop that inserts strings into an empty set. -/
def setOf (values : List String) : SetLattice String :=
  values.foldl (fun acc value => acc.insert value) ⊥

/-- The lattice of `deserialize_set`, `deserialize_ordered_set`. -/
def toSet (s : SetValue) : SetLattice String := setOf s.values

theorem mem_setOf (values : List String) (x : String) :
    x ∈ (setOf values).element ↔ x ∈ values := by
  have h : ∀ (l : List String) (acc : SetLattice String),
      (l.foldl (fun acc value => acc.insert value) acc).element =
        l.foldl (fun acc value => acc.insert value) acc.element := by
    intro l
    induction l with
    | nil => exact fun _ => rfl
    | cons y l ih => exact fun acc => ih _
  rw [setOf, h, Lib.mem_insertAll]
  simp

theorem setOf_toList : setOf l.element.toList = l := by
  refine SetLattice.ext (ExtTreeSet.ext_mem fun x => ?_)
  rw [mem_setOf, ExtTreeSet.mem_toList]

theorem toSet_ofSet : toSet (ofSet l) = l := setOf_toList l

/-- A loop that copies a vector clock into a message. -/
def ofClock (vc : VectorClock) : ExtTreeMap String UInt32 := vc.element.map fun _ l => l.element

variable (m : ExtTreeMap String UInt32)

/-- A loop that inserts the entries of a message's clock into an empty one. -/
def toClock : VectorClock :=
  m.foldl (fun acc k v => acc.insert k ⟨v⟩) ⊥

theorem toClock_eq : toClock m = ⟨m.map fun _ v => ⟨v⟩⟩ := by
  have h : ∀ (l : List (String × UInt32)) (acc : VectorClock),
      l.foldl (fun acc p => acc.insert p.1 ⟨p.2⟩) acc =
        ⟨(l.map fun p => (p.1, (⟨p.2⟩ : MaxLattice))).foldl
          (fun acc p => MapLattice.insertPair acc p.1 p.2) acc.element⟩ := by
    intro l
    induction l with
    | nil => exact fun _ => rfl
    | cons p l ih => exact fun acc => ih _
  have hlist : (m.map fun _ v => (⟨v⟩ : MaxLattice)).toList =
      m.toList.map fun p => (p.1, ⟨p.2⟩) := toList_map
  rw [toClock, foldl_eq_foldl_toList, h, ← hlist, ← foldl_eq_foldl_toList]
  exact bot_sup_eq (⟨m.map fun _ v => ⟨v⟩⟩ : VectorClock)

theorem toClock_ofClock (vc : VectorClock) : toClock (ofClock vc) = vc := by
  rw [toClock_eq]
  refine MapLattice.ext (ext_getElem? fun k => ?_)
  rw [ofClock, getElem?_map, getElem?_map]
  cases vc.element[k]? <;> rfl

/-- The message of `serialize(SingleKeyCausalLattice)`. -/
def ofCausal (l : VectorClockValuePair (SetLattice String)) : SingleKeyCausalValue :=
  ⟨ofClock l.vectorClock, l.value.element.toList⟩

def toVectorClockValuePair (cv : SingleKeyCausalValue) : VectorClockValuePair (SetLattice String) :=
  ⟨toClock cv.vectorClock, setOf cv.values⟩

theorem toVectorClockValuePair_ofCausal (l : VectorClockValuePair (SetLattice String)) :
    toVectorClockValuePair (ofCausal l) = l := by
  simp [toVectorClockValuePair, ofCausal, toClock_ofClock, setOf_toList]

/-- The message of `serialize(MultiKeyCausalLattice)`. -/
def ofMultiKeyCausal (l : MultiKeyCausalPayload (SetLattice String)) : MultiKeyCausalValue :=
  ⟨ofClock l.vectorClock, l.dependencies.element.toList.map fun p => ⟨p.1, ofClock p.2⟩,
    l.value.element.toList⟩

def toMultiKeyCausalPayload (mkcv : MultiKeyCausalValue) :
    MultiKeyCausalPayload (SetLattice String) :=
  ⟨toClock mkcv.vectorClock,
    mkcv.dependencies.foldl (fun acc dep => acc.insert dep.key (toClock dep.vectorClock)) ⊥,
    setOf mkcv.values⟩

theorem toMultiKeyCausalPayload_ofMultiKeyCausal (l : MultiKeyCausalPayload (SetLattice String)) :
    toMultiKeyCausalPayload (ofMultiKeyCausal l) = l := by
  have h : ∀ (deps : List (Key × VectorClock)) (acc : MapLattice Key VectorClock),
      (deps.map fun p => (⟨p.1, ofClock p.2⟩ : KeyVersion)).foldl
          (fun acc dep => acc.insert dep.key (toClock dep.vectorClock)) acc =
        ⟨deps.foldl (fun acc p => MapLattice.insertPair acc p.1 p.2) acc.element⟩ := by
    intro deps
    induction deps with
    | nil => exact fun _ => rfl
    | cons p deps ih =>
      intro acc
      rw [List.map_cons, List.foldl_cons, ih, List.foldl_cons, toClock_ofClock]
      rfl
  have hdeps : (ofMultiKeyCausal l).dependencies.foldl
      (fun acc dep => acc.insert dep.key (toClock dep.vectorClock)) ⊥ = l.dependencies := by
    rw [ofMultiKeyCausal, h, ← foldl_eq_foldl_toList]
    exact bot_sup_eq l.dependencies
  rw [toMultiKeyCausalPayload, hdeps]
  simp [ofMultiKeyCausal, toClock_ofClock, setOf_toList]

/-- The message of `serialize(PriorityLattice)`. -/
def ofPriority {D : Type} (l : PriorityValuePair D) : PriorityValue D := ⟨l.priority, l.value⟩

/-- The lattice of `deserialize_priority`. -/
def toPriority {D : Type} (pv : PriorityValue D) : PriorityValuePair D := ⟨pv.priority, pv.value⟩

end Testbed.Anna
