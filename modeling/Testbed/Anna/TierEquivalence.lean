import Testbed.Lib.Lockstep
import Testbed.Anna.DiskSerializers

/-! # The two tiers give the same answers

A `Memory*Serializer` keeps a lattice for each key and merges what is put into it;
the `Disk*Serializer` of the same type keeps a message and rewrites it by hand.
What the two need to have in common is in `Twins`, and `twins_lockstep` derives from
it that a store of lattices and a directory of files stay in step: a file holds a
message of the lattice, and where there is no file the lattice is the default one.

`tiers_observationally_equal` is the result for the four types for which the two
classes are twins.
-/
namespace Testbed.Anna

open Std Lib
open KVStore ExtTreeMap

/-- A call of a serializer. -/
inductive StoreOp where
  | put (key : Key) (serialized : String)
  | get (key : Key)
  | remove (key : Key)

/-- The effect of a call, with the payload and the error if it is a `get`. -/
def Serializer.step {σ : Type} (ser : Serializer σ) (store : σ) :
    StoreOp → Option (String × AnnaError) × σ
  | .put key serialized => (none, (ser.put store key serialized).2)
  | .get key => (some (ser.get store key).1, (ser.get store key).2)
  | .remove key => (none, ser.remove store key)

/-- The answers to a call have the same error, and decode to the same value if it is
no error. -/
def SameAnswer {V : Type} (decode : String → V) :
    Option (String × AnnaError) → Option (String × AnnaError) → Prop
  | some res, some res' =>
    res.2 = res'.2 ∧ (res.2 = .noError ∨ res.2 = .keyDne) ∧
      (res.2 = .noError → decode res.1 = decode res'.1)
  | none, none => True
  | _, _ => False

section Twins
variable {V M : Type} [Inhabited V] [Inhabited M]

/-- What makes the two serializers of a type agree.  `update` is to the messages what
`merge` is to the lattices, and the default lattice is neutral and counts as missing. -/
structure Twins (ofLattice : V → M) (toLattice : M → V) (merge : V → V → V)
    (missing : V → Bool) (missingMessage : M → Bool) (update : M → M → Option M) : Prop where
  to_of : ∀ v, toLattice (ofLattice v) = v
  missing_to : ∀ m, missingMessage m = missing (toLattice m)
  missing_default : missing default = true
  merge_default : ∀ v, merge default v = v
  update_to : ∀ m m', toLattice ((update m m').getD m) = merge (toLattice m) (toLattice m')

variable {codec : Codec M} {ofLattice : V → M} {toLattice : M → V} {merge : V → V → V}
  {sizeOf : V → Nat} {missing : V → Bool} {missingMessage : M → Bool}
  {update : M → M → Option M}

/-- The file of a key holds a message of the lattice. -/
def HoldsAt (codec : Codec M) (toLattice : M → V) (kvs : KVStore V) (files : Files)
    (key : Key) : Prop :=
  match files[key]? with
  | none => value kvs key = default
  | some content =>
    ∃ m, content = codec.serializeAsString m ∧ kvs.element[key]? = some (toLattice m)

variable {kvs : KVStore V} {files : Files} {key : Key}

theorem holdsAt_none (h : files[key]? = none) :
    HoldsAt codec toLattice kvs files key ↔ value kvs key = default := by
  rw [HoldsAt, h]

theorem holdsAt_some {content : String} (h : files[key]? = some content) :
    HoldsAt codec toLattice kvs files key ↔
      ∃ m, content = codec.serializeAsString m ∧ kvs.element[key]? = some (toLattice m) := by
  rw [HoldsAt, h]

theorem HoldsAt.congr {kvs' : KVStore V} {files' : Files}
    (h : HoldsAt codec toLattice kvs files key) (hkvs : kvs'.element[key]? = kvs.element[key]?)
    (hfiles : files'[key]? = files[key]?) : HoldsAt codec toLattice kvs' files' key := by
  have hvalue : value kvs' key = value kvs key := by
    simp only [value, getD_eq_getD_getElem?, hkvs]
  unfold HoldsAt at h ⊢
  rw [hfiles, hkvs, hvalue]
  exact h

theorem value_of_getElem? {v : V} (h : kvs.element[key]? = some v) : value kvs key = v := by
  rw [value, getD_eq_getD_getElem?, h]
  rfl

theorem memory_get_fst (kvs : KVStore V) (key : Key) :
    ((memorySerializer codec ofLattice toLattice merge sizeOf missing).get kvs key).1 =
      (codec.serializeAsString (ofLattice (value kvs key)),
        if missing (value kvs key) then .keyDne
        else if kvs.contains key then .noError else .keyDne) := by
  rw [← at'_fst]
  rfl

section
variable (htwins : Twins ofLattice toLattice merge missing missingMessage update)
include htwins

/-- **One GET**: the two answers agree. -/
theorem get_sameAnswer (h : HoldsAt codec toLattice kvs files key) :
    SameAnswer (fun payload => toLattice (codec.parseFromString payload).1)
      (some ((memorySerializer codec ofLattice toLattice merge sizeOf missing).get kvs key).1)
      (some ((diskSerializer codec missingMessage update).get files key).1) := by
  rw [memory_get_fst]
  change SameAnswer _ _ (some (diskGet codec missingMessage files key))
  unfold diskGet
  cases hfile : files[key]? with
  | none =>
    rw [holdsAt_none hfile] at h
    rw [h, htwins.missing_default, if_pos rfl]
    exact ⟨rfl, Or.inr rfl, fun herror => by cases herror⟩
  | some =>
    rw [holdsAt_some hfile] at h
    obtain ⟨m, rfl, hkvs⟩ := h
    have hcontains : kvs.contains key = true := by
      rw [MapLattice.contains, contains_eq_isSome_getElem?, hkvs]
      rfl
    simp only [codec.parse_serialize, value_of_getElem? hkvs, hcontains, htwins.missing_to]
    by_cases hmissing : missing (toLattice m) = true
    · simp [hmissing, SameAnswer]
    · simp [hmissing, SameAnswer, codec.parse_serialize, htwins.to_of]

theorem diskPut_self (h : HoldsAt codec toLattice kvs files key) (serialized : String) :
    ∃ m, (diskPut codec update files key serialized).2[key]? = some (codec.serializeAsString m) ∧
      toLattice m = merge (value kvs key) (toLattice (codec.parseFromString serialized).1) := by
  unfold diskPut
  cases hfile : files[key]? with
  | none =>
    rw [holdsAt_none hfile] at h
    refine ⟨(codec.parseFromString serialized).1, getElem?_insert_self, ?_⟩
    rw [h, htwins.merge_default]
  | some =>
    rw [holdsAt_some hfile] at h
    obtain ⟨m, rfl, hkvs⟩ := h
    refine ⟨(update m (codec.parseFromString serialized).1).getD m, ?_, ?_⟩
    · simp only [codec.parse_serialize]
      cases update m (codec.parseFromString serialized).1 with
      | none => exact hfile
      | some => exact getElem?_insert_self
    · rw [htwins.update_to, value_of_getElem? hkvs]

end

theorem diskPut_other {key' : Key} (serialized : String) (hkey : key ≠ key') :
    (diskPut codec update files key serialized).2[key']? = files[key']? := by
  have hinsert : ∀ content, (files.insert key content)[key']? = files[key']? :=
    fun content => getElem?_insert.trans (if_neg (by simpa using hkey))
  unfold diskPut
  cases files[key]? with
  | none => exact hinsert _
  | some =>
    dsimp only
    split
    · rfl
    · split
      · exact hinsert _
      · rfl

/-- **One PUT**: the file follows the lattice. -/
theorem put_holdsAt (sizeOf : V → Nat)
    (htwins : Twins ofLattice toLattice merge missing missingMessage update)
    (h : ∀ key, HoldsAt codec toLattice kvs files key) (key : Key) (serialized : String)
    (key' : Key) :
    HoldsAt codec toLattice
      ((memorySerializer codec ofLattice toLattice merge sizeOf missing).put kvs key serialized).2
      ((diskSerializer codec missingMessage update).put files key serialized).2 key' := by
  rw [memorySerializer_put]
  by_cases hkey : key = key'
  · subst hkey
    obtain ⟨m, hput, hm⟩ := diskPut_self htwins (h key) serialized
    refine (holdsAt_some hput).mpr ⟨m, rfl, ?_⟩
    rw [getElem?_put, if_pos rfl, hm]
  · refine (h key').congr ?_ (diskPut_other serialized hkey)
    rw [getElem?_put, if_neg hkey]

/-- **One GET**: it may create the default lattice, where there is no file. -/
theorem get_holdsAt (h : ∀ key, HoldsAt codec toLattice kvs files key) (key key' : Key) :
    HoldsAt codec toLattice (kvs.at' key).2 files key' := by
  have hget := getElem?_at' kvs key key'
  by_cases hkey : key = key'
  · subst hkey
    rw [if_pos rfl] at hget
    cases hfile : files[key]? with
    | none =>
      have hdefault := (holdsAt_none hfile).mp (h key)
      exact (holdsAt_none hfile).mpr ((value_of_getElem? hget).trans hdefault)
    | some =>
      obtain ⟨m, hcontent, hkvs⟩ := (holdsAt_some hfile).mp (h key)
      exact (holdsAt_some hfile).mpr ⟨m, hcontent, by rw [hget, value_of_getElem? hkvs]⟩
  · rw [if_neg hkey] at hget
    exact (h key').congr hget rfl

/-- **One removal**: both are gone. -/
theorem remove_holdsAt (h : ∀ key, HoldsAt codec toLattice kvs files key) (key key' : Key) :
    HoldsAt codec toLattice (kvs.remove key) (files.erase key) key' := by
  by_cases hkey : key = key'
  · subst hkey
    exact (holdsAt_none getElem?_erase_self).mpr getD_erase_self
  · exact (h key').congr (getElem?_erase.trans (if_neg (by simpa using hkey)))
      (getElem?_erase.trans (if_neg (by simpa using hkey)))

/-- **Twins stay in step**: every call keeps lattices and files together, and every
GET gives the same answer. -/
theorem twins_lockstep (htwins : Twins ofLattice toLattice merge missing missingMessage update) :
    Lockstep (memorySerializer codec ofLattice toLattice merge sizeOf missing).step
      (diskSerializer codec missingMessage update).step
      (fun kvs files => ∀ key, HoldsAt codec toLattice kvs files key)
      (SameAnswer fun payload => toLattice (codec.parseFromString payload).1) where
  answer h op := by
    cases op with
    | put => trivial
    | get key => exact get_sameAnswer htwins (h key)
    | remove => trivial
  next h op := by
    cases op with
    | put key serialized => exact put_holdsAt sizeOf htwins h key serialized
    | get key => exact get_holdsAt h key
    | remove key => exact remove_holdsAt h key

theorem twins_outputs (codec : Codec M) (sizeOf : V → Nat)
    (htwins : Twins ofLattice toLattice merge missing missingMessage update)
    (ops : List StoreOp) :
    List.Forall₂ (SameAnswer fun payload => toLattice (codec.parseFromString payload).1)
      (outputs (memorySerializer codec ofLattice toLattice merge sizeOf missing).step ⊥ ops)
      (outputs (diskSerializer codec missingMessage update).step ∅ ops) := by
  have hempty : ∀ key, HoldsAt codec toLattice (⊥ : KVStore V) (∅ : Files) key :=
    fun key => (holdsAt_none getElem?_empty).mpr getD_empty
  exact (twins_lockstep htwins).outputs hempty ops

end Twins

/-! ## The four types -/

theorem twins_lww : Twins ofLww toLww LWWPairLattice.doMerge (fun val => val.value == "")
    (fun value => value.value == "") updateLWW where
  to_of := toLww_ofLww
  missing_to _ := rfl
  missing_default := rfl
  merge_default v := if_pos (UInt64.zero_le)
  update_to m m' := by
    unfold updateLWW LWWPairLattice.doMerge
    by_cases hnewer : m'.timestamp ≥ m.timestamp
    · rw [if_pos hnewer, if_pos (by exact hnewer)]
      rfl
    · rw [if_neg hnewer, if_neg (by exact hnewer)]
      rfl

theorem setOf_size_eq_zero (values : List String) :
    ((setOf values).size == 0) = (values.length == 0) := by
  have hempty : (setOf values).size = 0 ↔ values.length = 0 := by
    rw [SetLattice.size_eq_zero_iff, List.length_eq_zero_iff]
    constructor
    · intro h
      refine List.eq_nil_iff_forall_not_mem.mpr fun x hx => ?_
      rw [← mem_setOf, h] at hx
      exact absurd hx ExtTreeSet.not_mem_empty
    · rintro rfl
      rfl
  rw [Bool.eq_iff_iff, beq_iff_eq, beq_iff_eq, hempty]

theorem twins_set : Twins ofSet toSet (· ⊔ ·) (fun val => val.size == 0)
    (fun value => value.values.length == 0) updateSet where
  to_of := toSet_ofSet
  missing_to m := (setOf_size_eq_zero m.values).symm
  missing_default := rfl
  merge_default := bot_sup_eq
  update_to m m' := by
    refine SetLattice.ext (ExtTreeSet.ext_mem fun x => ?_)
    rw [SetLattice.mem_sup]
    simp only [updateSet, Option.getD_some, toSet, mem_setOf, ExtTreeSet.mem_toList,
      Lib.mem_insertAll]
    simp

theorem twins_singleCausal : Twins ofCausal toVectorClockValuePair SingleKeyCausalLattice.doMerge
    (fun val => val.value.size == 0) (fun value => value.values.length == 0)
    updateSingleKeyCausal where
  to_of := toVectorClockValuePair_ofCausal
  missing_to m := (setOf_size_eq_zero m.values).symm
  missing_default := rfl
  merge_default v := by
    apply SingleKeyCausalLattice.toVersion.injective
    rw [SingleKeyCausalLattice.toVersion_doMerge]
    exact DominatingVersions.absorb_dominating bot_le
  update_to m m' := toVectorClockValuePair_ofCausal _

theorem twins_multiCausal : Twins ofMultiKeyCausal toMultiKeyCausalPayload
    MultiKeyCausalLattice.doMerge (fun val => val.value.size == 0)
    (fun value => value.values.length == 0) updateMultiKeyCausal where
  to_of := toMultiKeyCausalPayload_ofMultiKeyCausal
  missing_to m := (setOf_size_eq_zero m.values).symm
  missing_default := rfl
  merge_default v := by
    apply MultiKeyCausalLattice.toVersion.injective
    rw [MultiKeyCausalLattice.toVersion_doMerge]
    exact DominatingVersions.absorb_dominating bot_le
  update_to m m' := toMultiKeyCausalPayload_ofMultiKeyCausal _

/-- **The tiers are observationally equal** for LWW, sets and both kinds of causal
values: whatever is put, read and removed, from empty stores, every read has the same
error in both tiers, and the payloads of a read without an error decode to the same
lattice. -/
theorem tiers_observationally_equal {D : Type} [Priority D] (codecs : ValueCodecs D)
    (ops : List StoreOp) :
    List.Forall₂ (SameAnswer fun payload => toLww (codecs.lww.parseFromString payload).1)
        (outputs (memoryLWWSerializer codecs).step ⊥ ops)
        (outputs (diskLWWSerializer codecs).step ∅ ops) ∧
      List.Forall₂ (SameAnswer fun payload => toSet (codecs.set.parseFromString payload).1)
        (outputs (memorySetSerializer codecs).step ⊥ ops)
        (outputs (diskSetSerializer codecs).step ∅ ops) ∧
      List.Forall₂ (SameAnswer fun payload =>
          toVectorClockValuePair (codecs.singleCausal.parseFromString payload).1)
        (outputs (memorySingleKeyCausalSerializer codecs).step ⊥ ops)
        (outputs (diskSingleKeyCausalSerializer codecs).step ∅ ops) ∧
      List.Forall₂ (SameAnswer fun payload =>
          toMultiKeyCausalPayload (codecs.multiCausal.parseFromString payload).1)
        (outputs (memoryMultiKeyCausalSerializer codecs).step ⊥ ops)
        (outputs (diskMultiKeyCausalSerializer codecs).step ∅ ops) :=
  ⟨twins_outputs codecs.lww _ twins_lww ops, twins_outputs codecs.set _ twins_set ops,
    twins_outputs codecs.singleCausal _ twins_singleCausal ops,
    twins_outputs codecs.multiCausal _ twins_multiCausal ops⟩

end Testbed.Anna
