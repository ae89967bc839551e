import Testbed.Anna.PriorityTiers

/-! # Reads that change the store

`KVStore::get` reads through `operator[]`, which makes an entry where there is none.  Most
serializers of the memory tier do not tell that entry from none: their `get` reports a
default value as missing.  `MemoryOrderedSetSerializer` has no such test, and the second read
of a key that was never put finds an empty set (`readsPure_iff`).  The disk tier opens the
file for reading, and makes none.
-/
namespace Testbed.Anna

open Std Lib
open KVStore Std.ExtTreeMap

/-- The key has been put since it was last removed. -/
def putSince (k : Key) (run : List StoreOp) : Bool :=
  run.foldl (fun since op =>
    match op with
    | .put key _ => if key = k then true else since
    | .get _ => since
    | .remove key => if key = k then false else since) false

theorem putSince_concat (k : Key) (run : List StoreOp) (op : StoreOp) : putSince k (run ++ [op]) =
      match op with
      | .put key _ => if key = k then true else putSince k run
      | .get _ => putSince k run
      | .remove key => if key = k then false else putSince k run := by
  unfold putSince
  rw [List.foldl_append]
  rfl

/-- The answers have the same error and decode to the same payload. -/
def SameRead {V : Type} (decode : String → V) :
    Option (String × AnnaError) → Option (String × AnnaError) → Prop
  | some res, some res' => res.2 = res'.2 ∧ decode res.1 = decode res'.1
  | none, none => True
  | _, _ => False

variable {V : Type}

theorem SameRead.refl (decode : String → V) (answer : Option (String × AnnaError)) :
    SameRead decode answer answer := by
  cases answer with
  | none => trivial
  | some => exact ⟨rfl, rfl⟩

/-- The answers to the calls after a run. -/
def Serializer.answers {σ : Type} (ser : Serializer σ) (start : σ) (before ops : List StoreOp) :
    List (Option (String × AnnaError)) :=
  outputs ser.step (finalState ser.step start before) ops

/-- **A read of the key is not noticed** after the run: with it and without it all later reads
have the same answers, and if the key has not been put, or was removed, repeated reads all
report that. -/
structure Serializer.ReadsPure {σ V : Type} (ser : Serializer σ) (decode : String → V) (start : σ)
    (before : List StoreOp) (k : Key) : Prop where
  frame : ∀ ops, List.Forall₂ (SameRead decode) (ser.answers start before ops)
    (ser.answers start (before ++ [.get k]) ops)
  missing : putSince k before = false → ∀ n,
    ∀ answer ∈ ser.answers start before (List.replicate n (.get k)),
      ∃ payload, answer = some (payload, .keyDne)

/-! ## Serializers that hide what a read does -/

section
variable {σ : Type}

/-- `R` relates stores that no read tells apart, and in a store where `Absent k` a read of `k`
reports that the key does not exist. -/
structure Serializer.Hides (ser : Serializer σ) (start : σ) (R : σ → σ → Prop)
    (Absent : Key → σ → Prop) : Prop where
  lockstep : Lockstep ser.step ser.step R Eq
  read : ∀ store k, R store (ser.get store k).2
  start : ∀ k, Absent k start
  put : ∀ {k key store} serialized, key ≠ k → Absent k store →
    Absent k (ser.put store key serialized).2
  get : ∀ {k store} key, Absent k store → Absent k (ser.get store key).2
  remove : ∀ {k key store}, key = k ∨ Absent k store → Absent k (ser.remove store key)
  missing : ∀ {k store}, Absent k store → (ser.get store k).1.2 = .keyDne

variable {ser : Serializer σ} {start : σ} {R : σ → σ → Prop} {Absent : Key → σ → Prop} {k : Key}
  {run : List StoreOp}

theorem Serializer.Hides.absent (h : ser.Hides start R Absent) (hrun : putSince k run = false) :
    Absent k (finalState ser.step start run) := by
  induction run using List.reverseRecOn with
  | nil => exact h.start k
  | append_singleton _ op ih =>
    rw [putSince_concat] at hrun
    rw [finalState_concat]
    cases op with
    | put key serialized =>
      dsimp only at hrun
      by_cases hkey : key = k
      · rw [if_pos hkey] at hrun
        cases hrun
      · rw [if_neg hkey] at hrun
        exact h.put serialized hkey (ih hrun)
    | get key => exact h.get key (ih hrun)
    | remove key =>
      dsimp only at hrun
      by_cases hkey : key = k
      · exact h.remove (Or.inl hkey)
      · rw [if_neg hkey] at hrun
        exact h.remove (Or.inr (ih hrun))

theorem Serializer.Hides.reads (h : ser.Hides start R Absent) {store : σ}
    (habsent : Absent k store) (n : Nat) :
    ∀ answer ∈ outputs ser.step store (List.replicate n (.get k)),
      ∃ payload, answer = some (payload, .keyDne) := by
  induction n generalizing store with
  | zero =>
    intro answer hmem
    cases hmem
  | succ _ ih =>
    intro answer hmem
    rw [List.replicate_succ, outputs, List.mem_cons] at hmem
    rcases hmem with rfl | hmem
    · exact ⟨(ser.get store k).1.1, congrArg some (Prod.ext rfl (h.missing habsent))⟩
    · exact ih (h.get k habsent) answer hmem

theorem Serializer.Hides.readsPure (h : ser.Hides start R Absent) (decode : String → V)
    (before : List StoreOp) (k : Key) : ser.ReadsPure decode start before k := by
  constructor
  · intro ops
    unfold Serializer.answers
    rw [finalState_concat]
    refine (h.lockstep.outputs (h.read _ k) ops).imp ?_
    rintro answer _ rfl
    exact SameRead.refl decode answer
  · intro hbefore n
    exact h.reads (h.absent hbefore) n

end

/-! ## Memory -/

section
variable {V M : Type} [Inhabited V] [Inhabited M] {codec : Codec M} {ofLattice : V → M}
  {toLattice : M → V} {merge : V → V → V} {sizeOf : V → Nat} {missing : V → Bool}

theorem KVStore.value_remove (kvs : KVStore V) (key key' : Key) : value (kvs.remove key) key' =
      if key = key' then default else value kvs key' := by
  change (kvs.element.erase key).getD key' default = _
  rw [getD_erase]
  simp only [Std.compare_eq_iff_eq]
  rfl

theorem KVStore.contains_put (kvs : KVStore V) (key : Key) (v : V) (key' : Key) :
    (put merge kvs key v).contains key' = true ↔ key = key' ∨ kvs.contains key' = true := by
  simp only [MapLattice.contains, contains_eq_isSome_getElem?, getElem?_put]
  by_cases hkey : key = key'
  · simp [hkey]
  · simp [hkey]

theorem memory_get_of_missing (hmissing : missing default = true) (kvs : KVStore V) (key : Key) :
    ((memorySerializer codec ofLattice toLattice merge sizeOf missing).get kvs key).1 =
      (codec.serializeAsString (ofLattice (value kvs key)),
        if missing (value kvs key) then .keyDne else .noError) := by
  rw [memory_get_fst]
  by_cases hcontains : kvs.contains key = true
  · rw [if_pos hcontains]
  · have hvalue : value kvs key = default := getD_eq_fallback hcontains
    rw [if_neg hcontains, hvalue, if_pos hmissing, if_pos hmissing]

/-- The stores hold the same values; an entry may be there in one of them only. -/
def SameValues (kvs kvs' : KVStore V) : Prop :=
  ∀ key, value kvs key = value kvs' key

theorem sameValues_lockstep (hmissing : missing default = true) :
    Lockstep (memorySerializer codec ofLattice toLattice merge sizeOf missing).step
      (memorySerializer codec ofLattice toLattice merge sizeOf missing).step SameValues Eq := by
  constructor
  · intro kvs kvs' h op
    cases op with
    | put => rfl
    | get key =>
      refine congrArg some ?_
      rw [memory_get_of_missing hmissing, memory_get_of_missing hmissing, h key]
    | remove => rfl
  · intro kvs kvs' h op key'
    cases op with
    | put key =>
      simp [Serializer.step, memorySerializer_put, value_put, h key, h key']
    | get key =>
      exact (get_frame kvs key' key .noError).1.trans
        ((h key').trans (get_frame kvs' key' key .noError).1.symm)
    | remove key =>
      change value (kvs.remove key) key' = value (kvs'.remove key) key'
      rw [value_remove, value_remove, h key']

theorem memorySerializer_hides (hmissing : missing default = true) :
    (memorySerializer codec ofLattice toLattice merge sizeOf missing).Hides ⊥ SameValues
      fun k kvs => value kvs k = default where
  lockstep := sameValues_lockstep hmissing
  read kvs k key := (get_frame kvs key k .noError).1.symm
  start _ := rfl
  put serialized hkey habsent := by
    rw [memorySerializer_put, value_put, if_neg hkey]
    exact habsent
  get key habsent := (get_frame _ _ key .noError).1.trans habsent
  remove {k key kvs} h := by
    change value (kvs.remove key) k = default
    rw [value_remove]
    split
    · rfl
    · exact h.resolve_left ‹_›
  missing {k kvs} habsent := by
    rw [memory_get_of_missing hmissing, habsent, if_pos hmissing]

end

/-! ## Disk -/

section
variable {D : Type} [Priority D]

theorem hides_of_files {ser : Serializer Files} (hget : ∀ files key, (ser.get files key).2 = files)
    (hput : ∀ {files : Files} {key key' : Key} (serialized : String), key ≠ key' →
      (ser.put files key serialized).2[key']? = files[key']?)
    (hremove : ∀ files key, ser.remove files key = files.erase key)
    (hmissing : ∀ {files : Files} {key : Key}, files[key]? = none →
      (ser.get files key).1.2 = .keyDne) :
    ser.Hides ∅ Eq fun k files => files[k]? = none where
  lockstep := ⟨fun h op => by rw [h], fun h op => by rw [h]⟩
  read files k := (hget files k).symm
  start _ := getElem?_empty
  put serialized hkey habsent := (hput serialized hkey).trans habsent
  get key habsent := by
    rw [hget]
    exact habsent
  remove {k key files} h := by
    rw [hremove, getElem?_erase]
    simp only [Std.compare_eq_iff_eq]
    split
    · rfl
    · exact h.resolve_left ‹_›
  missing habsent := hmissing habsent

theorem diskGet_of_none {M : Type} [Inhabited M] {codec : Codec M} {missing : M → Bool}
    {files : Files} {key : Key} (h : files[key]? = none) :
    (diskGet codec missing files key).2 = .keyDne := by
  rw [diskGet, h]

theorem diskSerializer_hides {M : Type} [Inhabited M] {codec : Codec M} {missing : M → Bool}
    {update : M → M → Option M} :
    (diskSerializer codec missing update).Hides ∅ Eq fun k files => files[k]? = none :=
  hides_of_files (fun _ _ => rfl) (fun serialized hkey => diskPut_other serialized hkey)
    (fun _ _ => rfl) diskGet_of_none

theorem diskPrioritySerializer_hides (codecs : ValueCodecs D) :
    (diskPrioritySerializer codecs).Hides ∅ Eq fun k files => files[k]? = none :=
  hides_of_files (fun _ _ => rfl) (fun {files key key'} serialized hkey => by
      have hinsert : ∀ content, (files.insert key content)[key']? = files[key']? :=
        fun content => getElem?_insert.trans (if_neg (by simpa using hkey))
      unfold diskPrioritySerializer
      dsimp only
      split <;> exact hinsert _)
    (fun _ _ => rfl) diskGet_of_none

end

/-! ## Ordered sets in memory -/

section OrderedSet
variable {D : Type} [Priority D] (codecs : ValueCodecs D)

theorem memoryOrderedSet_get {kvs : KVStore (SetLattice String)} (h : kvs.contains k = true) :
    ((memoryOrderedSetSerializer codecs).get kvs k).2 = kvs := by
  rw [MapLattice.contains, contains_eq_isSome_getElem?] at h
  obtain ⟨v, hv⟩ := Option.isSome_iff_exists.mp h
  exact at'_snd_of_some hv

variable (kvs : KVStore (SetLattice String))

theorem memoryOrderedSet_put (key : Key) (serialized : String) :
    ((memoryOrderedSetSerializer codecs).put kvs key serialized).2 =
      put (· ⊔ ·) kvs key (toSet (codecs.set.parseFromString serialized).1) := by
  have hthere := getElem?_put (· ⊔ ·) kvs key (toSet (codecs.set.parseFromString serialized).1) key
  rw [if_pos rfl] at hthere
  exact at'_snd_of_some hthere

theorem memoryOrderedSet_contains (hrun : putSince k run = true) :
    (finalState (memoryOrderedSetSerializer codecs).step ⊥ run).contains k = true := by
  induction run using List.reverseRecOn with
  | nil => cases hrun
  | append_singleton run op ih =>
    rw [putSince_concat] at hrun
    rw [finalState_concat]
    generalize finalState (memoryOrderedSetSerializer codecs).step ⊥ run = kvs at ih ⊢
    cases op with
    | put key serialized =>
      change ((memoryOrderedSetSerializer codecs).put kvs key serialized).2.contains k = true
      dsimp only at hrun
      rw [memoryOrderedSet_put, contains_put]
      by_cases hkey : key = k
      · exact Or.inl hkey
      · rw [if_neg hkey] at hrun
        exact Or.inr (ih hrun)
    | get key => exact (get_frame kvs k key .noError).2 (ih hrun)
    | remove key =>
      change (kvs.remove key).contains k = true
      dsimp only at hrun
      by_cases hkey : key = k
      · rw [if_pos hkey] at hrun
        cases hrun
      · rw [if_neg hkey] at hrun
        rw [MapLattice.contains, MapLattice.remove, contains_eq_isSome_getElem?,
          getElem?_erase, if_neg (by simpa using hkey),
          ← contains_eq_isSome_getElem?]
        exact ih hrun

theorem memoryOrderedSet_second_read (k : Key) : ((memoryOrderedSetSerializer codecs).get
      ((memoryOrderedSetSerializer codecs).get kvs k).2 k).1.2 = .noError := by
  refine (get_error _ k).mpr ?_
  change (kvs.at' k).2.contains k = true
  rw [MapLattice.contains, contains_eq_isSome_getElem?, getElem?_at', if_pos rfl]
  rfl

variable {codecs} in
theorem memoryOrderedSet_readsPure_iff {decode : String → V} {before : List StoreOp} :
    (memoryOrderedSetSerializer codecs).ReadsPure decode ⊥ before k ↔ putSince k before = true := by
  constructor
  · intro h
    by_contra hput
    obtain ⟨_, hsecond⟩ := h.missing (Bool.eq_false_of_not_eq_true hput) 2 _
      (List.mem_cons_of_mem _ List.mem_cons_self)
    have herror := (memoryOrderedSet_second_read codecs _ k).symm.trans
      (congrArg Prod.snd (Option.some.inj hsecond))
    cases herror
  · intro hput
    constructor
    · intro ops
      have hread := memoryOrderedSet_get codecs (memoryOrderedSet_contains codecs hput)
      unfold Serializer.answers
      rw [finalState_concat]
      change List.Forall₂ _ _ (outputs _ ((memoryOrderedSetSerializer codecs).get _ k).2 ops)
      rw [hread]
      exact List.forall₂_same.mpr fun answer _ => SameRead.refl decode answer
    · intro hmissing
      rw [hput] at hmissing
      cases hmissing

end OrderedSet

/-! ## The twelve classes -/

/-- The serializer classes of `server_utils.hpp`. -/
inductive SerializerClass where
  | memoryLWW | memorySet | memoryOrderedSet | memorySingleKeyCausal | memoryMultiKeyCausal
  | memoryPriority
  | diskLWW | diskSet | diskOrderedSet | diskSingleKeyCausal | diskMultiKeyCausal | diskPriority

namespace SerializerClass
variable {D : Type} [Priority D]

/-- What the class works on. -/
def Store (D : Type) : SerializerClass → Type
  | memoryLWW => KVStore TimestampValuePair
  | memorySet => KVStore (SetLattice String)
  | memoryOrderedSet => KVStore (SetLattice String)
  | memorySingleKeyCausal => KVStore (VectorClockValuePair (SetLattice String))
  | memoryMultiKeyCausal => KVStore (MultiKeyCausalPayload (SetLattice String))
  | memoryPriority => KVStore (PriorityValuePair D)
  | _ => Files

/-- The store before the first call. -/
def start : (c : SerializerClass) → c.Store D
  | memoryLWW => (⊥ : KVStore TimestampValuePair)
  | memorySet => (⊥ : KVStore (SetLattice String))
  | memoryOrderedSet => (⊥ : KVStore (SetLattice String))
  | memorySingleKeyCausal => (⊥ : KVStore (VectorClockValuePair (SetLattice String)))
  | memoryMultiKeyCausal => (⊥ : KVStore (MultiKeyCausalPayload (SetLattice String)))
  | memoryPriority => (⊥ : KVStore (PriorityValuePair D))
  | diskLWW | diskSet | diskOrderedSet | diskSingleKeyCausal | diskMultiKeyCausal
  | diskPriority => (∅ : Files)

variable (codecs : ValueCodecs D)

def serializer : (c : SerializerClass) → Serializer (c.Store D)
  | memoryLWW => memoryLWWSerializer codecs
  | memorySet => memorySetSerializer codecs
  | memoryOrderedSet => memoryOrderedSetSerializer codecs
  | memorySingleKeyCausal => memorySingleKeyCausalSerializer codecs
  | memoryMultiKeyCausal => memoryMultiKeyCausalSerializer codecs
  | memoryPriority => memoryPrioritySerializer codecs
  | diskLWW => diskLWWSerializer codecs
  | diskSet => diskSetSerializer codecs
  | diskOrderedSet => diskOrderedSetSerializer codecs
  | diskSingleKeyCausal => diskSingleKeyCausalSerializer codecs
  | diskMultiKeyCausal => diskMultiKeyCausalSerializer codecs
  | diskPriority => diskPrioritySerializer codecs

theorem readsPure_of_ne {c : SerializerClass} (h : c ≠ memoryOrderedSet)
    (decode : String → V) (before : List StoreOp) (k : Key) :
    (c.serializer codecs).ReadsPure decode c.start before k := by
  cases c with
  | memoryLWW =>
    have hides : (memoryLWWSerializer codecs).Hides ⊥ SameValues _ :=
      memorySerializer_hides twins_lww.missing_default
    exact hides.readsPure decode before k
  | memorySet =>
    have hides : (memorySetSerializer codecs).Hides ⊥ SameValues _ :=
      memorySerializer_hides twins_set.missing_default
    exact hides.readsPure decode before k
  | memoryOrderedSet => exact absurd rfl h
  | memorySingleKeyCausal =>
    have hides : (memorySingleKeyCausalSerializer codecs).Hides ⊥ SameValues _ :=
      memorySerializer_hides twins_singleCausal.missing_default
    exact hides.readsPure decode before k
  | memoryMultiKeyCausal =>
    have hides : (memoryMultiKeyCausalSerializer codecs).Hides ⊥ SameValues _ :=
      memorySerializer_hides twins_multiCausal.missing_default
    exact hides.readsPure decode before k
  | memoryPriority =>
    have hides : (memoryPrioritySerializer codecs).Hides ⊥ SameValues _ :=
      memorySerializer_hides rfl
    exact hides.readsPure decode before k
  | diskPriority => exact (diskPrioritySerializer_hides codecs).readsPure decode before k
  | diskLWW | diskSet | diskOrderedSet | diskSingleKeyCausal | diskMultiKeyCausal =>
    exact diskSerializer_hides.readsPure decode before k

/-- **Reads do not change the store** in eleven of the classes; among ordered sets in memory
that is so for the keys that have been put and not been removed since. -/
theorem readsPure_iff (c : SerializerClass) {V : Type}
    (decode : String → V) (before : List StoreOp) (k : Key) :
    (c.serializer codecs).ReadsPure decode c.start before k ↔
      (c = memoryOrderedSet → putSince k before = true) := by
  by_cases hc : c = memoryOrderedSet
  · subst hc
    exact memoryOrderedSet_readsPure_iff.trans ⟨fun h _ => h, fun h => h rfl⟩
  · exact iff_of_true (readsPure_of_ne codecs hc decode before k) fun h => absurd h hc

end SerializerClass

/-- The first read of a key in an empty store reports that it does not exist, and the second
one finds an empty ordered set. -/
theorem second_read_finds_empty_set : ∃ (D : Type) (_ : Priority D) (codecs : ValueCodecs D),
    ¬ (memoryOrderedSetSerializer codecs).ReadsPure
      (fun payload => toSet (codecs.set.parseFromString payload).1) ⊥ [] "k" := by
  obtain ⟨codecs⟩ := ValueCodecs.nonempty Int
  refine ⟨Int, integerPriority, codecs, ?_⟩
  rw [memoryOrderedSet_readsPure_iff]
  decide

end Testbed.Anna
