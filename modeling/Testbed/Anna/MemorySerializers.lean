import Testbed.Anna.Server

/-! # Serializers of the memory tier

`base_kv_store.hpp` and the `Memory*Serializer` classes of `server_utils.hpp`.  A
`KVStore` is a `MapLattice` from keys to lattices; reading a key through
`operator[]` creates it.  The classes differ in the lattice, in its message and in
which values count as missing; the ordered sets have no value that does.
-/
namespace Testbed.Anna

open Std

/-! ## `KVStore` -/

/-- `KVStore<Key, V>`. -/
abbrev KVStore (V : Type) := MapLattice Key V

namespace KVStore
variable {V : Type} [Inhabited V] (db : KVStore V)

/-- `get`: the value, the error, and the store with the entry that `at` creates. -/
def get (k : Key) (error : AnnaError) : (V × AnnaError) × KVStore V :=
  let error := if db.contains k then error else .keyDne
  let (v, db) := db.at' k
  ((v, error), db)

variable (merge : V → V → V)

def put (db : KVStore V) (k : Key) (v : V) : KVStore V :=
  let (old, db) := db.at' k
  ⟨db.element.insert k (merge old v)⟩

/-- `size` of a value. -/
def size (sizeOf : V → Nat) (db : KVStore V) (k : Key) : Nat × KVStore V :=
  let (v, db) := db.at' k
  (sizeOf v, db)

/-- The value of a key; an absent one is the default. -/
def value (k : Key) : V := db.element.getD k default

theorem at'_fst (k : Key) : (db.at' k).1 = value db k := by
  unfold MapLattice.at' value
  rw [ExtTreeMap.getD_eq_getD_getElem?]
  cases db.element[k]? <;> rfl

theorem getElem?_at' (k k' : Key) : (db.at' k).2.element[k']? =
      if k = k' then some (value db k) else db.element[k']? := by
  unfold MapLattice.at' value
  rw [ExtTreeMap.getD_eq_getD_getElem?]
  cases h : db.element[k]? with
  | none => simp only [ExtTreeMap.getElem?_insert, Std.compare_eq_iff_eq, Option.getD_none]
  | some v =>
    by_cases hk : k = k'
    · subst hk
      simp [h]
    · simp [hk]

theorem at'_snd_of_some {db : KVStore V} {k : Key} {v : V} (h : db.element[k]? = some v) :
    (db.at' k).2 = db := by
  unfold MapLattice.at'
  rw [h]

theorem getElem?_put (db : KVStore V) (k : Key) (v : V) (k' : Key) :
    (put merge db k v).element[k']? =
      if k = k' then some (merge (value db k) v) else db.element[k']? := by
  change ((db.at' k).2.element.insert k (merge (db.at' k).1 v))[k']? = _
  simp only [ExtTreeMap.getElem?_insert, Std.compare_eq_iff_eq, at'_fst, getElem?_at']
  split <;> rfl

theorem value_put (db : KVStore V) (k : Key) (v : V) (k' : Key) :
    value (put merge db k v) k' = if k = k' then merge (value db k) v else value db k' := by
  simp only [value, ExtTreeMap.getD_eq_getD_getElem?, getElem?_put]
  split <;> rfl

end KVStore

open KVStore

/-! ## The classes -/

/-- `MemoryLWWSerializer` and its like, over the message type `M` of the lattice
`V`; `missing` are the values that count as absent. -/
def memorySerializer {V M : Type} [Inhabited V] [Inhabited M] (codec : Codec M)
    (ofLattice : V → M) (toLattice : M → V) (merge : V → V → V) (sizeOf : V → Nat)
    (missing : V → Bool) : Serializer (KVStore V) where
  get kvs key :=
    let ((val, error), kvs) := get kvs key .noError
    let error := if missing val then .keyDne else error
    ((codec.serializeAsString (ofLattice val), error), kvs)
  put kvs key serialized :=
    let val := toLattice (codec.parseFromString serialized).1
    let kvs := put merge kvs key val
    size sizeOf kvs key
  remove kvs key := kvs.remove key

/-- Protobuf for the messages that lattice values are stored in. -/
structure ValueCodecs (D : Type) [Priority D] where
  lww : Codec LWWValue
  set : Codec SetValue
  singleCausal : Codec SingleKeyCausalValue
  multiCausal : Codec MultiKeyCausalValue
  priority : Codec (PriorityValue D)

section
variable {D : Type} [Priority D] (codecs : ValueCodecs D)

def memoryLWWSerializer : Serializer (KVStore TimestampValuePair) :=
  memorySerializer codecs.lww ofLww toLww LWWPairLattice.doMerge LWWPairLattice.size
    fun val => val.value == ""

def memorySetSerializer : Serializer (KVStore (SetLattice String)) :=
  memorySerializer codecs.set ofSet toSet (· ⊔ ·) SetLattice.size fun val => val.size == 0

/-- `MemoryOrderedSetSerializer`: no value counts as missing. -/
def memoryOrderedSetSerializer : Serializer (KVStore (SetLattice String)) where
  get kvs key :=
    let ((val, error), kvs) := get kvs key .noError
    ((codecs.set.serializeAsString (ofSet val), error), kvs)
  put kvs key serialized :=
    let sl := toSet (codecs.set.parseFromString serialized).1
    let kvs := put (· ⊔ ·) kvs key sl
    size SetLattice.size kvs key
  remove kvs key := kvs.remove key

def memorySingleKeyCausalSerializer :
    Serializer (KVStore (VectorClockValuePair (SetLattice String))) :=
  memorySerializer codecs.singleCausal ofCausal toVectorClockValuePair
    SingleKeyCausalLattice.doMerge SingleKeyCausalLattice.size fun val => val.value.size == 0

def memoryMultiKeyCausalSerializer :
    Serializer (KVStore (MultiKeyCausalPayload (SetLattice String))) :=
  memorySerializer codecs.multiCausal ofMultiKeyCausal toMultiKeyCausalPayload
    MultiKeyCausalLattice.doMerge MultiKeyCausalLattice.size fun val => val.value.size == 0

def memoryPrioritySerializer : Serializer (KVStore (PriorityValuePair D)) :=
  memorySerializer codecs.priority ofPriority toPriority PriorityLattice.doMerge
    PriorityLattice.size fun val => val.value == ""

end

/-! ## The serializers of a thread of the memory tier -/

/-- The six stores of a thread. -/
structure MemoryStore (D : Type) where
  lww : KVStore TimestampValuePair
  set : KVStore (SetLattice String)
  orderedSet : KVStore (SetLattice String)
  singleCausal : KVStore (VectorClockValuePair (SetLattice String))
  multiCausal : KVStore (MultiKeyCausalPayload (SetLattice String))
  priority : KVStore (PriorityValuePair D)

instance {D : Type} : Inhabited (MemoryStore D) := ⟨⟨⊥, ⊥, ⊥, ⊥, ⊥, ⊥⟩⟩

/-- A serializer that works on a part of a larger store. -/
def Serializer.onPart {σ τ : Type} (part : τ → σ) (setPart : τ → σ → τ) (ser : Serializer σ) :
    Serializer τ where
  get store key :=
    let (res, p) := ser.get (part store) key
    (res, setPart store p)
  put store key serialized :=
    let (size, p) := ser.put (part store) key serialized
    (size, setPart store p)
  remove store key := setPart store (ser.remove (part store) key)

/-- Reading leaves every readable key readable. -/
def Serializer.ReadsKeep {σ : Type} (ser : Serializer σ) : Prop :=
  ∀ {store key} (key' : Key), ser.Readable store key → ser.Readable (ser.get store key').2 key

theorem Serializer.ReadsKeep.onPart {σ τ : Type} {part : τ → σ} {setPart : τ → σ → τ}
    {ser : Serializer σ} (h : ser.ReadsKeep) (hpart : ∀ t p, part (setPart t p) = p) :
    (ser.onPart part setPart).ReadsKeep := by
  intro store key key' hread
  change ser.Readable (part (setPart store (ser.get (part store) key').2)) key
  rw [hpart]
  exact h key' hread

section
variable {V M : Type} [Inhabited V] [Inhabited M] {codec : Codec M} {ofLattice : V → M}
  {toLattice : M → V} {merge : V → V → V} {sizeOf : V → Nat} {missing : V → Bool}

variable (kvs : KVStore V) (key : Key)

theorem KVStore.get_error : (get kvs key .noError).1.2 = .noError ↔ kvs.contains key = true := by
  simp only [get]
  split <;> simp_all

theorem KVStore.get_frame (key key' : Key) (error : AnnaError) :
    value (get kvs key' error).2 key = value kvs key ∧
      (kvs.contains key = true → (get kvs key' error).2.contains key = true) := by
  have hget := getElem?_at' kvs key' key
  constructor
  · simp only [get, value, ExtTreeMap.getD_eq_getD_getElem?, hget]
    split
    · rename_i h
      simp only [h, Option.getD_some]
    · rfl
  · simp only [get, MapLattice.contains, ← ExtTreeMap.mem_iff_contains,
      ExtTreeMap.mem_iff_isSome_getElem?, hget]
    split <;> simp

theorem memorySerializer_readable :
    (memorySerializer codec ofLattice toLattice merge sizeOf missing).Readable kvs key ↔
      missing (value kvs key) = false ∧ kvs.contains key = true := by
  have hval : (get kvs key .noError).1.1 = value kvs key := at'_fst kvs key
  change (if missing (get kvs key .noError).1.1 then _ else
    (get kvs key .noError).1.2) = _ ↔ _
  split
  · simp_all
  · rw [get_error]
    simp_all

theorem memorySerializer_put (serialized : String) :
    ((memorySerializer codec ofLattice toLattice merge sizeOf missing).put kvs key serialized).2 =
      put merge kvs key (toLattice (codec.parseFromString serialized).1) := by
  have hthere := getElem?_put merge kvs key (toLattice (codec.parseFromString serialized).1) key
  rw [if_pos rfl] at hthere
  exact at'_snd_of_some hthere

theorem memorySerializer_readable_put (serialized : String) :
    (memorySerializer codec ofLattice toLattice merge sizeOf missing).Readable
        ((memorySerializer codec ofLattice toLattice merge sizeOf missing).put kvs key serialized).2
        key ↔
      missing (merge (value kvs key) (toLattice (codec.parseFromString serialized).1)) =
        false := by
  rw [memorySerializer_put, memorySerializer_readable, value_put, if_pos rfl, and_iff_left]
  rw [MapLattice.contains, ExtTreeMap.contains_eq_isSome_getElem?, getElem?_put, if_pos rfl]
  rfl

theorem memorySerializer_readsKeep :
    (memorySerializer codec ofLattice toLattice merge sizeOf missing).ReadsKeep := by
  intro kvs key key' h
  rw [memorySerializer_readable] at h ⊢
  obtain ⟨hval, hcontains⟩ := get_frame kvs key key' .noError
  exact ⟨hval ▸ h.1, hcontains h.2⟩

theorem memoryOrderedSetSerializer_readsKeep {D : Type} [Priority D] {codecs : ValueCodecs D} :
    (memoryOrderedSetSerializer codecs).ReadsKeep := by
  intro kvs key key' h
  have hcontains := (get_error kvs key).mp h
  exact (get_error _ key).mpr ((get_frame kvs key key' .noError).2 hcontains)

end

section
variable {D : Type} [Priority D] (codecs : ValueCodecs D)

/-- The serializer that `serializers[type]` points to. -/
def memoryEntry : LatticeType → Option (Serializer (MemoryStore D))
  | .none => none
  | .lww => some ((memoryLWWSerializer codecs).onPart (·.lww) fun s p => { s with lww := p })
  | .set => some ((memorySetSerializer codecs).onPart (·.set) fun s p => { s with set := p })
  | .orderedSet => some ((memoryOrderedSetSerializer codecs).onPart (·.orderedSet)
      fun s p => { s with orderedSet := p })
  | .singleCausal => some ((memorySingleKeyCausalSerializer codecs).onPart (·.singleCausal)
      fun s p => { s with singleCausal := p })
  | .multiCausal => some ((memoryMultiKeyCausalSerializer codecs).onPart (·.multiCausal)
      fun s p => { s with multiCausal := p })
  | .priority => some ((memoryPrioritySerializer codecs).onPart (·.priority)
      fun s p => { s with priority := p })

variable {ser : Serializer (MemoryStore D)} {codecs} in
theorem memoryEntry_readsKeep {type : LatticeType} (h : memoryEntry codecs type = some ser) :
    ser.ReadsKeep := by
  cases type <;> cases h
  case orderedSet => exact memoryOrderedSetSerializer_readsKeep.onPart fun _ _ => rfl
  all_goals exact Serializer.ReadsKeep.onPart memorySerializer_readsKeep fun _ _ => rfl

variable {codecs} in
theorem memoryEntry_independent {type type' : LatticeType} {ser' : Serializer (MemoryStore D)}
    (h : memoryEntry codecs type = some ser) (h' : memoryEntry codecs type' = some ser')
    (hne : type ≠ type') (store : MemoryStore D) (key key' : Key) :
    ser.Readable (ser'.get store key').2 key ↔ ser.Readable store key := by
  cases type <;> cases h <;> cases type' <;> cases h' <;>
    first | exact absurd rfl hne | exact Iff.rfl

variable {codecs} in
theorem memoryEntry_lww_readable (h : memoryEntry codecs .lww = some ser) (store : MemoryStore D)
    (key : Key) (serialized : String) :
    ser.Readable (ser.put store key serialized).2 key ↔
      (LWWPairLattice.doMerge (value store.lww key)
        (toLww (codecs.lww.parseFromString serialized).1)).value ≠ "" := by
  cases h
  change (memoryLWWSerializer codecs).Readable
    ((memoryLWWSerializer codecs).put store.lww key serialized).2 key ↔ _
  rw [memoryLWWSerializer, memorySerializer_readable_put, beq_eq_false_iff_ne]

/-- The serializers that a thread of the memory tier sets up. -/
def memorySerializers : SerializerMap (MemoryStore D) where
  entry := memoryEntry codecs
  entry_eq_none {type} := by cases type <;> simp [memoryEntry]
  get_readable {type type' ser ser'} h h' store key key' hread := by
    by_cases htype : type = type'
    · subst htype
      rw [h] at h'
      obtain rfl := Option.some.inj h'
      exact memoryEntry_readsKeep h key' hread
    · exact (memoryEntry_independent h h' htype store key key').mpr hread

/-- A thread of a memory node with one thread, where every replication factor is
`1` by default. -/
def memoryServer (repCodec : Codec ReplicationFactor) (strHash : String → UInt64)
    (wt : ServerThread) : Server where
  selfTier := .memory
  threadNum := 1
  defaultReplication _ := 1
  defaultLocalReplication := 1
  strHash := strHash
  randR seed := (0, seed)
  lwwValue := codecs.lww
  replicationFactor := repCodec
  wt := wt
  selfJoinCount := 0
  Store := MemoryStore D
  serializers := memorySerializers codecs

end

/-! ## Values as text -/

/-- An overload of `serialize`: the text of the lattice's message. -/
def serialize {V M : Type} [Inhabited M] (codec : Codec M) (ofLattice : V → M) (l : V) : String :=
  codec.serializeAsString (ofLattice l)

/-- A function `deserialize_*`, with the conversion of the message that follows it. -/
def deserialize {V M : Type} [Inhabited M] (codec : Codec M) (toLattice : M → V)
    (serialized : String) : V :=
  toLattice (codec.parseFromString serialized).1

theorem deserialize_serialize {V M : Type} [Inhabited M] (codec : Codec M) {ofLattice : V → M}
    {toLattice : M → V} {l : V} (h : toLattice (ofLattice l) = l) :
    deserialize codec toLattice (serialize codec ofLattice l) = l := by
  rw [deserialize, serialize, codec.parse_serialize]
  exact h

/-- **Every lattice value survives as text**; sets and ordered sets are the same message. -/
theorem lattices_round_trip {D : Type} [Priority D] (codecs : ValueCodecs D) :
    (∀ l, deserialize codecs.lww toLww (serialize codecs.lww ofLww l) = l) ∧
    (∀ l, deserialize codecs.set toSet (serialize codecs.set ofSet l) = l) ∧
    (∀ l, deserialize codecs.singleCausal toVectorClockValuePair
      (serialize codecs.singleCausal ofCausal l) = l) ∧
    (∀ l, deserialize codecs.multiCausal toMultiKeyCausalPayload
      (serialize codecs.multiCausal ofMultiKeyCausal l) = l) ∧
    ∀ l, deserialize codecs.priority toPriority (serialize codecs.priority ofPriority l) = l :=
  ⟨fun l => deserialize_serialize _ (toLww_ofLww l),
    fun l => deserialize_serialize _ (toSet_ofSet l),
    fun l => deserialize_serialize _ (toVectorClockValuePair_ofCausal l),
    fun l => deserialize_serialize _ (toMultiKeyCausalPayload_ofMultiKeyCausal l),
    fun _ => deserialize_serialize _ rfl⟩

theorem ValueCodecs.nonempty (D : Type) [Priority D] [Countable D] : Nonempty (ValueCodecs D) := by
  obtain ⟨lww⟩ := Codec.nonempty LWWValue
  obtain ⟨set⟩ := Codec.nonempty SetValue
  obtain ⟨singleCausal⟩ := Codec.nonempty SingleKeyCausalValue
  obtain ⟨multiCausal⟩ := Codec.nonempty MultiKeyCausalValue
  obtain ⟨priority⟩ := Codec.nonempty (PriorityValue D)
  exact ⟨lww, set, singleCausal, multiCausal, priority⟩

theorem exists_codecs : Nonempty (@ValueCodecs Int integerPriority × Codec ReplicationFactor) := by
  obtain ⟨codecs⟩ := ValueCodecs.nonempty Int
  obtain ⟨repCodec⟩ := Codec.nonempty ReplicationFactor
  exact ⟨codecs, repCodec⟩

end Testbed.Anna
