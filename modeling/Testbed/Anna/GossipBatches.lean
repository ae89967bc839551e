import Mathlib.Logic.Relation
import Testbed.Anna.GossipHandlers
import Testbed.Lib.MapSweeps

/-! # What a batch of gossip sends

A batch is an `AddressKeysetMap`.  `sendGossip_spec` is all that the rest needs to
know of `send_gossip`: it reads the store and appends messages, and for every
address and key of the batch whose value can be read there is a PUT message with a
value that was read.  Reading may touch the store (`Reads`), so the value is one of
the store at some moment of the call.
-/
namespace Testbed.Anna

open Std (ExtTreeMap ExtTreeSet)
open Lib
open AddressKeysetMap List Std.ExtTreeMap Std.ExtTreeSet

/-! ## The keys of a batch -/

namespace AddressKeysetMap
variable {m : AddressKeysetMap} {address address' : Address} {key key' : Key}

/-- The batch sends the key to the address. -/
def Has (m : AddressKeysetMap) (address : Address) (key : Key) : Prop :=
  key ∈ m.getD address ∅

theorem has_iff : m.Has address key ↔ ∃ keys, (address, keys) ∈ m.toList ∧ key ∈ keys := by
  simp only [Has, getD_eq_getD_getElem?, mem_toList_iff_getElem?_eq_some]
  cases h : m[address]? with
  | none => simp
  | some => simp

@[simp] theorem has_insertKey : (m.insertKey address key).Has address' key' ↔
      (address = address' ∧ key = key') ∨ m.Has address' key' :=
  links_link

variable {α : Type}

theorem has_foldl_insertKey (f : α → Address) (g : α → Key) (l : List α) :
    Has (l.foldl (fun m a => insertKey m (f a) (g a)) m) address key ↔
      (∃ a ∈ l, f a = address ∧ g a = key) ∨ m.Has address key := by
  refine foldl_adds_iff (P := (Has · address key)) fun _ _ => ?_
  exact has_insertKey

variable {threads : List ServerThread}

theorem has_insertKeyFor : (m.insertKeyFor threads key).Has address' key' ↔
      (∃ thread ∈ threads, thread.gossipConnectAddress = address' ∧ key = key') ∨
        m.Has address' key' :=
  has_foldl_insertKey (fun thread : ServerThread => thread.gossipConnectAddress) (fun _ => key)
    threads

theorem not_has_empty : ¬ (∅ : AddressKeysetMap).Has address key := by
  simp [Has]

/-- No address has more keys than a redistribution sends to it at once. -/
def FitsBatch (m : AddressKeysetMap) : Prop :=
  ∀ pair ∈ m.toList, pair.2.size ≤ ServerState.dataRedistributeThreshold

end AddressKeysetMap

/-! ## Reading a store -/

/-- One read, through any serializer. -/
def SerializerMap.Read {σ : Type} (serializers : SerializerMap σ) (store store' : σ) : Prop :=
  ∃ type serializer key, serializers.entry type = some serializer ∧
    store' = (serializer.get store key).2

/-- Any number of reads. -/
def SerializerMap.Reads {σ : Type} (serializers : SerializerMap σ) : σ → σ → Prop :=
  Relation.ReflTransGen serializers.Read

variable {type : LatticeType}

theorem SerializerMap.at_eq_ok {σ : Type} {serializers : SerializerMap σ}
    {serializer : Serializer σ} :
    serializers.at type = .ok serializer ↔ serializers.entry type = some serializer := by
  unfold SerializerMap.at
  cases serializers.entry type <;> simp

theorem SerializerMap.Reads.readable {σ : Type} {serializers : SerializerMap σ} {store store' : σ}
    {serializer : Serializer σ} {key : Key} (h : serializers.Reads store store')
    (hentry : serializers.entry type = some serializer) (hread : serializer.Readable store key) :
    serializer.Readable store' key := by
  induction h with
  | refl => exact hread
  | tail _ hstep ih =>
    obtain ⟨_, _, key', hentry', rfl⟩ := hstep
    exact serializers.get_readable hentry hentry' key' ih

namespace ServerState
variable {srv : Server} (s : ServerState srv)

/-- A value of the key, as some reads after `s` left it. -/
def ReadOf (key : Key) (tuple : KeyTuple) : Prop :=
  ∃ property serializer store, s.storedKeyMap[key]? = some property ∧
    srv.serializers.entry property.type = some serializer ∧
    srv.serializers.Reads s.store store ∧
    (serializer.get store key).1 = (tuple.payload, .noError) ∧
    tuple.key = key ∧ tuple.latticeType = property.type

/-- The key is stored, and can be read. -/
def ReadableKey (key : Key) : Prop :=
  ∃ property serializer, s.storedKeyMap[key]? = some property ∧
    srv.serializers.entry property.type = some serializer ∧ serializer.Readable s.store key

/-- `s'` is `s` after some reads. -/
def ReadTo (s s' : ServerState srv) : Prop :=
  ∃ store, srv.serializers.Reads s.store store ∧ s' = { s with store }

theorem ReadTo.refl : s.ReadTo s :=
  ⟨s.store, Relation.ReflTransGen.refl, rfl⟩

theorem ReadTo.trans {s s' s'' : ServerState srv} (h : s.ReadTo s') (h' : s'.ReadTo s'') :
    s.ReadTo s'' := by
  obtain ⟨_, hreads, rfl⟩ := h
  obtain ⟨store', hreads', rfl⟩ := h'
  exact ⟨store', hreads.trans hreads', rfl⟩

variable {s s' : ServerState srv} {key : Key} {request request' : KeyRequest}
  {batch : AddressKeysetMap} {keys : List Key} {messages : List (Address × Message)}

theorem ReadTo.readableKey (h : s.ReadTo s') (hkey : s.ReadableKey key) : s'.ReadableKey key := by
  obtain ⟨_, hreads, rfl⟩ := h
  obtain ⟨property, serializer, hstored, hentry, hread⟩ := hkey
  exact ⟨property, serializer, hstored, hentry, hreads.readable hentry hread⟩

theorem ReadTo.readOf {tuple : KeyTuple} (h : s.ReadTo s') (hof : s'.ReadOf key tuple) :
    s.ReadOf key tuple := by
  obtain ⟨_, hreads, rfl⟩ := h
  obtain ⟨property, serializer, store', hstored, hentry, hreads', hrest⟩ := hof
  exact ⟨property, serializer, store', hstored, hentry, hreads.trans hreads', hrest⟩

theorem processGet_eq_ok {res : String × AnnaError} (h : s.processGet key type = .ok (res, s')) :
    ∃ serializer, srv.serializers.entry type = some serializer ∧
      res = (serializer.get s.store key).1 ∧
      s' = { s with store := (serializer.get s.store key).2 } := by
  obtain ⟨serializer, hat, h⟩ := bind_eq_ok.mp h
  cases h
  exact ⟨serializer, SerializerMap.at_eq_ok.mp hat, rfl, rfl⟩

/-! ## `send_gossip` -/

theorem gossipKey_spec (h : gossipKey (s, request) key = .ok (s', request')) :
    s.ReadTo s' ∧ request'.type = request.type ∧
      (∀ tuple ∈ request.tuples, tuple ∈ request'.tuples) ∧
      (s.ReadableKey key → ∃ tuple ∈ request'.tuples, s.ReadOf key tuple) := by
  unfold gossipKey at h
  split at h
  · rename_i hnone
    cases h
    refine ⟨.refl s, rfl, fun _ ht => ht, fun hkey => ?_⟩
    obtain ⟨property, -, hstored, -⟩ := hkey
    rw [hnone] at hstored
    cases hstored
  · rename_i property hstored
    obtain ⟨⟨res, _⟩, hget, h⟩ := bind_eq_ok.mp h
    obtain ⟨serializer, hentry, hres, rfl⟩ := processGet_eq_ok hget
    cases h
    have hread : srv.serializers.Reads s.store (serializer.get s.store key).2 :=
      Relation.ReflTransGen.single ⟨property.type, serializer, key, hentry, rfl⟩
    refine ⟨⟨_, hread, rfl⟩, ?_, fun tuple ht => ?_, fun hkey => ?_⟩
    · split <;> rfl
    · split
      · exact mem_append_left _ ht
      · exact ht
    · obtain ⟨_, _, hstored', hentry', hread'⟩ := hkey
      rw [hstored] at hstored'
      cases hstored'
      rw [hentry] at hentry'
      cases hentry'
      have herror : res.2 = .noError := by
        rw [hres]
        exact hread'
      rw [if_pos herror]
      refine ⟨_, mem_append_right _ (mem_singleton_self _), property, serializer, s.store,
        hstored, hentry, Relation.ReflTransGen.refl, ?_, rfl, rfl⟩
      rw [← hres, ← herror]

theorem gossipKeys_spec (h : keys.foldlM gossipKey (s, request) = .ok (s', request')) :
    s.ReadTo s' ∧ request'.type = request.type ∧
      (∀ tuple ∈ request.tuples, tuple ∈ request'.tuples) ∧
      ∀ key ∈ keys, s.ReadableKey key → ∃ tuple ∈ request'.tuples, s.ReadOf key tuple := by
  induction keys generalizing s request with
  | nil =>
    cases h
    exact ⟨.refl s', rfl, fun _ ht => ht, fun _ hk => nomatch hk⟩
  | cons _ _ ih =>
    obtain ⟨⟨_, _⟩, hkey, hkeys⟩ := foldlM_cons_eq_ok.mp h
    obtain ⟨hread, htype, hmem, hnew⟩ := gossipKey_spec hkey
    obtain ⟨hread', htype', hmem', hnew'⟩ := ih hkeys
    refine ⟨hread.trans hread', htype'.trans htype, fun t ht => hmem' t (hmem t ht), ?_⟩
    intro k hk hreadable
    rcases mem_cons.mp hk with rfl | hk
    · obtain ⟨tuple, ht, hof⟩ := hnew hreadable
      exact ⟨tuple, hmem' tuple ht, hof⟩
    · obtain ⟨tuple, ht, hof⟩ := hnew' k hk (hread.readableKey hreadable)
      exact ⟨tuple, ht, hread.readOf hof⟩

/-- The messages have, for this address and key, a PUT with a value of the key. -/
def SendsKey (s : ServerState srv) (messages : List (Address × Message)) (address : Address)
    (key : Key) : Prop :=
  ∃ request tuple, (address, Message.keyRequest request) ∈ messages ∧ request.type = .put ∧
    tuple ∈ request.tuples ∧ s.ReadOf key tuple

variable {pairs : List (Address × ExtTreeSet Key)} {messages' : List (Address × Message)}

theorem gossipAddresses_spec (h : pairs.foldlM gossipAddress (s, messages) = .ok (s', messages')) :
    s.ReadTo s' ∧ messages'.map Prod.fst = messages.map Prod.fst ++ pairs.map Prod.fst ∧
      (∀ message ∈ messages, message ∈ messages') ∧
      ∀ pair ∈ pairs, ∀ key ∈ pair.2, s.ReadableKey key → s.SendsKey messages' pair.1 key := by
  induction pairs generalizing s messages with
  | nil =>
    cases h
    exact ⟨.refl s', by rw [map_nil, append_nil], fun _ hm => hm, fun _ hp => nomatch hp⟩
  | cons _ _ ih =>
    obtain ⟨⟨_, _⟩, hpair, hpairs⟩ := foldlM_cons_eq_ok.mp h
    obtain ⟨⟨_, request⟩, hkeys, hpair⟩ := bind_eq_ok.mp hpair
    cases hpair
    obtain ⟨hread, htype, -, hnew⟩ := gossipKeys_spec hkeys
    obtain ⟨hread', haddr', hmem', hnew'⟩ := ih hpairs
    refine ⟨hread.trans hread', by simp [haddr'], fun m hm => hmem' m (mem_append_left _ hm), ?_⟩
    intro p hp key hkey hreadable
    rcases mem_cons.mp hp with rfl | hp
    · obtain ⟨tuple, ht, hof⟩ := hnew key (mem_toList.mpr hkey) hreadable
      exact ⟨request, tuple, hmem' _ (mem_append_right _ (mem_singleton_self _)), htype, ht, hof⟩
    · obtain ⟨request', tuple, hm, htype', ht, hof⟩ :=
        hnew' p hp key hkey (hread.readableKey hreadable)
      exact ⟨request', tuple, hm, htype', ht, hread.readOf hof⟩

/-- **What `send_gossip` does**: it only reads the store, and appends a message to
each address of the batch; the messages have a value for every address and readable
key of the batch. -/
theorem sendGossip_spec (h : s.sendGossip batch = .ok s') :
    ∃ s₁ messages, s.ReadTo s₁ ∧ s' = s₁.send messages ∧
      messages.map Prod.fst = batch.toList.map Prod.fst ∧
      ∀ address key, batch.Has address key → s.ReadableKey key →
        s.SendsKey messages address key := by
  obtain ⟨⟨s₁, messages⟩, hfold, h⟩ := bind_eq_ok.mp h
  cases h
  obtain ⟨hread, haddr, -, hnew⟩ := gossipAddresses_spec hfold
  refine ⟨s₁, messages, hread, rfl, haddr, fun address key hhas hreadable => ?_⟩
  obtain ⟨keys, hmem, hkey⟩ := has_iff.mp hhas
  exact hnew (address, keys) hmem key hkey hreadable

theorem gossipKeys_only (h : keys.foldlM gossipKey (s, request) = .ok (s', request')) :
    ∀ tuple ∈ request'.tuples, tuple ∈ request.tuples ∨ tuple.key ∈ keys := by
  induction keys generalizing s request with
  | nil =>
    cases h
    exact fun _ ht => .inl ht
  | cons key _ ih =>
    obtain ⟨⟨_, _⟩, hkey, hkeys⟩ := foldlM_cons_eq_ok.mp h
    intro tuple ht
    rcases ih hkeys tuple ht with ht | ht
    · unfold gossipKey at hkey
      split at hkey
      · cases hkey
        exact .inl ht
      · obtain ⟨⟨_, _⟩, -, hkey⟩ := bind_eq_ok.mp hkey
        cases hkey
        split at ht
        · rcases mem_append.mp ht with ht | ht
          · exact .inl ht
          · rw [mem_singleton.mp ht]
            exact .inr mem_cons_self
        · exact .inl ht
    · exact .inr (mem_cons_of_mem key ht)

variable {address : Address}

theorem gossipAddresses_only (h : pairs.foldlM gossipAddress (s, messages) = .ok (s', messages'))
    (hmem : (address, .keyRequest request) ∈ messages') :
    (address, .keyRequest request) ∈ messages ∨
      ∃ pair ∈ pairs, pair.1 = address ∧ ∀ tuple ∈ request.tuples, tuple.key ∈ pair.2 := by
  induction pairs generalizing s messages with
  | nil =>
    cases h
    exact .inl hmem
  | cons pair _ ih =>
    obtain ⟨⟨_, _⟩, hpair, hpairs⟩ := foldlM_cons_eq_ok.mp h
    obtain ⟨⟨_, _⟩, hkeys, hpair⟩ := bind_eq_ok.mp hpair
    cases hpair
    rcases ih hpairs with hmem | ⟨pair', hpair', hrest⟩
    · rcases mem_append.mp hmem with hmem | hmem
      · exact .inl hmem
      · cases mem_singleton.mp hmem
        refine .inr ⟨pair, mem_cons_self, rfl, fun tuple ht => ?_⟩
        rcases gossipKeys_only hkeys tuple ht with hnone | hkey
        · cases hnone
        · exact mem_toList.mp hkey
    · exact .inr ⟨pair', mem_cons_of_mem pair hpair', hrest⟩

theorem sendGossip_only (h : s.sendGossip batch = .ok s') (hsent : s'.sent = s.sent ++ messages)
    (hmem : (address, .keyRequest request) ∈ messages) :
    ∀ tuple ∈ request.tuples, batch.Has address tuple.key := by
  obtain ⟨⟨_, messages'⟩, hfold, h⟩ := bind_eq_ok.mp h
  cases h
  obtain ⟨⟨_, -, hs₁⟩, -⟩ := gossipAddresses_spec hfold
  have hsent' : s.sent ++ messages' = s.sent ++ messages := by
    rw [← hsent, hs₁]
    rfl
  rw [← append_cancel_left hsent'] at hmem
  rcases gossipAddresses_only hfold hmem with hnone | ⟨pair, hpair, rfl, hkeys⟩
  · cases hnone
  · exact fun tuple ht => has_iff.mpr ⟨pair.2, hpair, hkeys tuple ht⟩

/-- No key is stored with type `NONE`. -/
def StoredTyped (s : ServerState srv) : Prop :=
  ∀ (key : Key) (property : KeyProperty), s.storedKeyMap[key]? = some property →
    property.type ≠ .none

theorem exists_serializer (srv : Server) (htype : type ≠ .none) :
    ∃ serializer, srv.serializers.at type = .ok serializer := by
  obtain ⟨serializer, hentry⟩ :=
    Option.ne_none_iff_exists'.mp (mt srv.serializers.entry_eq_none.mp htype)
  exact ⟨serializer, SerializerMap.at_eq_ok.mpr hentry⟩

/-- If the key is stored, it is not stored with type `NONE`. -/
def TypedKey (s : ServerState srv) (key : Key) : Prop :=
  ∀ property, s.storedKeyMap[key]? = some property → property.type ≠ .none

theorem at_none (srv : Server) : srv.serializers.at .none = .error .nullSerializer := by
  rw [SerializerMap.at, srv.serializers.entry_eq_none.mpr rfl]

theorem gossipKey_returns_iff (request : KeyRequest) :
    (∃ acc, gossipKey (s, request) key = .ok acc) ↔ s.TypedKey key := by
  unfold gossipKey TypedKey
  cases hstored : s.storedKeyMap[key]? with
  | none => exact iff_of_true ⟨_, rfl⟩ fun _ h => by cases h
  | some =>
    simp only [Option.some.injEq, forall_eq']
    constructor
    · rintro ⟨_, h⟩ htype
      obtain ⟨_, hget, -⟩ := bind_eq_ok.mp h
      obtain ⟨serializer, hat, -⟩ := bind_eq_ok.mp hget
      rw [htype, at_none] at hat
      cases hat
    · intro htype
      obtain ⟨_, hat⟩ := exists_serializer srv htype
      exact ⟨_, bind_eq_ok.mpr ⟨_, bind_eq_ok.mpr ⟨_, hat, rfl⟩, rfl⟩⟩

theorem ReadTo.typedKey_iff (h : s.ReadTo s') : s'.TypedKey key ↔ s.TypedKey key := by
  obtain ⟨_, -, rfl⟩ := h
  exact Iff.rfl

theorem gossipKeys_returns_iff :
    (∃ acc, keys.foldlM gossipKey (s, request) = .ok acc) ↔ ∀ key ∈ keys, s.TypedKey key := by
  rw [foldlM_returns_iff fun _ key => s.TypedKey key]
  · exact forall_split_iff
  · rintro _ _ _ ⟨_, request⟩ - hpre
    exact (gossipKey_returns_iff request).trans (gossipKeys_spec hpre).1.typedKey_iff

theorem gossipAddresses_returns_iff : (∃ acc, pairs.foldlM gossipAddress (s, messages) = .ok acc) ↔
      ∀ pair ∈ pairs, ∀ key ∈ pair.2, s.TypedKey key := by
  rw [foldlM_returns_iff fun _ pair => ∀ key ∈ pair.2, s.TypedKey key]
  · exact forall_split_iff
  · rintro _ pair _ ⟨t, messages⟩ - hpre
    have hkeys : (∃ acc, pair.2.toList.foldlM gossipKey (t, { type := .put }) = .ok acc) ↔
        ∀ key ∈ pair.2, s.TypedKey key := by
      simp only [gossipKeys_returns_iff, mem_toList, (gossipAddresses_spec hpre).1.typedKey_iff]
    rw [← hkeys, gossipAddress, bind_returns_iff]
    exact exists_congr fun _ => and_iff_left ⟨_, rfl⟩

theorem sendGossip_returns_iff : (∃ s', s.sendGossip batch = .ok s') ↔
      ∀ address key, batch.Has address key → s.TypedKey key := by
  have hfold : (∃ s', s.sendGossip batch = .ok s') ↔
      ∃ acc, batch.toList.foldlM gossipAddress (s, []) = .ok acc := by
    constructor
    · rintro ⟨_, h⟩
      obtain ⟨acc, hacc, -⟩ := bind_eq_ok.mp h
      exact ⟨acc, hacc⟩
    · rintro ⟨acc, hacc⟩
      exact ⟨_, bind_eq_ok.mpr ⟨acc, hacc, rfl⟩⟩
  rw [hfold, gossipAddresses_returns_iff]
  constructor
  · intro h address key hhas
    obtain ⟨keys, hmem, hkey⟩ := has_iff.mp hhas
    exact h (address, keys) hmem key hkey
  · intro h pair hpair key hkey
    exact h pair.1 key (has_iff.mpr ⟨pair.2, hpair, hkey⟩)

theorem sendGossip_returns (htyped : s.StoredTyped) (batch : AddressKeysetMap) :
    ∃ s', s.sendGossip batch = .ok s' :=
  sendGossip_returns_iff.mpr fun _ key _ => htyped key

/-! ## Replicas -/

/-- The threads are those that are responsible for the key, a data key with known
factors, in all tiers. -/
def Replicas (s : ServerState srv) (key : Key) (threads : List ServerThread) : Prop :=
  isMetadata key = .ok false ∧ ∃ rep, s.keyReplicationMap[key]? = some rep ∧
    responsibleThreads s.toRingMaps key rep kAllTiers = .ok threads

theorem Replicas.lookup (h : s.Replicas key threads) :
    s.getResponsibleThreads key kAllTiers = .ok ⟨threads, true, s.seed, []⟩ := by
  obtain ⟨hkey, _, hrep, hthreads⟩ := h
  exact (getResponsibleThreads_eq_ok hkey hrep).mpr ⟨threads, hthreads, rfl⟩

theorem replicas_of_lookup {lookup : Lookup} (hkey : isMetadata key = .ok false)
    (hknown : key ∈ s.keyReplicationMap)
    (hlookup : s.getResponsibleThreads key kAllTiers = .ok lookup) :
    s.Replicas key lookup.threads ∧ lookup.succeed = true := by
  obtain ⟨rep, hrep⟩ := Option.isSome_iff_exists.mp (mem_iff_isSome_getElem?.mp hknown)
  obtain ⟨_, hthreads, rfl⟩ := (getResponsibleThreads_eq_ok hkey hrep).mp hlookup
  exact ⟨⟨hkey, rep, hrep, hthreads⟩, rfl⟩

/-- `s'` is `s` after lookups and changes to the factors of some keys. -/
def Asks (changed : Key → Prop) (s s' : ServerState srv) : Prop :=
  ∃ seed factors messages,
    s' = { s with seed, keyReplicationMap := factors, sent := s.sent ++ messages } ∧
    (∀ key ∈ s.keyReplicationMap, key ∈ factors) ∧
    ∀ key, ¬ changed key → factors[key]? = s.keyReplicationMap[key]?

namespace Asks
variable {changed : Key → Prop} {s s' s'' : ServerState srv}

theorem refl (s : ServerState srv) : Asks changed s s :=
  ⟨s.seed, s.keyReplicationMap, [], by rw [append_nil], fun _ h => h, fun _ _ => rfl⟩

theorem trans (h : Asks changed s s') (h' : Asks changed s' s'') : Asks changed s s'' := by
  obtain ⟨_, _, messages, rfl, hmem, hsame⟩ := h
  obtain ⟨seed', factors', messages', rfl, hmem', hsame'⟩ := h'
  exact ⟨seed', factors', messages ++ messages', by simp only [append_assoc],
    fun key hk => hmem' key (hmem key hk), fun key hk => (hsame' key hk).trans (hsame key hk)⟩

theorem mono {changed' : Key → Prop} (h : Asks changed s s')
    (himp : ∀ key, changed key → changed' key) : Asks changed' s s' := by
  obtain ⟨seed, factors, messages, hs', hmem, hsame⟩ := h
  exact ⟨seed, factors, messages, hs', hmem, fun key hkey => hsame key (mt (himp key) hkey)⟩

theorem afterLookup (s : ServerState srv) (lookup : Lookup) :
    Asks changed s (s.afterLookup lookup) :=
  ⟨lookup.seed, s.keyReplicationMap, lookup.sent, rfl, fun _ h => h, fun _ _ => rfl⟩

theorem frame (h : Asks (fun _ => False) s s') :
    s'.toRingMaps = s.toRingMaps ∧ s'.keyReplicationMap = s.keyReplicationMap := by
  obtain ⟨_, _, _, rfl, -, hsame⟩ := h
  exact ⟨rfl, ext_getElem? fun key => hsame key fun h => h⟩

theorem known (h : Asks changed s s') (hknown : key ∈ s.keyReplicationMap) :
    key ∈ s'.keyReplicationMap := by
  obtain ⟨_, _, _, rfl, hmem, -⟩ := h
  exact hmem key hknown

theorem replicas (h : Asks changed s s') (hkey : ¬ changed key) (hrep : s.Replicas key threads) :
    s'.Replicas key threads := by
  obtain ⟨_, _, _, rfl, -, hsame⟩ := h
  obtain ⟨hdata, rep, hrep, hthreads⟩ := hrep
  exact ⟨hdata, rep, (hsame key hkey).trans hrep, hthreads⟩

theorem readableKey (h : Asks changed s s') (hkey : s.ReadableKey key) : s'.ReadableKey key := by
  obtain ⟨_, _, _, rfl, -⟩ := h
  exact hkey

end Asks

/-! ## The batch of a round -/

variable {m : AddressKeysetMap}

theorem has_addCaches {key' : Key} (h : m.Has address key') :
    (s.addCaches key m).Has address key' := by
  unfold addCaches
  split
  · exact h
  · exact (has_foldl_insertKey _ _ _).mpr (.inr h)

variable {m' : AddressKeysetMap}

theorem roundKey_spec (h : roundKey (s, m) key = .ok (s', m')) :
    Asks (fun _ => False) s s' ∧ (∀ address key', m.Has address key' → m'.Has address key') ∧
      (isMetadata key = .ok false → key ∈ s.keyReplicationMap →
        ∃ threads, s.Replicas key threads ∧ ∀ thread ∈ threads, thread.id ≠ srv.wt.id →
          m'.Has thread.gossipConnectAddress key) := by
  obtain ⟨lookup, hlookup, h⟩ := bind_eq_ok.mp h
  cases h
  refine ⟨Asks.afterLookup s lookup, fun address key' hhas => ?_, fun hkey hknown => ?_⟩
  · exact has_addCaches (has_insertKeyFor.mpr (.inr hhas))
  · obtain ⟨hreplicas, hsucceed⟩ := replicas_of_lookup hkey hknown hlookup
    refine ⟨lookup.threads, hreplicas, fun thread hthread hne => has_addCaches ?_⟩
    refine has_insertKeyFor.mpr (.inl ⟨thread, ?_, rfl, rfl⟩)
    rw [if_pos hsucceed, mem_filter]
    exact ⟨hthread, by simpa [ServerThread.equals] using hne⟩

theorem roundKeys_spec (h : keys.foldlM roundKey (s, m) = .ok (s', m')) :
    Asks (fun _ => False) s s' ∧ (∀ address key, m.Has address key → m'.Has address key) ∧
      ∀ key ∈ keys, isMetadata key = .ok false → key ∈ s.keyReplicationMap →
        ∃ threads, s'.Replicas key threads ∧ ∀ thread ∈ threads, thread.id ≠ srv.wt.id →
          m'.Has thread.gossipConnectAddress key := by
  induction keys generalizing s m with
  | nil =>
    cases h
    exact ⟨.refl s', fun _ _ hhas => hhas, fun _ hk => nomatch hk⟩
  | cons _ _ ih =>
    obtain ⟨⟨_, _⟩, hkey, hkeys⟩ := foldlM_cons_eq_ok.mp h
    obtain ⟨hasks, hmono, hnew⟩ := roundKey_spec hkey
    obtain ⟨hasks', hmono', hnew'⟩ := ih hkeys
    refine ⟨hasks.trans hasks', fun a k hhas => hmono' a k (hmono a k hhas), ?_⟩
    intro k hk hdata hknown
    rcases mem_cons.mp hk with rfl | hk
    · obtain ⟨threads, hreplicas, hhas⟩ := hnew hdata hknown
      exact ⟨threads, (hasks.trans hasks').replicas not_false hreplicas,
        fun th hth hne => hmono' _ _ (hhas th hth hne)⟩
    · exact hnew' k hk hdata (hasks.known hknown)

/-! ## The batch of a redistribution -/

theorem has_joinBatch : (joinBatch m).Has address key ↔
      ∃ pair ∈ m.toList, pair.1 = address ∧ key ∈ sentKeys pair.2 := by
  refine (foldl_adds_iff (P := (Has · address key)) fun m pair => ?_).trans
    (or_iff_left not_has_empty)
  refine (has_foldl_insertKey (fun _ => pair.1) (fun k => k) _).trans (or_congr_left ?_)
  exact ⟨fun ⟨_, hk, ha, hkey⟩ => ⟨ha, hkey ▸ hk⟩, fun ⟨ha, hk⟩ => ⟨key, hk, ha, rfl⟩⟩

theorem has_joinBatch_of_fits (hfits : m.FitsBatch) (h : m.Has address key) :
    (joinBatch m).Has address key := by
  obtain ⟨keys, hmem, hkey⟩ := has_iff.mp h
  refine has_joinBatch.mpr ⟨(address, keys), hmem, rfl, ?_⟩
  have hlen : keys.toList.length ≤ dataRedistributeThreshold := by
    rw [ExtTreeSet.length_toList]
    exact hfits (address, keys) hmem
  rw [sentKeys, take_of_length_le hlen]
  exact mem_toList.mpr hkey

variable {keySet : ExtTreeSet Key}

theorem exists_left_behind (h : dataRedistributeThreshold < keySet.size) :
    ∃ key, key ∈ (sentKeys keySet).foldl ExtTreeSet.erase keySet := by
  have hnodup := nodup_toList keySet
  have hlen : keySet.toList.drop dataRedistributeThreshold ≠ [] := by
    rw [ne_eq, drop_eq_nil_iff, ExtTreeSet.length_toList]
    omega
  obtain ⟨key, hkey⟩ := exists_mem_of_ne_nil _ hlen
  refine ⟨key, mem_eraseAll.mpr ⟨?_, fun hsent => ?_⟩⟩
  · exact mem_toList.mp (mem_of_mem_drop hkey)
  · exact disjoint_take_drop hnodup (le_refl dataRedistributeThreshold) hsent hkey

/-- What is left of `join_gossip_map` after a redistribution. -/
def remaining (m : AddressKeysetMap) : AddressKeysetMap :=
  (removeAddresses m).foldl ExtTreeMap.erase m

theorem mem_removeAddresses {keys : ExtTreeSet Key} (hget : m[address]? = some keys) :
    address ∈ removeAddresses m ↔ ∀ key, key ∉ (sentKeys keys).foldl ExtTreeSet.erase keys := by
  rw [← ExtTreeSet.eq_empty_iff_forall_not_mem, ← ExtTreeSet.isEmpty_iff, removeAddresses, mem_map]
  constructor
  · rintro ⟨⟨_, _⟩, hpair, rfl⟩
    obtain ⟨hpair, hempty⟩ := mem_filter.mp hpair
    obtain rfl := Option.some.inj (hget.symm.trans (mem_toList_iff_getElem?_eq_some.mp hpair))
    exact hempty
  · intro hempty
    exact ⟨(address, keys), mem_filter.mpr ⟨mem_toList_iff_getElem?_eq_some.mpr hget, hempty⟩, rfl⟩

theorem remaining_large {keys : ExtTreeSet Key} (hget : m[address]? = some keys)
    (hlarge : dataRedistributeThreshold < keys.size) : (remaining m)[address]? = some keys := by
  obtain ⟨key, hkey⟩ := exists_left_behind hlarge
  rw [remaining, getElem?_eraseAll,
    if_neg fun hmem => (mem_removeAddresses hget).mp hmem key hkey,
    hget]

/-- **All addresses are dealt with** just if none has more keys than that. -/
theorem remaining_isEmpty_iff : (remaining m).isEmpty = true ↔ m.FitsBatch := by
  constructor
  · rintro h ⟨address, keys⟩ hpair
    by_contra hlarge
    have hleft := remaining_large (mem_toList_iff_getElem?_eq_some.mp hpair) (not_le.mp hlarge)
    rw [isEmpty_iff.mp h, getElem?_empty] at hleft
    cases hleft
  · intro h
    refine isEmpty_iff.mpr (ext_getElem? fun address => ?_)
    rw [getElem?_empty, remaining, getElem?_eraseAll]
    cases hget : m[address]? with
    | none => exact ite_self _
    | some keys =>
      refine if_pos ((mem_removeAddresses hget).mpr fun key hkey => ?_)
      obtain ⟨hkey, hnew⟩ := mem_eraseAll.mp hkey
      have hlen : keys.toList.length ≤ dataRedistributeThreshold := by
        rw [ExtTreeSet.length_toList]
        exact h _ (ExtTreeMap.mem_toList_iff_getElem?_eq_some.mpr hget)
      rw [sentKeys, take_of_length_le hlen] at hnew
      exact hnew (mem_toList.mpr hkey)

/-! ## The batch of a replication change -/

variable {m : ExtTreeMap Key KeyReplication}

theorem getElem?_foldl_insert {key' : Key}
    (f : ExtTreeMap Key KeyReplication → α → KeyReplication) (l : List α) (hne : key ≠ key') :
    (l.foldl (fun m a => m.insert key (f m a)) m)[key']? = m[key']? := by
  induction l generalizing m with
  | nil => rfl
  | cons _ _ ih =>
    rw [foldl_cons, ih, ExtTreeMap.getElem?_insert, if_neg]
    rwa [Std.compare_eq_iff_eq]

theorem mem_foldl_insert {k : Key} (f : ExtTreeMap Key KeyReplication → α → KeyReplication)
    (l : List α) (h : k ∈ m) : k ∈ l.foldl (fun m a => m.insert key (f m a)) m :=
  List.foldlRecOn (motive := fun m => k ∈ m) l _ h fun _ hm _ _ =>
    mem_insert.mpr (.inr hm)

namespace Asks

variable (s)

theorem setFactors (key : Key)
    (f : ExtTreeMap Key KeyReplication → α → KeyReplication) (entries : List α) :
    Asks (· = key) s { s with
      keyReplicationMap := entries.foldl (fun m a => m.insert key (f m a)) s.keyReplicationMap } :=
  ⟨s.seed, _, [], by rw [append_nil], fun _ hk => mem_foldl_insert _ _ hk,
    fun _ hk => getElem?_foldl_insert _ _ (Ne.symm hk)⟩

theorem setFactorsOf (key : Key) (globals locals : List (Tier × Nat)) :
    Asks (· = key) s ((s.setGlobalFactors key globals).setLocalFactors key locals) :=
  (setFactors s key _ globals).trans (setFactors _ key _ locals)

theorem updateFactors (keyRep : ReplicationFactor) :
    Asks (· = keyRep.key) s (s.updateFactors keyRep) := setFactorsOf s _ _ _

theorem learnFactors (tuple : KeyTuple) :
    Asks (· = getKeyFromMetadata tuple.key) s (s.learnFactors tuple) := by
  unfold ServerState.learnFactors
  split
  · exact setFactorsOf s _ _ _
  · exact List.foldlRecOn (motive := fun t => Asks (· = getKeyFromMetadata tuple.key) s t)
      kAllTiers _ (.refl s) fun t ht _ _ => ht.trans (setFactorsOf t _ _ _)

variable {s}

end Asks

/-- What is collected stays collected, and nothing is added about other keys. -/
structure Handover.Extends (key : Key) (h h' : Handover) : Prop where
  has : ∀ address k, h.addrKeysetMap.Has address k → h'.addrKeysetMap.Has address k
  removed : ∀ k, k ≠ key → (k ∈ h'.removeSet ↔ k ∈ h.removeSet)

theorem Handover.Extends.refl (key : Key) (h : Handover) : Handover.Extends key h h :=
  ⟨fun _ _ hhas => hhas, fun _ _ => Iff.rfl⟩

theorem changeStored_spec {h h' : Handover} {lower : Bool} {origThreads : List ServerThread}
    (hstep : s.changeStored h key lower origThreads = .ok (s', h')) :
    Asks (· = key) s s' ∧ Handover.Extends key h h' ∧
      (isMetadata key = .ok false → key ∈ s.keyReplicationMap → key ∉ h.removeSet →
        key ∈ h'.removeSet → ∃ threads, s'.Replicas key threads ∧
          ∀ thread ∈ threads, h'.addrKeysetMap.Has thread.gossipConnectAddress key) := by
  obtain ⟨lookup, hlookup, hstep⟩ := bind_eq_ok.mp hstep
  split at hstep
  · obtain ⟨new, -, hstep⟩ := bind_eq_ok.mp hstep
    cases hstep
    refine ⟨Asks.afterLookup s lookup, ⟨fun address k hhas => ?_, fun k hk => ?_⟩,
      fun hdata hknown hout hin => ?_⟩
    · refine has_insertKeyFor.mpr (Or.inr ?_)
      split
      · exact hhas
      · exact has_insertKeyFor.mpr (.inr hhas)
    · dsimp only
      split
      · rfl
      · rw [ExtTreeSet.mem_insert, Std.compare_eq_iff_eq]
        exact or_iff_right (Ne.symm hk)
    · obtain ⟨hreplicas, -⟩ := replicas_of_lookup hdata hknown hlookup
      refine ⟨lookup.threads, hreplicas, fun thread hthread => ?_⟩
      refine has_insertKeyFor.mpr (Or.inr ?_)
      split at hin
      · exact absurd hin hout
      · rename_i hgone
        rw [if_neg hgone]
        exact has_insertKeyFor.mpr (.inl ⟨thread, hthread, rfl, rfl⟩)
  · cases hstep
    exact ⟨Asks.afterLookup s lookup, .refl key h, fun _ _ hout hin => absurd hin hout⟩

theorem changeKey_spec {h h' : Handover} {keyRep : ReplicationFactor}
    (hstep : changeKey (s, h) keyRep = .ok (s', h')) :
    Asks (· = keyRep.key) s s' ∧ Handover.Extends keyRep.key h h' ∧
      (isMetadata keyRep.key = .ok false → keyRep.key ∈ s.keyReplicationMap →
        keyRep.key ∉ h.removeSet → keyRep.key ∈ h'.removeSet →
        ∃ threads, s'.Replicas keyRep.key threads ∧
          ∀ thread ∈ threads, h'.addrKeysetMap.Has thread.gossipConnectAddress keyRep.key) := by
  have hnone : ∀ t : ServerState srv, Asks (· = keyRep.key) s t →
      Asks (· = keyRep.key) s (t.updateFactors keyRep) :=
    fun t ht => ht.trans (.updateFactors t keyRep)
  unfold changeKey at hstep
  dsimp only at hstep
  split at hstep
  · obtain ⟨orig, -, hstep⟩ := bind_eq_ok.mp hstep
    have hlooked := hnone _ (Asks.afterLookup s orig)
    split at hstep
    · obtain ⟨hasks, hext, hremoved⟩ := changeStored_spec hstep
      exact ⟨hlooked.trans hasks, hext, fun hdata hknown => hremoved hdata (hlooked.known hknown)⟩
    · cases hstep
      exact ⟨hlooked, .refl _ h, fun _ _ hout hin => absurd hin hout⟩
  · cases hstep
    exact ⟨hnone s (.refl s), .refl _ h, fun _ _ hout hin => absurd hin hout⟩

variable {updates : List ReplicationFactor}

/-- The whole message: what it says about keys it does not mention, and about a key
that it mentions once. -/
theorem changeKeys_spec {h h' : Handover} (hfold : updates.foldlM changeKey (s, h) = .ok (s', h')) :
    Asks (· ∈ updates.map (·.key)) s s' ∧
      (∀ address k, h.addrKeysetMap.Has address k → h'.addrKeysetMap.Has address k) ∧
      (∀ key, key ∉ updates.map (·.key) → (key ∈ h'.removeSet ↔ key ∈ h.removeSet)) ∧
      ∀ key, isMetadata key = .ok false → key ∈ s.keyReplicationMap →
        (updates.map (·.key)).count key = 1 → key ∉ h.removeSet → key ∈ h'.removeSet →
        ∃ threads, s'.Replicas key threads ∧
          ∀ thread ∈ threads, h'.addrKeysetMap.Has thread.gossipConnectAddress key := by
  induction updates generalizing s h with
  | nil =>
    cases hfold
    exact ⟨.refl s', fun _ _ hhas => hhas, fun _ _ => Iff.rfl,
      fun _ _ _ _ hout hin => absurd hin hout⟩
  | cons u us ih =>
    obtain ⟨⟨_, _⟩, hstep, hrest⟩ := foldlM_cons_eq_ok.mp hfold
    obtain ⟨hasks, hext, hremoved⟩ := changeKey_spec hstep
    obtain ⟨hasks', hmono', hsame', hremoved'⟩ := ih hrest
    simp only [map_cons]
    refine ⟨?_, fun a k hhas => hmono' a k (hext.has a k hhas), fun key hkey => ?_,
      fun key hdata hknown hcount hout hin => ?_⟩
    · exact (hasks.mono fun key hkey => hkey ▸ mem_cons_self).trans
        (hasks'.mono fun key hkey => mem_cons_of_mem _ hkey)
    · rw [mem_cons, not_or] at hkey
      exact (hsame' key hkey.2).trans (hext.removed key hkey.1)
    · by_cases hkey : u.key = key
      · subst hkey
        have hlast : u.key ∉ us.map (·.key) := by
          rw [count_cons_self] at hcount
          exact count_eq_zero.mp (Nat.succ_injective hcount)
        obtain ⟨threads, hreplicas, hhas⟩ := hremoved hdata hknown hout ((hsame' _ hlast).mp hin)
        exact ⟨threads, hasks'.replicas hlast hreplicas, fun th hth => hmono' _ _ (hhas th hth)⟩
      · rw [count_cons_of_ne hkey] at hcount
        exact hremoved' key hdata (hasks.known hknown) hcount
          (mt (hext.removed key (Ne.symm hkey)).mp hout) hin

/-- The handler takes three steps: it tells the other workers and looks the keys up, it
sends its batch, and it removes keys. -/
theorem replicationChangeHandler_eq (s : ServerState srv) (updates : List ReplicationFactor) :
    ∃ notices : List (Address × Message),
      (∀ message ∈ notices, message.2 = .replicationChange updates) ∧
      s.replicationChangeHandler updates = (do
        let (t, handover) ← updates.foldlM changeKey (s.send notices, {})
        let t ← t.sendGossip handover.addrKeysetMap
        handover.removeSet.toList.foldlM removeChanged t) := by
  unfold replicationChangeHandler
  split
  · refine ⟨_, fun message hmessage => ?_, rfl⟩
    obtain ⟨_, -, rfl⟩ := mem_map.mp hmessage
    rfl
  · refine ⟨[], fun _ hmessage => absurd hmessage not_mem_nil, ?_⟩
    rw [send, append_nil]

theorem replicationChangeHandler_eq_ok (h : s.replicationChangeHandler updates = .ok s') :
    ∃ notices s₁ handover s₂, (∀ message ∈ notices, message.2 = .replicationChange updates) ∧
      updates.foldlM changeKey (s.send notices, {}) = .ok (s₁, handover) ∧
      s₁.sendGossip handover.addrKeysetMap = .ok s₂ ∧
      handover.removeSet.toList.foldlM removeChanged s₂ = .ok s' := by
  obtain ⟨notices, hnotices, hs⟩ := s.replicationChangeHandler_eq updates
  rw [hs] at h
  obtain ⟨⟨s₁, handover⟩, hfold, h⟩ := bind_eq_ok.mp h
  obtain ⟨s₂, hgossip, hremove⟩ := bind_eq_ok.mp h
  exact ⟨notices, s₁, handover, s₂, hnotices, hfold, hgossip, hremove⟩

theorem removeKey_returns {property : KeyProperty}
    (hstored : s.storedKeyMap[key]? = some property) (htype : property.type ≠ .none) :
    ∃ store, s.removeKey key = .ok { s with store, storedKeyMap := s.storedKeyMap.erase key } := by
  obtain ⟨serializer, hat⟩ := exists_serializer srv htype
  refine ⟨serializer.remove s.store key, bind_eq_ok.mpr ⟨serializer, ?_, rfl⟩⟩
  rw [getD_eq_getD_getElem?, hstored]
  exact hat

/-! ## Removals -/

/-- The key is stored, and the serializer of its type exists. -/
def Removable (s : ServerState srv) (key : Key) : Prop :=
  ∃ property, s.storedKeyMap[key]? = some property ∧ property.type ≠ .none

theorem ReadableKey.removable (h : s.ReadableKey key) : s.Removable key := by
  obtain ⟨property, _, hstored, hentry, -⟩ := h
  refine ⟨property, hstored, fun htype => ?_⟩
  rw [srv.serializers.entry_eq_none.mpr htype] at hentry
  cases hentry

theorem removeKey_returns_iff : (∃ s', s.removeKey key = .ok s') ↔ s.Removable key := by
  constructor
  · rintro ⟨_, h⟩
    obtain ⟨_, hat, -⟩ := bind_eq_ok.mp h
    rw [getD_eq_getD_getElem?] at hat
    cases hstored : s.storedKeyMap[key]? with
    | none =>
      rw [hstored, Option.getD_none, at_none] at hat
      cases hat
    | some property =>
      refine ⟨property, hstored, fun htype => ?_⟩
      rw [hstored, Option.getD_some, htype, at_none] at hat
      cases hat
  · rintro ⟨_, hstored, htype⟩
    obtain ⟨_, hremove⟩ := removeKey_returns hstored htype
    exact ⟨_, hremove⟩

theorem removeKey_stored (h : s.removeKey key = .ok s') :
    s'.storedKeyMap = s.storedKeyMap.erase key := by
  obtain ⟨_, -, h⟩ := bind_eq_ok.mp h
  cases h
  rfl

theorem removeChanged_stored (h : s.removeChanged key = .ok s') :
    s'.storedKeyMap = s.storedKeyMap.erase key := by
  obtain ⟨_, hremove, h⟩ := bind_eq_ok.mp h
  have hstored := removeKey_stored hremove
  cases h
  exact hstored

theorem foldlM_remove_returns_iff {remove : ServerState srv → Key → Except Fault (ServerState srv)}
    (hreturns : ∀ t key, (∃ t', remove t key = .ok t') ↔ t.Removable key)
    (hstored : ∀ t t' key, remove t key = .ok t' → t'.storedKeyMap = t.storedKeyMap.erase key)
    (hnodup : keys.Nodup) :
    (∃ s', keys.foldlM remove s = .ok s') ↔ ∀ key ∈ keys, s.Removable key := by
  rw [foldlM_returns_iff fun _ key => s.Removable key]
  · exact forall_split_iff
  · rintro pre key _ t rfl hpre
    have hmap := foldlM_view storedKeyMap erase (fun key _ t t' => hstored t t' key) hpre
    have hnew : key ∉ pre := fun hmem =>
      (nodup_append.mp hnodup).2.2 key hmem key mem_cons_self rfl
    rw [hreturns, Removable, hmap, getElem?_eraseAll, if_neg hnew]
    rfl

end ServerState

end Testbed.Anna
