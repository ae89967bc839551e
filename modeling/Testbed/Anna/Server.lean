import Testbed.Anna.Responsibility

/-! # The state of a storage server thread

The data that the handlers of a server thread share (`server.cpp`), the interface
of the serializers (`server_utils.hpp`), and the helpers of `utils.cpp`.

A handler is a function from a state to `Except Fault` of a state: what it does to
the containers, to the store, and to the list of messages sent so far.
`Serializer` is the virtual class; its instances keep their values in one store
per thread, which the handlers only change through them.
-/
namespace Testbed.Anna

open Std Lib

/-! ## Serializers -/

/-- `Serializer`, over a store `σ`.  `get` returns the payload and the error, and
may touch the store; `put` merges a payload and returns the new size. -/
structure Serializer (σ : Type) where
  get : σ → Key → (String × AnnaError) × σ
  put : σ → Key → String → Nat × σ
  remove : σ → Key → σ

/-- A read of the key succeeds. -/
def Serializer.Readable {σ : Type} (serializer : Serializer σ) (store : σ) (key : Key) : Prop :=
  (serializer.get store key).1.2 = .noError

/-- `SerializerMap`: the serializers of a thread, by lattice type.  There is one for
every type but `NONE`, and reading through one of them leaves every readable key
readable. -/
structure SerializerMap (σ : Type) where
  entry : LatticeType → Option (Serializer σ)
  entry_eq_none : ∀ {type : LatticeType}, entry type = none ↔ type = .none
  get_readable : ∀ {type type' : LatticeType} {serializer serializer' : Serializer σ},
    entry type = some serializer → entry type' = some serializer' →
    ∀ {store : σ} {key : Key} (key' : Key), serializer.Readable store key →
      serializer.Readable (serializer'.get store key').2 key

/-- `serializers[type]`; for `NONE` that is a null pointer, and using it stops the
process. -/
def SerializerMap.at {σ : Type} (serializers : SerializerMap σ) (type : LatticeType) :
    Except Fault (Serializer σ) :=
  match serializers.entry type with
  | none => .error .nullSerializer
  | some serializer => .ok serializer

/-! ## State -/

structure KeyProperty where
  size : Nat
  type : LatticeType
deriving DecidableEq

structure PendingRequest where
  type : RequestType
  latticeType : LatticeType
  payload : String
  addr : Address
  responseId : String
deriving DecidableEq

structure PendingGossip where
  latticeType : LatticeType
  payload : String
deriving DecidableEq

/-- `AddressKeysetMap`: which keys should be sent to which addresses. -/
abbrev AddressKeysetMap := ExtTreeMap Address (ExtTreeSet Key)

/-- `addr_keyset_map[address].insert(key)`. -/
def AddressKeysetMap.insertKey (m : AddressKeysetMap) (address : Address) (key : Key) :
    AddressKeysetMap :=
  m.insert address ((m.getD address ∅).insert key)

/-- `addr_keyset_map[thread.gossip_connect_address()].insert(key)` for each thread. -/
def AddressKeysetMap.insertKeyFor (m : AddressKeysetMap) (threads : List ServerThread)
    (key : Key) : AddressKeysetMap :=
  threads.foldl (fun m thread => insertKey m thread.gossipConnectAddress key) m

/-- A server thread: its process, its own name, and its serializers. -/
structure Server extends Config where
  wt : ServerThread
  selfJoinCount : Int
  Store : Type
  serializers : SerializerMap Store

/-- What a thread has of its own, whatever its process is. -/
structure Worker where
  wt : ServerThread
  selfJoinCount : Int
  Store : Type
  serializers : SerializerMap Store

/-- The thread of a process with this configuration. -/
def Worker.server (cfg : Config) (w : Worker) : Server :=
  ⟨cfg, w.wt, w.selfJoinCount, w.Store, w.serializers⟩

/-- The variables of `run` that the handlers share; `sent` is what the thread has
sent so far, with the addressees. -/
structure ServerState (srv : Server) extends RingMaps srv.toConfig where
  seed : UInt32
  accessCount : Nat
  pendingRequests : ExtTreeMap Key (List PendingRequest)
  pendingGossip : ExtTreeMap Key (List PendingGossip)
  keyAccessTracker : ExtTreeMap Key (Multiset Nat)
  storedKeyMap : ExtTreeMap Key KeyProperty
  keyReplicationMap : ExtTreeMap Key KeyReplication
  localChangeset : ExtTreeSet Key
  joinRemoveSet : ExtTreeSet Key
  joinGossipMap : AddressKeysetMap
  keyToCacheIps : ExtTreeMap Key (ExtTreeSet Address)
  store : srv.Store
  sent : List (Address × Message)

namespace ServerState
variable {srv : Server}

/-- The state at the start of `run`, before any server is known. -/
def initial (srv : Server) (store : srv.Store) (seed : UInt32) : ServerState srv where
  globalHashRings _ := default
  localHashRings _ := default
  seed := seed
  accessCount := 0
  pendingRequests := ∅
  pendingGossip := ∅
  keyAccessTracker := ∅
  storedKeyMap := ∅
  keyReplicationMap := ∅
  localChangeset := ∅
  joinRemoveSet := ∅
  joinGossipMap := ∅
  keyToCacheIps := ∅
  store := store
  sent := []

variable (s : ServerState srv)

/-- `send_string`. -/
def send (messages : List (Address × Message)) : ServerState srv :=
  { s with sent := s.sent ++ messages }

/-- Record an access to a key. -/
def trackAccess (key : Key) (now : Nat) : ServerState srv :=
  { s with
    keyAccessTracker := s.keyAccessTracker.insert key (now ::ₘ s.keyAccessTracker.getD key 0)
    accessCount := s.accessCount + 1 }

/-- `pending_requests[key].push_back(request)`. -/
def pushRequest (key : Key) (request : PendingRequest) : ServerState srv :=
  { s with pendingRequests :=
      s.pendingRequests.insert key (s.pendingRequests.getD key [] ++ [request]) }

/-- `pending_gossip[key].push_back(gossip)`. -/
def pushGossip (key : Key) (gossip : PendingGossip) : ServerState srv :=
  { s with pendingGossip := s.pendingGossip.insert key (s.pendingGossip.getD key [] ++ [gossip]) }

/-! ## Lookups -/

/-- The call of `get_responsible_threads` that all handlers make. -/
def getResponsibleThreads (s : ServerState srv) (key : Key) (tiers : List Tier) :
    Except Fault Lookup := do
  let metadata ← isMetadata key
  Anna.getResponsibleThreads srv.wt.replicationResponseConnectAddress key metadata s.toRingMaps
    s.keyReplicationMap tiers s.seed

variable {s : ServerState srv} {key : Key} {tiers : List Tier} {lookup : Lookup}
  {rep : KeyReplication}

theorem getResponsibleThreads_known (tiers : List Tier) (hkey : isMetadata key = .ok false)
    (hrep : s.keyReplicationMap[key]? = some rep) :
    s.getResponsibleThreads key tiers = do
      let threads ← responsibleThreads s.toRingMaps key rep tiers
      return ⟨threads, true, s.seed, []⟩ := by
  rw [getResponsibleThreads, hkey]
  change Anna.getResponsibleThreads _ key false _ _ _ _ = _
  rw [Anna.getResponsibleThreads, hrep]
  rfl

theorem getResponsibleThreads_eq_ok (hkey : isMetadata key = .ok false)
    (hrep : s.keyReplicationMap[key]? = some rep) :
    s.getResponsibleThreads key tiers = .ok lookup ↔
      ∃ threads, responsibleThreads s.toRingMaps key rep tiers = .ok threads ∧
        lookup = ⟨threads, true, s.seed, []⟩ := by
  rw [getResponsibleThreads_known tiers hkey hrep, bind_eq_ok]
  exact exists_congr fun threads => and_congr_right fun _ => pure_eq_ok.trans eq_comm

/-- A lookup finds the factors, or asks for those it does not know. -/
theorem lookup_spec (h : s.getResponsibleThreads key tiers = .ok lookup) :
    (lookup.succeed = true ∧ lookup.sent = [] ∧
        (isMetadata key = .ok true ∨ ∃ rep, s.keyReplicationMap[key]? = some rep)) ∨
      isMetadata key = .ok false ∧ s.keyReplicationMap[key]? = none ∧ ∃ message seed,
        issueReplicationFactorRequest srv.wt.replicationResponseConnectAddress key s.toRingMaps
          s.seed = .ok (message, seed) ∧ lookup = ⟨[], false, seed, [message]⟩ := by
  obtain ⟨metadata, hkey, h⟩ := bind_eq_ok.mp h
  cases metadata with
  | true =>
    obtain ⟨threads, -, h⟩ := bind_eq_ok.mp h
    cases h
    exact .inl ⟨rfl, rfl, .inl hkey⟩
  | false =>
    rw [Anna.getResponsibleThreads, if_neg (by decide)] at h
    split at h
    · rename_i hnone
      obtain ⟨⟨message, seed⟩, hissue, h⟩ := bind_eq_ok.mp h
      cases h
      exact .inr ⟨hkey, hnone, message, seed, hissue, rfl⟩
    · rename_i rep hrep
      obtain ⟨threads, -, h⟩ := bind_eq_ok.mp h
      cases h
      exact .inl ⟨rfl, rfl, .inr ⟨rep, hrep⟩⟩

theorem exists_factors_of_succeed (hkey : isMetadata key = .ok false)
    (hlookup : s.getResponsibleThreads key tiers = .ok lookup) (hsucceed : lookup.succeed = true) :
    ∃ rep, s.keyReplicationMap[key]? = some rep := by
  rcases lookup_spec hlookup with ⟨-, -, htrue | hrep⟩ | ⟨-, -, _, _, -, rfl⟩
  · cases hkey.symm.trans htrue
  · exact hrep
  · cases hsucceed

/-- The state after a lookup. -/
def afterLookup (s : ServerState srv) (lookup : Lookup) : ServerState srv :=
  { s with seed := lookup.seed, sent := s.sent ++ lookup.sent }

theorem afterLookup_known (s : ServerState srv) (threads : List ServerThread) :
    s.afterLookup ⟨threads, true, s.seed, []⟩ = s := by
  unfold afterLookup
  rw [List.append_nil]

theorem lookup_isGet (h : s.getResponsibleThreads key tiers = .ok lookup) : ∀ message ∈ lookup.sent,
      ∃ request, message.2 = .keyRequest request ∧ request.type = .get := by
  intro message hmessage
  rcases lookup_spec h with ⟨-, hsent, -⟩ | ⟨-, -, _, _, hissue, rfl⟩
  · rw [hsent] at hmessage
    cases hmessage
  · rw [List.mem_singleton.mp hmessage]
    exact issue_isGet hissue

/-- The call of `issue_replication_factor_request` that all handlers make. -/
def issueReplicationFactorRequest (s : ServerState srv) (key : Key) :
    Except Fault (ServerState srv) := do
  let (message, seed) ← Anna.issueReplicationFactorRequest
    srv.wt.replicationResponseConnectAddress key s.toRingMaps s.seed
  return { s with seed, sent := s.sent ++ [message] }

/-! ## `utils.cpp` -/

/-- `process_get`, with the serializer of a type. -/
def processGet (s : ServerState srv) (key : Key) (type : LatticeType) :
    Except Fault ((String × AnnaError) × ServerState srv) := do
  let serializer ← srv.serializers.at type
  let res := serializer.get s.store key
  return (res.1, { s with store := res.2 })

/-- `process_put`, with the serializer of the lattice type. -/
def processPut (s : ServerState srv) (key : Key) (latticeType : LatticeType) (payload : String) :
    Except Fault (ServerState srv) := do
  let serializer ← srv.serializers.at latticeType
  let res := serializer.put s.store key payload
  return { s with store := res.2, storedKeyMap := s.storedKeyMap.insert key ⟨res.1, latticeType⟩ }

/-- `serializers[stored_key_map[key].type_]->remove(key); stored_key_map.erase(key)`.
A key that is not stored reads as a fresh entry, of type `NONE`. -/
def removeKey (s : ServerState srv) (key : Key) : Except Fault (ServerState srv) := do
  let serializer ← srv.serializers.at ((s.storedKeyMap.getD key ⟨0, .none⟩).type)
  return { s with store := serializer.remove s.store key, storedKeyMap := s.storedKeyMap.erase key }

/-- One key of `send_gossip`: skipped unless it is stored and readable. -/
def gossipKey (acc : ServerState srv × KeyRequest) (key : Key) :
    Except Fault (ServerState srv × KeyRequest) :=
  match acc.1.storedKeyMap[key]? with
  | none => return acc
  | some property => do
    let (res, s) ← acc.1.processGet key property.type
    return (s, if res.2 = .noError then preparePutTuple acc.2 key property.type res.1 else acc.2)

/-- One address of `send_gossip`. -/
def gossipAddress (acc : ServerState srv × List (Address × Message))
    (keyPair : Address × ExtTreeSet Key) :
    Except Fault (ServerState srv × List (Address × Message)) := do
  let (s, request) ← keyPair.2.toList.foldlM gossipKey (acc.1, { type := .put })
  return (s, acc.2 ++ [(keyPair.1, .keyRequest request)])

def sendGossip (s : ServerState srv) (addrKeysetMap : AddressKeysetMap) :
    Except Fault (ServerState srv) := do
  let (s, messages) ← addrKeysetMap.toList.foldlM gossipAddress (s, [])
  return s.send messages

end ServerState

end Testbed.Anna
