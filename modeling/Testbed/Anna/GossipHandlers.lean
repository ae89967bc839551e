import Testbed.Anna.MembershipHandlers
import Testbed.Anna.RequestHandlers

/-! # Gossip between replicas

The four ways in which values travel between threads: `gossip_handler.cpp`, which
merges what another replica sends; the periodic round of `server.cpp`, which sends
the keys of `local_changeset` to all replicas of every tier; the handler of
`replication_change_handler.cpp`, which hands keys over when factors change; and
the redistribution of `server.cpp` after a node has joined.

All three senders collect an `AddressKeysetMap` and pass it to `send_gossip`.
-/
namespace Testbed.Anna

open Std Lib

namespace ServerState
variable {srv : Server}

/-! ## `gossip_handler` -/

variable (s : ServerState srv)

/-- Gossip about a key of this thread.  Unlike in the request handlers, a key
stored with type `NONE` is no exception; a mismatch is only logged. -/
def gossipPut (tuple : KeyTuple) : Except Fault (ServerState srv) :=
  match s.storedKeyMap[tuple.key]? with
  | some property =>
    if property.type ≠ tuple.latticeType then return s
    else s.processPut tuple.key tuple.latticeType tuple.payload
  | none => s.processPut tuple.key tuple.latticeType tuple.payload

/-- Add a tuple to the gossip that is forwarded to each of the threads. -/
def addForward (threads : List ServerThread) (tuple : KeyTuple)
    (gossipMap : ExtTreeMap Address KeyRequest) : ExtTreeMap Address KeyRequest :=
  threads.foldl (fun m thread =>
    let address := thread.gossipConnectAddress
    let request := m.getD address { type := .put }
    m.insert address (preparePutTuple request tuple.key tuple.latticeType tuple.payload)) gossipMap

/-- The body of the loop over the tuples; `gossip_map` is carried along. -/
def gossipTuple (acc : ServerState srv × ExtTreeMap Address KeyRequest) (tuple : KeyTuple) :
    Except Fault (ServerState srv × ExtTreeMap Address KeyRequest) := do
  let (s, gossipMap) := acc
  let lookup ← s.getResponsibleThreads tuple.key [srv.selfTier]
  let s := s.afterLookup lookup
  if lookup.succeed then
    if srv.wt.isIn lookup.threads then
      let s ← s.gossipPut tuple
      return (s, gossipMap)
    else if ← isMetadata tuple.key then
      return (s, addForward lookup.threads tuple gossipMap)
    else
      let s ← s.issueReplicationFactorRequest tuple.key
      return (s.pushGossip tuple.key ⟨tuple.latticeType, tuple.payload⟩, gossipMap)
  else return (s.pushGossip tuple.key ⟨tuple.latticeType, tuple.payload⟩, gossipMap)

def gossipHandler (gossip : KeyRequest) : Except Fault (ServerState srv) := do
  let (s, gossipMap) ← gossip.tuples.foldlM gossipTuple (s, ∅)
  return s.send (gossipMap.toList.map fun p => (p.1, .keyRequest p.2))

/-! ## The periodic round -/

/-- `CacheThread(ip, 0).cache_update_connect_address()`. -/
def cacheUpdateConnectAddress (ip : Address) : Address := "tcp://" ++ ip ++ ":" ++ toString 7150

/-- The caches that keep the key. -/
def addCaches (key : Key) (addrKeysetMap : AddressKeysetMap) : AddressKeysetMap :=
  match s.keyToCacheIps[key]? with
  | none => addrKeysetMap
  | some cacheIps => cacheIps.toList.foldl
      (fun m cacheIp => m.insertKey (cacheUpdateConnectAddress cacheIp) key) addrKeysetMap

/-- One key of `local_changeset`. -/
def roundKey (acc : ServerState srv × AddressKeysetMap) (key : Key) :
    Except Fault (ServerState srv × AddressKeysetMap) := do
  let (s, addrKeysetMap) := acc
  let lookup ← s.getResponsibleThreads key kAllTiers
  let s := s.afterLookup lookup
  -- missing factors are only logged
  let others := if lookup.succeed then
    lookup.threads.filter fun thread => !thread.equals srv.wt else []
  return (s, s.addCaches key (addrKeysetMap.insertKeyFor others key))

/-- The part of the loop of `run` that gossips updates to other threads. -/
def gossipRound : Except Fault (ServerState srv) :=
  if s.localChangeset.isEmpty then return s
  else do
    let (s, addrKeysetMap) ← s.localChangeset.toList.foldlM roundKey (s, ∅)
    let s ← s.sendGossip addrKeysetMap
    return { s with localChangeset := ∅ }

/-! ## `replication_change_handler` -/

/-- Store the factors of an update. -/
def updateFactors (keyRep : ReplicationFactor) : ServerState srv :=
  (s.setGlobalFactors keyRep.key keyRep.globalValues).setLocalFactors keyRep.key keyRep.localValues

/-- One of the entries is less than the factor it replaces. -/
def lowersGlobal (rep : KeyReplication) : List (Tier × Nat) → Bool
  | [] => false
  | entry :: entries => entry.2 < rep.globalAt entry.1 || lowersGlobal (rep.setGlobal entry) entries

def lowersLocal (rep : KeyReplication) : List (Tier × Nat) → Bool
  | [] => false
  | entry :: entries => entry.2 < rep.localAt entry.1 || lowersLocal (rep.setLocal entry) entries

def decrement (keyRep : ReplicationFactor) : Bool :=
  let rep := s.keyReplicationMap.getD keyRep.key default
  lowersGlobal rep keyRep.globalValues || lowersLocal rep keyRep.localValues

/-- The threads that the first of the old ones sends the key to: those that were
not responsible before.  Without old threads there is no first one to compare
with. -/
def newThreads (srv : Server) (decrement : Bool) (origThreads threads : List ServerThread) :
    Except Fault (List ServerThread) :=
  if decrement then return []
  else
    match origThreads with
    | [] => .error .outOfRange
    | first :: _ =>
      return if first.id = srv.wt.id then threads.filter fun th => !th.isIn origThreads else []

/-- What the handler collects: where to send which keys, and which to remove. -/
structure Handover where
  addrKeysetMap : AddressKeysetMap := ∅
  removeSet : ExtTreeSet Key := ∅

/-- A key that is stored, once its new factors are. -/
def changeStored (h : Handover) (key : Key) (decrement : Bool)
    (origThreads : List ServerThread) : Except Fault (ServerState srv × Handover) := do
  let lookup ← s.getResponsibleThreads key kAllTiers
  let s := s.afterLookup lookup
  if lookup.succeed then
    let h := if srv.wt.isIn lookup.threads then h else
      -- this thread is no longer responsible for this key
      ⟨h.addrKeysetMap.insertKeyFor lookup.threads key, h.removeSet.insert key⟩
    let new ← newThreads srv decrement origThreads lookup.threads
    return (s, { h with addrKeysetMap := h.addrKeysetMap.insertKeyFor new key })
  else return (s, h)

/-- The body of the loop over the updates. -/
def changeKey (acc : ServerState srv × Handover) (keyRep : ReplicationFactor) :
    Except Fault (ServerState srv × Handover) := do
  let (s, h) := acc
  if keyRep.key ∈ s.storedKeyMap then
    let orig ← s.getResponsibleThreads keyRep.key kAllTiers
    let s := s.afterLookup orig
    if orig.succeed then
      (s.updateFactors keyRep).changeStored h keyRep.key (s.decrement keyRep) orig.threads
    else return (s.updateFactors keyRep, h)
  else return (s.updateFactors keyRep, h)

/-- The body of the loop that removes keys. -/
def removeChanged (key : Key) : Except Fault (ServerState srv) := do
  let s ← s.removeKey key
  return { s with localChangeset := s.localChangeset.erase key }

def replicationChangeHandler (updates : List ReplicationFactor) :
    Except Fault (ServerState srv) := do
  let s := if srv.wt.tid = 0 then
    s.send ((otherWorkers srv).map fun th =>
      (th.replicationChangeConnectAddress, .replicationChange updates)) else s
  let (s, h) ← updates.foldlM changeKey (s, {})
  let s ← s.sendGossip h.addrKeysetMap
  h.removeSet.toList.foldlM removeChanged s

/-! ## Redistribution after a join -/

def dataRedistributeThreshold : Nat := 50

/-- `sent_keys` of an address: the first keys of its set, up to the threshold. -/
def sentKeys (keySet : ExtTreeSet Key) : List Key := keySet.toList.take dataRedistributeThreshold

variable (joinGossipMap : AddressKeysetMap)

/-- The batch: `sent_keys` for every address. -/
def joinBatch : AddressKeysetMap :=
  joinGossipMap.toList.foldl (fun m joinPair =>
    (sentKeys joinPair.2).foldl (fun m key => m.insertKey joinPair.1 key) m) ∅

/-- `remove_address_set`: the addresses that have nothing left.  The keys are taken
out of a copy of the set, and the entry of any other address stays as it is. -/
def removeAddresses : List Address :=
  (joinGossipMap.toList.filter fun joinPair =>
    ((sentKeys joinPair.2).foldl ExtTreeSet.erase joinPair.2).isEmpty).map Prod.fst

/-- Remove the keys of `join_remove_set`, once all is sent. -/
def removeJoined : Except Fault (ServerState srv) :=
  if s.joinGossipMap.isEmpty then do
    let s ← s.joinRemoveSet.toList.foldlM removeKey s
    return { s with joinRemoveSet := ∅ }
  else return s

/-- The part of the loop of `run` that redistributes data after node joins. -/
def redistribute : Except Fault (ServerState srv) :=
  if s.joinGossipMap.isEmpty then return s
  else do
    let batch := joinBatch s.joinGossipMap
    let s := { s with joinGossipMap :=
      (removeAddresses s.joinGossipMap).foldl ExtTreeMap.erase s.joinGossipMap }
    let s ← s.sendGossip batch
    s.removeJoined

end ServerState

end Testbed.Anna
