import Testbed.Anna.Responsibility

/-! # Changing replication factors

`replication_helpers.cpp` of the monitor: `change_replication_factor` writes new factors
into the monitor's own map, stores them under the keys' metadata keys, in one request for
each server that is asked, and announces those that were stored to the servers of the
key and to the routing nodes.  The factors of keys whose request failed are put back.
-/
namespace Testbed.Anna

open Std Lib

/-- The monitoring process: its configuration and its address. -/
structure Monitor extends Config where
  ip : Address

def Monitor.responseConnectAddress (monitor : Monitor) : Address :=
  "tcp://" ++ monitor.ip ++ ":" ++ toString 6650

/-- The variables of the monitor's `main` that a change of factors uses; `sent` is what
the monitor has sent so far. -/
structure MonitorState (monitor : Monitor) extends RingMaps monitor.toConfig where
  routingIps : List Address
  keyReplicationMap : ExtTreeMap Key KeyReplication
  rid : UInt32
  sent : List (Address × Message)

/-- What comes from outside in a call of `change_replication_factor`: `rand()` and the
clock, by the key that they are used for, and the answers, by the server that was asked;
there is none if the request timed out. -/
structure Surroundings where
  rand : Key → Nat
  timestamp : Key → UInt64
  answer : Address → Option KeyResponse

/-- The values of `Tier`. -/
def tiers : List Tier := [.tierUnspecified, .memory, .disk, .routing]

namespace KeyReplication

/-- `operator==`: only the entries of the left hand side are looked at. -/
def equals (lhs rhs : KeyReplication) : Bool :=
  tiers.all fun tier =>
    (lhs.globalReplication tier).all (fun value => rhs.globalReplication tier = some value) &&
      (lhs.localReplication tier).all (fun value => rhs.localReplication tier = some value)

/-- `global_replication_[tier]` makes an entry where there is none. -/
def touchGlobal (rep : KeyReplication) (tier : Tier) : KeyReplication :=
  rep.setGlobal (tier, rep.globalAt tier)

/-- The factors as a message. -/
def toReplicationFactor (rep : KeyReplication) (key : Key) : ReplicationFactor where
  key := key
  globalValues := tiers.filterMap fun tier => (rep.globalReplication tier).map (tier, ·)
  localValues := tiers.filterMap fun tier => (rep.localReplication tier).map (tier, ·)

end KeyReplication

def createNewReplicationVector (gm ge lm le : Nat) : KeyReplication :=
  (((default : KeyReplication).setGlobal (.memory, gm)).setGlobal (.disk, ge)
    |>.setLocal (.memory, lm)).setLocal (.disk, le)

namespace MonitorState
variable {monitor : Monitor} (s : MonitorState monitor)

/-- `key_replication_map[key]`, as it reads. -/
def factors (key : Key) : KeyReplication :=
  s.keyReplicationMap.getD key default

def setFactors (key : Key) (rep : KeyReplication) : MonitorState monitor :=
  { s with keyReplicationMap := s.keyReplicationMap.insert key rep }

/-! ## Storing the factors -/

abbrev AddrRequestMap := ExtTreeMap Address KeyRequest

variable (out : Surroundings)

/-- `prepare_metadata_request`: the address of the request that the key goes into. -/
def prepareMetadataRequest (key : Key) (addrRequestMap : AddrRequestMap) (type : RequestType) :
    Except Fault (Option Address × AddrRequestMap × MonitorState monitor) := do
  let threads ← getResponsibleThreadsMetadata s.toRingMaps key
  match threads[out.rand key % threads.length]? with
  -- no servers have joined yet
  | none => return (none, addrRequestMap, s)
  | some thread =>
    let target := thread.keyRequestConnectAddress
    if target ∈ addrRequestMap then return (some target, addrRequestMap, s)
    else
      let responseAddress := monitor.responseConnectAddress
      let requestId := responseAddress ++ ":" ++ toString s.rid.toNat
      return (some target, addrRequestMap.insert target { type, responseAddress, requestId },
        { s with rid := s.rid + 1 })

def prepareMetadataPutRequest (key : Key) (value : String) (addrRequestMap : AddrRequestMap) :
    Except Fault (AddrRequestMap × MonitorState monitor) := do
  match ← s.prepareMetadataRequest out key addrRequestMap .put with
  | (none, addrRequestMap, s) => return (addrRequestMap, s)
  | (some target, addrRequestMap, s) =>
    let payload := monitor.lwwValue.serializeAsString ⟨out.timestamp key, value⟩
    return (addrRequestMap.insert target
      (preparePutTuple (addrRequestMap.getD target {}) key .lww payload), s)

/-- The maps of the first loop: `orig_key_replication_map_info` and `addr_request_map`. -/
structure Prepared (monitor : Monitor) where
  state : MonitorState monitor
  orig : ExtTreeMap Key KeyReplication := ∅
  addrRequestMap : AddrRequestMap := ∅

/-- The new factors of one key. -/
def prepareKey (acc : Prepared monitor) (request : Key × KeyReplication) :
    Except Fault (Prepared monitor) := do
  let rep := acc.state.factors request.1
  let orig := acc.orig.insert request.1 rep
  -- don't send an update if we're not changing the metadata
  if request.2.equals rep then
    return { acc with state := acc.state.setFactors request.1 rep, orig }
  else
    let repData := request.2.toReplicationFactor request.1
    let (addrRequestMap, state) ←
      (acc.state.setFactors request.1 request.2).prepareMetadataPutRequest out
        (getMetadataKey request.1) (monitor.replicationFactor.serializeAsString repData)
        acc.addrRequestMap
    return { state, orig, addrRequestMap }

def prepareKeys (requests : ExtTreeMap Key KeyReplication) : Except Fault (Prepared monitor) :=
  requests.toList.foldlM (prepareKey out) { state := s }

/-- The keys that the answer to one request, or its absence, makes fail. -/
def failedBy (request : Address × KeyRequest) : List Key :=
  match out.answer request.1 with
  | none => request.2.tuples.map fun tuple => getKeyFromMetadata tuple.key
  | some res => (res.tuples.filter fun tuple => tuple.error = .wrongThread).map fun tuple =>
      getKeyFromMetadata tuple.key

def failedKeys (addrRequestMap : AddrRequestMap) : ExtTreeSet Key :=
  addrRequestMap.toList.foldl (fun failed request =>
    (failedBy out request).foldl (fun failed key => failed.insert key) failed) ∅

/-! ## Announcing them -/

abbrev ReplicationFactorMap := ExtTreeMap Address (List ReplicationFactor)

def prepareReplicationFactorUpdate (key : Key)
    (replicationFactorMap : ReplicationFactorMap) (address : Address) : ReplicationFactorMap :=
  replicationFactorMap.insert address
    (replicationFactorMap.getD address [] ++ [(s.factors key).toReplicationFactor key])

/-- The servers of the key in one tier. -/
def announceTier (orig : KeyReplication) (key : Key)
    (acc : MonitorState monitor × ReplicationFactorMap) (tier : Tier) :
    Except Fault (MonitorState monitor × ReplicationFactorMap) := do
  let s := acc.1.setFactors key ((acc.1.factors key).touchGlobal tier)
  let rep := max ((s.factors key).globalAt tier) (orig.globalAt tier)
  let threads ← responsibleGlobal key rep (s.globalHashRings tier)
  return (s, threads.foldl (fun m thread =>
    s.prepareReplicationFactorUpdate key m thread.replicationChangeConnectAddress) acc.2)

/-- All servers of the key, and the routing nodes. -/
def announceKey (orig : ExtTreeMap Key KeyReplication) (failed : ExtTreeSet Key)
    (acc : MonitorState monitor × ReplicationFactorMap) (key : Key) :
    Except Fault (MonitorState monitor × ReplicationFactorMap) :=
  if key ∈ failed then return acc
  else do
    let acc ← kAllTiers.foldlM (announceTier (orig.getD key default) key) acc
    return (acc.1, acc.1.routingIps.foldl (fun m ip =>
      acc.1.prepareReplicationFactorUpdate key m
        (RoutingThread.mk ip 0).replicationChangeConnectAddress) acc.2)

def changeReplicationFactor
    (requests : ExtTreeMap Key KeyReplication) : Except Fault (MonitorState monitor) := do
  let prepared ← s.prepareKeys out requests
  let failed := failedKeys out prepared.addrRequestMap
  let (s, replicationFactorMap) ←
    (requests.toList.map Prod.fst).foldlM (announceKey prepared.orig failed) (prepared.state, ∅)
  -- restore rep factor for failed keys
  let s := failed.toList.foldl (fun s key => s.setFactors key (prepared.orig.getD key default)) s
  return { s with
           sent := s.sent ++
             prepared.addrRequestMap.toList.map (fun pair => (pair.1, .keyRequest pair.2)) ++
             replicationFactorMap.toList.map (fun pair => (pair.1, .replicationChange pair.2)) }

end MonitorState

end Testbed.Anna
