import Testbed.Anna.HashRing
import Testbed.Anna.Proto
import Testbed.Lib.FallibleRuns

/-! # Which threads are responsible for a key

`hash_ring.cpp`: a key belongs, in every tier, to the first servers that a walk
around the tier's global ring meets, and on each of these servers to the first
threads that a walk around the tier's local ring meets.  How many, the key's
replication factors say; they are themselves stored under a metadata key, and a
lookup for a key whose factors are unknown asks for them and gives up
(`getResponsibleThreads`).

The two walks are `while` loops that stop when they have met enough servers or
threads.  After one whole turn they meet nobody new, so a loop that has not
stopped by then never does: that is the fault `nonTermination`.
-/
namespace Testbed.Anna

open Std Lib

/-- The messages that threads send each other. -/
inductive Message where
  | keyRequest (request : KeyRequest)
  | keyResponse (response : KeyResponse)
  | replicationChange (updates : List ReplicationFactor)
  | text (serialized : String)
deriving DecidableEq

/-- The process' configuration (the globals of `kvs_common.hpp`) and what it uses
of its libraries: `std::hash<string>`, `rand_r` and protobuf. -/
structure Config where
  selfTier : Tier
  threadNum : Nat
  /-- `kTierMetadata[tier].default_replication_` -/
  defaultReplication : Tier → Nat
  defaultLocalReplication : Nat
  strHash : String → UInt64
  randR : UInt32 → Nat × UInt32
  lwwValue : Codec LWWValue
  replicationFactor : Codec ReplicationFactor

def kMetadataReplicationFactor : Nat := 1

/-- `KeyReplication`; a tier without an entry reads as `0`. -/
structure KeyReplication where
  globalReplication : Tier → Option Nat
  localReplication : Tier → Option Nat

namespace KeyReplication

instance : Inhabited KeyReplication := ⟨⟨fun _ => none, fun _ => none⟩⟩

variable (rep : KeyReplication)

def globalAt (tier : Tier) : Nat := (rep.globalReplication tier).getD 0

def localAt (tier : Tier) : Nat := (rep.localReplication tier).getD 0

def setGlobal (entry : Tier × Nat) : KeyReplication :=
  { rep with globalReplication := Function.update rep.globalReplication entry.1 (some entry.2) }

def setLocal (entry : Tier × Nat) : KeyReplication :=
  { rep with localReplication := Function.update rep.localReplication entry.1 (some entry.2) }

end KeyReplication

/-! ## The two walks -/

/-- The loop of `responsible_global`; `threads` are the servers met so far. -/
def globalLoop (globalRep : Nat) (threads : List ServerThread) :
    List ServerThread → Except Fault (List ServerThread)
  | [] => if threads.length < globalRep then .error .nonTermination else .ok threads
  | pos :: rest =>
    if threads.length < globalRep then
      globalLoop globalRep (if pos.isIn threads then threads else threads ++ [pos]) rest
    else .ok threads

/-- The loop of `responsible_local`; `tids` are the threads met so far. -/
def localLoop (localRep : Nat) (tids : ExtTreeSet Nat) :
    List ServerThread → Except Fault (ExtTreeSet Nat)
  | [] => if tids.size < localRep then .error .nonTermination else .ok tids
  | pos :: rest =>
    if tids.size < localRep then localLoop localRep (tids.insert pos.tid) rest
    else .ok tids

section Lookups
variable (cfg : Config)

abbrev GlobalHashRing := HashRing (globalHasher cfg.strHash)
abbrev LocalHashRing := HashRing (localHasher cfg.strHash)

/-- The ring maps of a process; a tier without a ring has an empty one. -/
structure RingMaps where
  globalHashRings : Tier → GlobalHashRing cfg
  localHashRings : Tier → LocalHashRing cfg

variable {cfg}

def responsibleGlobal (key : Key) (globalRep : Nat) (ring : GlobalHashRing cfg) :
    Except Fault (List ServerThread) :=
  match ring.turn key with
  | [] => .ok []
  | pos :: rest => globalLoop globalRep [] (pos :: rest)

def responsibleLocal (key : Key) (localRep : Nat) (ring : LocalHashRing cfg) :
    Except Fault (ExtTreeSet Nat) :=
  match ring.turn key with
  | [] => .ok ∅
  | pos :: rest => localLoop localRep ∅ (pos :: rest)

/-- The threads of one tier: on each of the servers the same thread numbers. -/
def tierThreads (key : Key) (globalRep localRep : Nat) (globalRing : GlobalHashRing cfg)
    (localRing : LocalHashRing cfg) : Except Fault (List ServerThread) := do
  match ← responsibleGlobal key globalRep globalRing with
  | [] => return []
  | thread :: threads =>
    let tids ← responsibleLocal key localRep localRing
    return (thread :: threads).flatMap fun thread =>
      tids.toList.map fun tid => ⟨thread.publicIp, thread.privateIp, tid, 0⟩

theorem tierThreads_one {key : Key} {globalRing : GlobalHashRing cfg}
    {localRing : LocalHashRing cfg} {server thread : ServerThread} {servers threads}
    (hglobal : globalRing.turn key = server :: servers)
    (hlocal : localRing.turn key = thread :: threads) :
    tierThreads key 1 1 globalRing localRing =
      .ok [⟨server.publicIp, server.privateIp, thread.tid, 0⟩] := by
  have hservers : responsibleGlobal key 1 globalRing = .ok [server] := by
    rw [responsibleGlobal, hglobal]
    cases servers <;> rfl
  have htids : responsibleLocal key 1 localRing = .ok (ExtTreeSet.insert ∅ thread.tid) := by
    rw [responsibleLocal, hlocal]
    cases threads <;> rfl
  rw [tierThreads, hservers]
  simp only [htids]
  rfl

/-- The loop of `get_responsible_threads` over the tiers, for known factors. -/
def responsibleThreads (rings : RingMaps cfg) (key : Key) (rep : KeyReplication) :
    List Tier → Except Fault (List ServerThread)
  | [] => .ok []
  | tier :: tiers => do
    let threads ← tierThreads key (rep.globalAt tier) (rep.localAt tier)
      (rings.globalHashRings tier) (rings.localHashRings tier)
    let result ← responsibleThreads rings key rep tiers
    return threads ++ result

theorem responsibleThreads_one (rings : RingMaps cfg) (key : Key) (rep : KeyReplication)
    (tier : Tier) :
    responsibleThreads rings key rep [tier] =
      tierThreads key (rep.globalAt tier) (rep.localAt tier) (rings.globalHashRings tier)
        (rings.localHashRings tier) := by
  rw [responsibleThreads]
  cases tierThreads key (rep.globalAt tier) (rep.localAt tier) (rings.globalHashRings tier)
      (rings.localHashRings tier) with
  | error => rfl
  | ok threads => exact congrArg Except.ok (List.append_nil threads)

def getResponsibleThreadsMetadata (rings : RingMaps cfg) (key : Key) :
    Except Fault (List ServerThread) :=
  tierThreads key kMetadataReplicationFactor cfg.defaultLocalReplication
    (rings.globalHashRings .memory) (rings.localHashRings .memory)

/-- `issue_replication_factor_request`: the message, its addressee and the new
seed. -/
def issueReplicationFactorRequest (responseAddress : Address) (key : Key) (rings : RingMaps cfg)
    (seed : UInt32) : Except Fault ((Address × Message) × UInt32) := do
  let replicationKey := getMetadataKey key
  let threads ← getResponsibleThreadsMetadata rings replicationKey
  let (r, seed) := cfg.randR seed
  match threads[r % threads.length]? with
  -- only an empty list has no element there
  | none => .error .divisionByZero
  | some target =>
    let keyRequest : KeyRequest := { type := .get, responseAddress }
    return ((target.keyRequestConnectAddress,
      .keyRequest (prepareGetTuple keyRequest replicationKey .lww)), seed)

theorem issue_isGet {responseAddress : Address} {key : Key} {rings : RingMaps cfg}
    {seed seed' : UInt32} {message : Address × Message}
    (h : issueReplicationFactorRequest responseAddress key rings seed = .ok (message, seed')) :
    ∃ request, message.2 = .keyRequest request ∧ request.type = .get := by
  obtain ⟨_, -, h⟩ := bind_eq_ok.mp h
  dsimp only at h
  split at h
  · cases h
  · cases h
    exact ⟨_, rfl, rfl⟩

/-- What a lookup leaves: the threads, whether it succeeded, the seed, and what
it has sent. -/
structure Lookup where
  threads : List ServerThread
  succeed : Bool
  seed : UInt32
  sent : List (Address × Message)

def getResponsibleThreads (responseAddress : Address) (key : Key) (metadata : Bool)
    (rings : RingMaps cfg) (keyReplicationMap : ExtTreeMap Key KeyReplication)
    (tiers : List Tier) (seed : UInt32) : Except Fault Lookup :=
  if metadata then do
    let threads ← getResponsibleThreadsMetadata rings key
    return ⟨threads, true, seed, []⟩
  else
    match keyReplicationMap[key]? with
    | none => do
      let (message, seed) ← issueReplicationFactorRequest responseAddress key rings seed
      return ⟨[], false, seed, [message]⟩
    | some rep => do
      let result ← responsibleThreads rings key rep tiers
      return ⟨result, true, seed, []⟩

end Lookups

end Testbed.Anna
