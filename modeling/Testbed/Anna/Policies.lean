import Testbed.Anna.ReplicationHelpers
import Testbed.Anna.RingWalks

/-! # The policies of the monitor

`movement_policy.cpp`, `slo_policy.cpp` and `elasticity.cpp`: from what the monitor has
observed, the two policies choose new replication factors for some keys and pass them to
`change_replication_factor`, and they add and remove nodes.

Factors and node counts are `unsigned`, and so is the arithmetic on them.  Reading
`key_replication_map[key].global_replication_[tier]` makes entries where there are none.
-/
namespace Testbed.Anna

open Std Lib

/-- `double`, as much of it as the policies use; nothing is fixed about its rounding. -/
structure DoubleOps where
  F : Type
  /-- `decimal m k` is the literal with the digits of `m`, `k` of them after the point -/
  decimal : Nat → Nat → F
  /-- the conversion from the unsigned types -/
  ofNat : Nat → F
  add : F → F → F
  sub : F → F → F
  mul : F → F → F
  div : F → F → F
  ceil : F → F
  lt : F → F → Bool
  le : F → F → Bool
  toUnsigned : F → UInt32
  toUnsignedLongLong : F → UInt64

/-- The monitor with the settings of its policies. -/
structure Policy extends Monitor where
  managementIp : Address
  minimumReplicaNumber : UInt32
  memoryThreadCount : UInt32
  /-- `kTierMetadata[tier].thread_number_` -/
  threadNumber : Tier → UInt32
  /-- `kTierMetadata[tier].node_capacity_` -/
  nodeCapacity : Tier → UInt64
  enableTiering : Bool
  enableElasticity : Bool
  enableSelectiveRep : Bool
  double : DoubleOps

def kKeyPromotionThreshold : UInt32 := 0
def kKeyDemotionThreshold : UInt32 := 1
def kMinMemoryTierSize : UInt32 := 1
def kGracePeriod : UInt32 := 120
def kSloWorst : UInt32 := 3000

/-- `kMaxMemoryNodeConsumption` and `kMaxEbsNodeConsumption`. -/
def DoubleOps.maxNodeConsumption (d : DoubleOps) : Tier → d.F
  | .memory => d.decimal 6 1
  | _ => d.decimal 75 2

/-- `SummaryStats`, the fields that the two policies read. -/
structure SummaryStats (double : DoubleOps) where
  keyAccessMean : double.F
  keyAccessStd : double.F
  totalMemoryConsumption : UInt64
  totalEbsConsumption : UInt64
  requiredMemoryNode : UInt32
  minMemoryOccupancy : double.F
  minOccupancyMemoryPublicIp : Address
  minOccupancyMemoryPrivateIp : Address
  avgLatency : double.F

/-- What a policy is called with.  The access summary is listed in the order in which the
loops go through it; `timeElapsed` are the seconds since `grace_start`. -/
structure Observations (double : DoubleOps) where
  ss : SummaryStats double
  memoryNodeCount : UInt32
  ebsNodeCount : UInt32
  keyAccessSummary : List (Key × UInt32)
  distinct : keyAccessSummary.Pairwise fun a b => a.1 ≠ b.1
  keySize : ExtTreeMap Key UInt32
  latencyMissRatioMap : ExtTreeMap Key (double.F × UInt32)
  timeElapsed : Int

/-- The variables of the monitor's `main` that the policies use. -/
structure PolicyState (policy : Policy) extends MonitorState policy.toMonitor where
  newMemoryCount : UInt32
  newEbsCount : UInt32
  removingMemoryNode : Bool
  removingEbsNode : Bool
  departingNodeMap : ExtTreeMap Address UInt32

abbrev Requests := ExtTreeMap Key KeyReplication

/-- `local_replication_[tier]` makes an entry where there is none. -/
def KeyReplication.touchLocal (rep : KeyReplication) (tier : Tier) : KeyReplication :=
  rep.setLocal (tier, rep.localAt tier)

namespace PolicyState
variable {policy : Policy} (s : PolicyState policy)

/-! ## Reading factors -/

/-- `key_replication_map[key].global_replication_[tier]`. -/
def globalFactor (key : Key) (tier : Tier) : UInt32 :=
  UInt32.ofNat ((s.factors key).globalAt tier)

def localFactor (key : Key) (tier : Tier) : UInt32 :=
  UInt32.ofNat ((s.factors key).localAt tier)

def setFactors (key : Key) (rep : KeyReplication) : PolicyState policy :=
  { s with keyReplicationMap := s.keyReplicationMap.insert key rep }

/-- The entry that reading a global factor leaves behind. -/
def touchGlobal (key : Key) (tier : Tier) : PolicyState policy :=
  s.setFactors key ((s.factors key).touchGlobal tier)

def touchLocal (key : Key) (tier : Tier) : PolicyState policy :=
  s.setFactors key ((s.factors key).touchLocal tier)

/-- `create_new_replication_vector`, with `unsigned` factors. -/
def replicationVector (gm ge lm le : UInt32) : KeyReplication :=
  createNewReplicationVector gm.toNat ge.toNat lm.toNat le.toNat

/-! ## Elasticity -/

def managementAddress (policy : Policy) : Address := "tcp://" ++ policy.managementIp ++ ":7001"

def send (message : Address × Message) : PolicyState policy :=
  { s with sent := s.sent ++ [message] }

/-- `add_node` for the memory tier. -/
def addMemoryNode (number : UInt32) : PolicyState policy :=
  { s.send (managementAddress policy, .text ("add:" ++ toString number.toNat ++ ":memory")) with
    newMemoryCount := number }

/-- `add_node` for the disk tier. -/
def addEbsNode (number : UInt32) : PolicyState policy :=
  { s.send (managementAddress policy, .text ("add:" ++ toString number.toNat ++ ":ebs")) with
    newEbsCount := number }

def departDoneConnectAddress (policy : Policy) : Address :=
  "tcp://" ++ policy.ip ++ ":" ++ toString 6700

variable (node : ServerThread)

/-- `remove_node`, without the flag that the caller passes. -/
def orderDeparture : PolicyState policy :=
  { s.send (node.selfDepartConnectAddress, .text (departDoneConnectAddress policy)) with
    departingNodeMap := s.departingNodeMap.insert node.privateIp (policy.threadNumber .memory) }

/-- `remove_node` with `removing_memory_node`. -/
def removeMemoryNode : PolicyState policy :=
  { s.orderDeparture node with removingMemoryNode := true }

/-- `remove_node` with `removing_ebs_node`. -/
def removeEbsNode : PolicyState policy :=
  { s.orderDeparture node with removingEbsNode := true }

/-! ## Calls of `change_replication_factor` -/

/-- A part of a policy: the requests that it has passed to `change_replication_factor`,
call by call, and the state it ends in. -/
structure Run (policy : Policy) where
  calls : List Requests := []
  result : Except Fault (PolicyState policy)

/-- The next part starts where this one ends. -/
def Run.andThen (run : Run policy) (next : PolicyState policy → Run policy) : Run policy :=
  match run.result with
  | .ok s => { calls := run.calls ++ (next s).calls, result := (next s).result }
  | .error e => { calls := run.calls, result := .error e }

/-- Nothing is changed. -/
def Run.done : Run policy := { result := .ok s }

/-- `change_replication_factor`. -/
def change (out : Surroundings) (requests : Requests) : Run policy where
  calls := [requests]
  result := (s.toMonitorState.changeReplicationFactor out requests).map fun t =>
    { s with toMonitorState := t }

/-! ## `movement_policy` -/

variable (obs : Observations policy.double)

/-- The storage below the limit of a tier: its nodes' share, less what is used. -/
def freeStorage (policy : Policy) (tier : Tier) (nodeCount : UInt32) (consumption : UInt64) :
    UInt64 :=
  let d := policy.double
  d.toUnsignedLongLong (d.sub (d.mul (d.mul (d.maxNodeConsumption tier)
    (d.ofNat (policy.nodeCapacity tier).toNat)) (d.ofNat nodeCount.toNat))
    (d.ofNat consumption.toNat))

def freeMemory : UInt64 :=
  freeStorage policy .memory obs.memoryNodeCount obs.ss.totalMemoryConsumption

def freeEbs : UInt64 :=
  freeStorage policy .disk obs.ebsNodeCount obs.ss.totalEbsConsumption

/-- `total_memory_node_needed` and `total_ebs_node_needed`. -/
def nodesNeeded (policy : Policy) (tier : Tier) (consumption required : UInt64) : UInt32 :=
  let d := policy.double
  d.toUnsigned (d.ceil (d.div (d.ofNat (consumption + required).toNat)
    (d.mul (d.maxNodeConsumption tier) (d.ofNat (policy.nodeCapacity tier).toNat))))

/-- The variables of the first two loops. -/
structure Movement (policy : Policy) where
  state : PolicyState policy
  requests : Requests := ∅
  requiredStorage : UInt64 := 0
  overflow : Bool := false

variable (acc : Movement policy)

/-- The storage that a key needs: it is requested if that is still free. -/
def Movement.require (free : UInt64) (key : Key)
    (rep : PolicyState policy → PolicyState policy × KeyReplication) : Movement policy :=
  let requiredStorage := acc.requiredStorage + (obs.keySize.getD key 0).toUInt64
  if free < requiredStorage then { acc with requiredStorage, overflow := true }
  else { acc with
         state := (rep acc.state).1
         requests := acc.requests.insert key (rep acc.state).2
         requiredStorage }

/-- The factors of a key that moves into the memory tier. -/
def promoted (s : PolicyState policy) (key : Key) : KeyReplication :=
  replicationVector (s.globalFactor key .memory + 1) (s.globalFactor key .disk - 1)
    (s.localFactor key .memory) (s.localFactor key .disk)

def promoteKey (entry : Key × UInt32) : Except Fault (Movement policy) := do
  let key := entry.1
  if ← isMetadata key then return acc
  else if kKeyPromotionThreshold < entry.2 then
    let acc := { acc with state := acc.state.touchGlobal key .memory }
    if acc.state.globalFactor key .memory = 0 ∧ key ∈ obs.keySize then
      return acc.require obs (freeMemory obs) key fun s =>
        ((((s.touchGlobal key .memory).touchGlobal key .disk).touchLocal key .memory).touchLocal
          key .disk, s.promoted key)
    else return acc
  else return acc

/-- Promote hot keys to the memory tier. -/
def promote (s : PolicyState policy) (out : Surroundings) : Run policy :=
  if policy.enableTiering then
    match obs.keyAccessSummary.foldlM (promoteKey obs) { state := s } with
    | .error e => { result := .error e }
    | .ok acc => (acc.state.change out acc.requests).andThen fun s =>
      if policy.enableElasticity ∧ acc.overflow ∧ s.newMemoryCount = 0 ∧
          kGracePeriod < UInt32.ofInt obs.timeElapsed then
        let needed := nodesNeeded policy .memory obs.ss.totalMemoryConsumption
          acc.requiredStorage
        if obs.memoryNodeCount < needed then .done (s.addMemoryNode (needed - obs.memoryNodeCount))
        else .done s
      else .done s
  else .done s

def demoteKey (entry : Key × UInt32) : Except Fault (Movement policy) := do
  let key := entry.1
  if ← isMetadata key then return acc
  else if entry.2 < kKeyDemotionThreshold then
    let acc := { acc with state := acc.state.touchGlobal key .memory }
    if 0 < acc.state.globalFactor key .memory ∧ key ∈ obs.keySize then
      return acc.require obs (freeEbs obs) key fun s =>
        (s, replicationVector 0 policy.minimumReplicaNumber 1 1)
    else return acc
  else return acc

/-- Demote cold keys to the disk tier. -/
def demote (s : PolicyState policy) (out : Surroundings) : Run policy :=
  if policy.enableTiering then
    match obs.keyAccessSummary.foldlM (demoteKey obs) { state := s } with
    | .error e => { result := .error e }
    | .ok acc => (acc.state.change out acc.requests).andThen fun s =>
      if policy.enableElasticity ∧ acc.overflow ∧ s.newEbsCount = 0 ∧
          kGracePeriod < UInt32.ofInt obs.timeElapsed then
        let needed := nodesNeeded policy .disk obs.ss.totalEbsConsumption
          acc.requiredStorage
        if obs.ebsNodeCount < needed then .done (s.addEbsNode (needed - obs.ebsNodeCount))
        else .done s
      else .done s
  else .done s

def minimumRep (policy : Policy) : KeyReplication :=
  replicationVector 1 (policy.minimumReplicaNumber - 1) 1 1

variable (acc : PolicyState policy × Requests)

/-- The factors for the log of `movement_policy` are read, too. -/
def dereplicateKey (entry : Key × UInt32) : Except Fault (PolicyState policy × Requests) := do
  let key := entry.1
  if ← isMetadata key then return acc
  else if policy.double.le (policy.double.ofNat entry.2.toNat) obs.ss.keyAccessMean then
    let s := acc.1.setFactors key (acc.1.factors key)
    if (s.factors key).equals (minimumRep policy) then return (s, acc.2)
    else return ((s.touchGlobal key .memory).touchGlobal key .disk,
      acc.2.insert key (minimumRep policy))
  else return acc

/-- Reduce the replication factor of keys that are not so hot anymore. -/
def dereplicate (s : PolicyState policy) (out : Surroundings) : Run policy :=
  if policy.enableSelectiveRep then
    match obs.keyAccessSummary.foldlM (dereplicateKey obs) (s, ∅) with
    | .error e => { result := .error e }
    | .ok acc => acc.1.change out acc.2
  else .done s

/-- `movement_policy`; the surroundings are those of its three calls. -/
def movementPolicy (s : PolicyState policy) (out₁ out₂ out₃ : Surroundings) : Run policy :=
  ((s.promote obs out₁).andThen fun s => s.demote obs out₂).andThen fun s =>
    s.dereplicate obs out₃

/-! ## `slo_policy` -/

def targetRepFactor (s : PolicyState policy) (key : Key) (ratio : policy.double.F) : UInt32 :=
  let d := policy.double
  let target := d.toUnsigned (d.mul (d.ofNat (s.globalFactor key .memory).toNat) ratio)
  if target = s.globalFactor key .memory then target + 1 else target

/-- `std::max(kMinimumReplicaNumber - new_mem_rep, (unsigned)0)`. -/
def newEbsRep (policy : Policy) (newMemRep : UInt32) : UInt32 :=
  max (policy.minimumReplicaNumber - newMemRep) 0

/-- The factors for a key with some number of replicas in memory. -/
def rebalanced (s : PolicyState policy) (key : Key) (newMemRep : UInt32) : KeyReplication :=
  replicationVector newMemRep (newEbsRep policy newMemRep) (s.localFactor key .memory)
    (s.localFactor key .disk)

/-- The factors for a key with a replica on every thread. -/
def localReplicated (s : PolicyState policy) (key : Key) : KeyReplication :=
  replicationVector (s.globalFactor key .memory) (s.globalFactor key .disk)
    policy.memoryThreadCount (s.localFactor key .disk)

/-- A key that is accessed too often. -/
def replicateKey (key : Key) (ratio : policy.double.F) : PolicyState policy × Requests :=
  let s := acc.1.touchGlobal key .memory
  let target := s.targetRepFactor key ratio
  let current := s.globalFactor key .memory
  if current < target ∧ current < obs.memoryNodeCount then
    ((s.touchLocal key .memory).touchLocal key .disk,
      acc.2.insert key (s.rebalanced key (min obs.memoryNodeCount target)))
  else
    let s := s.touchLocal key .memory
    if s.localFactor key .memory < policy.memoryThreadCount then
      ((s.touchGlobal key .disk).touchLocal key .disk, acc.2.insert key (s.localReplicated key))
    else (s, acc.2)

def hotKey (entry : Key × UInt32) : Except Fault (PolicyState policy × Requests) := do
  let d := policy.double
  if ← isMetadata entry.1 then return acc
  else if d.lt (d.add obs.ss.keyAccessMean obs.ss.keyAccessStd) (d.ofNat entry.2.toNat) then
    match obs.latencyMissRatioMap[entry.1]? with
    | some ratio => return replicateKey obs acc entry.1 ratio.1
    | none => return acc
  else return acc

/-- A key that is on all memory nodes, when one is to be removed. -/
def removalKey (entry : Key × UInt32) : Except Fault (PolicyState policy × Requests) := do
  let key := entry.1
  if ← isMetadata key then return acc
  else
    let s := acc.1.touchGlobal key .memory
    if (s.globalFactor key .memory).toNat =
        (s.globalHashRings .memory).nodes.nodes.size / kVirtualThreadNum then
      return (((s.touchLocal key .memory).touchLocal key .disk).touchGlobal key .disk,
        acc.2.insert key (s.rebalanced key (s.globalFactor key .memory - 1)))
    else return (s, acc.2)

/-- The latency is worse than promised, and no node is on its way. -/
def violatesSlo (s : PolicyState policy) : Prop :=
  policy.double.lt (policy.double.ofNat kSloWorst.toNat) obs.ss.avgLatency = true ∧
    s.newMemoryCount = 0

instance (s : PolicyState policy) : Decidable (violatesSlo obs s) :=
  inferInstanceAs (Decidable (_ ∧ _))

/-- A memory node is hardly used, and can be spared. -/
def underutilized (s : PolicyState policy) : Prop :=
  policy.enableElasticity = true ∧ s.removingMemoryNode = false ∧
    policy.double.lt obs.ss.minMemoryOccupancy (policy.double.decimal 5 2) = true ∧
    max obs.ss.requiredMemoryNode kMinMemoryTierSize < obs.memoryNodeCount

instance (s : PolicyState policy) : Decidable (underutilized obs s) :=
  inferInstanceAs (Decidable (_ ∧ _ ∧ _ ∧ _))

/-- The first branch of `slo_policy`: add nodes, or replicate hot keys. -/
def relieve (s : PolicyState policy) (out : Surroundings) : Run policy :=
  let d := policy.double
  if policy.enableElasticity ∧ d.lt (d.decimal 15 2) obs.ss.minMemoryOccupancy then
    let nodeToAdd := d.toUnsigned (d.ceil (d.mul
      (d.sub (d.div obs.ss.avgLatency (d.ofNat kSloWorst.toNat)) (d.ofNat 1))
      (d.ofNat obs.memoryNodeCount.toNat)))
    if (kGracePeriod.toNat : Int) < obs.timeElapsed then .done (s.addMemoryNode nodeToAdd)
    else .done s
  else if policy.enableSelectiveRep then
    match obs.keyAccessSummary.foldlM (hotKey obs) (s, ∅) with
    | .error e => { result := .error e }
    | .ok acc => acc.1.change out acc.2
  else .done s

/-- The second branch: take the node out of the factors, then remove it. -/
def shrink (s : PolicyState policy) (out : Surroundings) : Run policy :=
  if (kGracePeriod.toNat : Int) < obs.timeElapsed then
    match obs.keyAccessSummary.foldlM (removalKey) (s, ∅) with
    | .error e => { result := .error e }
    | .ok acc => (acc.1.change out acc.2).andThen fun s =>
      .done (s.removeMemoryNode
        ⟨obs.ss.minOccupancyMemoryPublicIp, obs.ss.minOccupancyMemoryPrivateIp, 0, 0⟩)
  else .done s

def sloPolicy (s : PolicyState policy) (out : Surroundings) : Run policy :=
  if violatesSlo obs s then s.relieve obs out
  else if underutilized obs s then s.shrink obs out
  else .done s

end PolicyState

end Testbed.Anna
