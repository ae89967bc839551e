import Testbed.Anna.PolicyRequests
import Testbed.Anna.SmallClusters

/-! # Bounds on requested factors

`change_replication_factor` assumes that no factor exceeds the number of nodes of a tier.
A policy keeps to that, and to the least number of replicas, where the differences it
computes do not wrap around (`policies_valid_iff`).
-/
namespace Testbed.Anna

open Std (ExtTreeMap)
open Lib
open PolicyState List UInt32 Std.ExtTreeMap

/-- The factors of a key fit the node counts, and make up enough replicas. -/
structure Policy.ValidFactors (policy : Policy) (memoryNodes ebsNodes : UInt32)
    (rep : KeyReplication) : Prop where
  memory : rep.globalAt .memory ≤ memoryNodes.toNat
  disk : rep.globalAt .disk ≤ ebsNodes.toNat
  replicas : policy.minimumReplicaNumber ≤
    UInt32.ofNat (rep.globalAt .memory) + UInt32.ofNat (rep.globalAt .disk)

/-- All factors of a request are valid. -/
def Policy.ValidRequests (policy : Policy) (memoryNodes ebsNodes : UInt32)
    (requests : Requests) : Prop :=
  ∀ (key : Key) (rep : KeyReplication), requests[key]? = some rep →
    policy.ValidFactors memoryNodes ebsNodes rep

namespace PolicyState
variable {policy : Policy} {s t : PolicyState policy} {obs : Observations policy.double}
  {memoryNodes ebsNodes n : UInt32} {key : Key}

/-- The factors that the monitor knows are valid. -/
def ValidMap (s : PolicyState policy) (memoryNodes ebsNodes : UInt32) : Prop :=
  policy.ValidRequests memoryNodes ebsNodes s.keyReplicationMap

/-- The node counts are those of the rings. -/
structure CountsMatch (s : PolicyState policy) (obs : Observations policy.double) : Prop where
  memory : obs.memoryNodeCount.toNat =
    (s.globalHashRings .memory).nodes.nodes.size / kVirtualThreadNum
  ebs : obs.ebsNodeCount.toNat = (s.globalHashRings .disk).nodes.nodes.size / kVirtualThreadNum

/-! ## Single requests -/

theorem validFactors_replicationVector {gm ge lm le : UInt32} :
    policy.ValidFactors memoryNodes ebsNodes (replicationVector gm ge lm le) ↔
      gm ≤ memoryNodes ∧ ge ≤ ebsNodes ∧ policy.minimumReplicaNumber ≤ gm + ge := by
  have hmemory : (replicationVector gm ge lm le).globalAt .memory = gm.toNat := rfl
  have hdisk : (replicationVector gm ge lm le).globalAt .disk = ge.toNat := rfl
  constructor
  · rintro ⟨h₁, h₂, h₃⟩
    rw [hmemory, hdisk, UInt32.ofNat_toNat, UInt32.ofNat_toNat] at h₃
    exact ⟨h₁, h₂, h₃⟩
  · rintro ⟨h₁, h₂, _⟩
    refine ⟨h₁, h₂, ?_⟩
    rwa [hmemory, hdisk, UInt32.ofNat_toNat, UInt32.ofNat_toNat]

theorem ValidMap.factors (h : s.ValidMap memoryNodes ebsNodes) (hkey : key ∈ s.keyReplicationMap) :
    s.globalFactor key .memory ≤ memoryNodes ∧ s.globalFactor key .disk ≤ ebsNodes ∧
      policy.minimumReplicaNumber ≤ s.globalFactor key .memory + s.globalFactor key .disk := by
  obtain ⟨rep, hrep⟩ := Option.isSome_iff_exists.mp (mem_iff_isSome_getElem?.mp hkey)
  have hfactors : s.factors key = rep := by
    rw [MonitorState.factors_eq_getD, hrep]
    rfl
  obtain ⟨h₁, h₂, h₃⟩ := h key rep hrep
  unfold globalFactor
  rw [hfactors]
  refine ⟨?_, ?_, h₃⟩
  · rw [le_iff_toNat_le, toNat_ofNat']
    exact (Nat.mod_le _ _).trans h₁
  · rw [le_iff_toNat_le, toNat_ofNat']
    exact (Nat.mod_le _ _).trans h₂

theorem globalFactor_of_notMem (hkey : key ∉ s.keyReplicationMap) (tier : Tier) :
    s.globalFactor key tier = 0 := by
  have hfactors : s.factors key = default := by
    rw [MonitorState.factors_eq_getD, getElem?_eq_none hkey]
    rfl
  unfold globalFactor
  rw [hfactors]
  rfl

theorem promoted_valid_iff (hmap : s.ValidMap memoryNodes ebsNodes)
    (hmin : 1 ≤ policy.minimumReplicaNumber) (hzero : s.globalFactor key .memory = 0) :
    policy.ValidFactors memoryNodes ebsNodes (s.promoted key) ↔
      1 ≤ memoryNodes ∧ key ∈ s.keyReplicationMap := by
  rw [promoted, validFactors_replicationVector, hzero]
  by_cases hkey : key ∈ s.keyReplicationMap
  · obtain ⟨-, _, hreplicas⟩ := hmap.factors hkey
    rw [hzero] at hreplicas
    rw [and_iff_left hkey]
    simp only [UInt32.le_iff_toNat_le, UInt32.toNat_add, UInt32.toNat_sub, UInt32.toNat_zero,
      UInt32.toNat_one] at *
    omega
  · rw [globalFactor_of_notMem hkey .disk]
    simp only [UInt32.le_iff_toNat_le, UInt32.toNat_add, UInt32.toNat_sub, UInt32.toNat_zero,
      UInt32.toNat_one, hkey, and_false, iff_false] at *
    omega

/-- What is left to the disk tier when `n` replicas are in memory does not exceed its
nodes: the difference is small, or it wraps around to no more than their number. -/
def DiskFits (policy : Policy) (ebsNodes n : UInt32) : Prop :=
  (n ≤ policy.minimumReplicaNumber ∧ policy.minimumReplicaNumber.toNat ≤ ebsNodes.toNat + n.toNat) ∨
    (policy.minimumReplicaNumber < n ∧
      2 ^ 32 ≤ ebsNodes.toNat + (n.toNat - policy.minimumReplicaNumber.toNat))

theorem newEbsRep_eq (policy : Policy) (n : UInt32) :
    newEbsRep policy n = policy.minimumReplicaNumber - n := by
  have hle : (0 : UInt32) ≤ policy.minimumReplicaNumber - n := by
    exact Nat.zero_le _
  have hmax : newEbsRep policy n = if policy.minimumReplicaNumber - n ≤ 0 then 0
      else policy.minimumReplicaNumber - n := rfl
  rw [hmax]
  split
  · rename_i h
    exact UInt32.toNat.inj (Nat.le_antisymm hle h)
  · rfl

theorem rebalanced_valid_iff (hn : n ≤ memoryNodes) :
    policy.ValidFactors memoryNodes ebsNodes (s.rebalanced key n) ↔
      DiskFits policy ebsNodes n := by
  have hlt := policy.minimumReplicaNumber.toNat_lt
  have hlt' := n.toNat_lt
  rw [rebalanced, validFactors_replicationVector, newEbsRep_eq, DiskFits]
  simp only [UInt32.le_iff_toNat_le, UInt32.lt_iff_toNat_lt, UInt32.toNat_add,
    UInt32.toNat_sub] at *
  omega

theorem localReplicated_valid_iff (hmap : s.ValidMap memoryNodes ebsNodes)
    (hmin : 1 ≤ policy.minimumReplicaNumber) :
    policy.ValidFactors memoryNodes ebsNodes (s.localReplicated key) ↔
      key ∈ s.keyReplicationMap := by
  rw [localReplicated, validFactors_replicationVector]
  by_cases hkey : key ∈ s.keyReplicationMap
  · exact iff_of_true (hmap.factors hkey) hkey
  · refine iff_of_false (fun h => ?_) hkey
    have hreplicas := h.2.2
    rw [globalFactor_of_notMem hkey, globalFactor_of_notMem hkey] at hreplicas
    simp only [UInt32.le_iff_toNat_le, UInt32.toNat_add, UInt32.toNat_zero, UInt32.toNat_one] at *
    omega

theorem ValidMap.diskFits (hmap : s.ValidMap memoryNodes ebsNodes)
    (hkey : key ∈ s.keyReplicationMap) (hmore : s.globalFactor key .memory < n)
    (hn : n ≤ policy.minimumReplicaNumber) : DiskFits policy ebsNodes n := by
  obtain ⟨-, _⟩ := hmap.factors hkey
  refine .inl ⟨hn, ?_⟩
  simp only [UInt32.le_iff_toNat_le, UInt32.lt_iff_toNat_lt, UInt32.toNat_add] at *
  omega

/-! ## Calls -/

variable {next : PolicyState policy → Run policy}

theorem mem_calls_andThen {run : Run policy} {requests : Requests} :
    requests ∈ (run.andThen next).calls ↔
      requests ∈ run.calls ∨ ∃ t, run.result = .ok t ∧ requests ∈ (next t).calls := by
  unfold Run.andThen
  cases run.result with
  | error => simp
  | ok => simp

theorem calls_change_andThen {out : Surroundings} {requests requests' : Requests}
    (hnext : ∀ t, (next t).calls = []) :
    requests ∈ ((s.change out requests').andThen next).calls ↔ requests = requests' := by
  rw [mem_calls_andThen, change, mem_singleton]
  refine or_iff_left ?_
  rintro ⟨t, -, hmem⟩
  rw [hnext] at hmem
  cases hmem

theorem loop_valid_iff {σ : Type} {loop : Except Fault σ} {run : Run policy}
    (requests : σ → Requests) {P : Requests → Prop} {Q names : Prop}
    (hreturns : (∃ acc, loop = .ok acc) ↔ names)
    (herror : ∀ e, loop = .error e → run.calls = [])
    (hok : ∀ acc, loop = .ok acc → ∀ requests', requests' ∈ run.calls ↔ requests' = requests acc)
    (hvalid : ∀ acc, loop = .ok acc → (P (requests acc) ↔ Q)) :
    (∀ requests' ∈ run.calls, P requests') ↔ (names → Q) := by
  cases hloop : loop with
  | error e =>
    rw [herror e hloop, ← hreturns, hloop]
    refine iff_of_true (fun _ hmem => nomatch hmem) ?_
    rintro ⟨acc, h⟩
    cases h
  | ok acc =>
    have hnames := hreturns.mp ⟨acc, hloop⟩
    rw [forall_prop_of_true hnames, ← hvalid acc hloop]
    constructor
    · intro h
      exact h _ ((hok acc hloop _).mpr rfl)
    · intro h requests' hmem
      rw [(hok acc hloop requests').mp hmem]
      exact h

/-- The keys that the promotion loop requests: eligible ones, while there is room. -/
def Promotes (s : PolicyState policy) (obs : Observations policy.double)
    (pre : List (Key × UInt32)) (entry : Key × UInt32) : Prop :=
  Promotable s obs entry ∧ required obs (Promotable s obs) (pre ++ [entry]) ≤ freeMemory obs

def Demotes (s : PolicyState policy) (obs : Observations policy.double)
    (pre : List (Key × UInt32)) (entry : Key × UInt32) : Prop :=
  Demotable s obs entry ∧ required obs (Demotable s obs) (pre ++ [entry]) ≤ freeEbs obs

variable (out : Surroundings)

theorem promote_valid_iff (hmap : s.ValidMap memoryNodes ebsNodes)
    (hmin : 1 ≤ policy.minimumReplicaNumber) :
    (∀ requests ∈ (s.promote obs out).calls, policy.ValidRequests memoryNodes ebsNodes requests) ↔
      (policy.enableTiering = true → Named obs →
        ∀ pre entry post, obs.keyAccessSummary = pre ++ entry :: post → Promotes s obs pre entry →
          1 ≤ memoryNodes ∧ entry.1 ∈ s.keyReplicationMap) := by
  unfold promote
  by_cases htiering : policy.enableTiering = true
  · rw [if_pos htiering, forall_prop_of_true htiering]
    refine loop_valid_iff Movement.requests (loop_returns_iff promoteKey_returns_iff { state := s })
      (fun e hloop => by rw [hloop]) (fun acc hloop requests => ?_) fun acc hloop => ?_
    · rw [hloop]
      refine calls_change_andThen fun t => ?_
      split
      · dsimp only
        split <;> rfl
      · rfl
    · have hmoves := foldlM_done (Moves s obs (Promotable s obs) (freeMemory obs) s.promoted)
        (fun _ _ _ _ _ _ hacc hstep => promoteKey_moves hacc hstep) .initial hloop
      refine (hmoves.collects.forall_iff _).trans ?_
      refine forall_congr' fun pre => forall_congr' fun entry => forall_congr' fun post =>
        forall_congr' fun _ => forall_congr' fun hselects => ?_
      exact promoted_valid_iff hmap hmin hselects.1.2.2.1
  · rw [if_neg htiering]
    exact iff_of_true (fun _ hmem => nomatch hmem) fun h => absurd h htiering

theorem demote_valid_iff : (∀ requests ∈ (s.demote obs out).calls,
        policy.ValidRequests memoryNodes ebsNodes requests) ↔
      (policy.enableTiering = true → Named obs →
        ∀ pre entry post, obs.keyAccessSummary = pre ++ entry :: post → Demotes s obs pre entry →
          policy.minimumReplicaNumber ≤ ebsNodes) := by
  unfold demote
  by_cases htiering : policy.enableTiering = true
  · rw [if_pos htiering, forall_prop_of_true htiering]
    refine loop_valid_iff Movement.requests (loop_returns_iff demoteKey_returns_iff { state := s })
      (fun e hloop => by rw [hloop]) (fun acc hloop requests => ?_) fun acc hloop => ?_
    · rw [hloop]
      refine calls_change_andThen fun t => ?_
      split
      · dsimp only
        split <;> rfl
      · rfl
    · have hmoves := foldlM_done (Moves s obs (Demotable s obs) (freeEbs obs)
        fun _ => replicationVector 0 policy.minimumReplicaNumber 1 1)
        (fun _ _ _ _ _ _ hacc hstep => demoteKey_moves hacc hstep) .initial hloop
      refine (hmoves.collects.forall_iff _).trans ?_
      refine forall_congr' fun pre => forall_congr' fun entry => forall_congr' fun post =>
        forall_congr' fun _ => forall_congr' fun _ => ?_
      have hlt := policy.minimumReplicaNumber.toNat_lt
      rw [validFactors_replicationVector]
      simp only [UInt32.le_iff_toNat_le, UInt32.toNat_add, UInt32.toNat_zero]
      omega
  · rw [if_neg htiering]
    exact iff_of_true (fun _ hmem => nomatch hmem) fun h => absurd h htiering

theorem dereplicate_valid_iff : (∀ requests ∈ (s.dereplicate obs out).calls,
        policy.ValidRequests memoryNodes ebsNodes requests) ↔
      (policy.enableSelectiveRep = true → Named obs →
        ∀ entry ∈ obs.keyAccessSummary, Dereplicable s obs entry →
          1 ≤ memoryNodes ∧ policy.minimumReplicaNumber - 1 ≤ ebsNodes) := by
  unfold dereplicate
  by_cases hselective : policy.enableSelectiveRep = true
  · rw [if_pos hselective, forall_prop_of_true hselective]
    refine loop_valid_iff Prod.snd (loop_returns_iff dereplicateKey_returns_iff (s, ∅))
      (fun e hloop => by rw [hloop]) (fun acc hloop requests => ?_) fun acc hloop => ?_
    · rw [hloop]
      exact mem_singleton
    have hacc := foldlM_done (Dereplicates s obs) (fun pre entry post t t' hsplit hacc hstep => by
      have hdistinct := obs.distinct
      rw [hsplit] at hdistinct
      exact hacc.step (fun e he => (pairwise_append.mp hdistinct).2.2 e he entry
        mem_cons_self) hstep) ⟨.initial, fun _ _ => rfl⟩ hloop
    refine (hacc.collects.forall_iff _).trans ?_
    have hvalid : policy.ValidFactors memoryNodes ebsNodes (minimumRep policy) ↔
        1 ≤ memoryNodes ∧ policy.minimumReplicaNumber - 1 ≤ ebsNodes := by
      rw [minimumRep, validFactors_replicationVector]
      have hlt := policy.minimumReplicaNumber.toNat_lt
      simp only [UInt32.le_iff_toNat_le, UInt32.toNat_add, UInt32.toNat_sub, UInt32.toNat_one]
      omega
    rw [hvalid]
    exact forall_split_iff
  · rw [if_neg hselective]
    exact iff_of_true (fun _ hmem => nomatch hmem) fun h => absurd h hselective

/-! ## The policies -/

/-- The branch of `slo_policy` that adds nodes. -/
def AddsNodes (obs : Observations policy.double) : Prop :=
  policy.enableElasticity = true ∧
    policy.double.lt (policy.double.decimal 15 2) obs.ss.minMemoryOccupancy = true

variable (s) (obs)

/-- When `movement_policy` requests valid factors.  The second and third loop start from the
states that the parts before them leave. -/
structure MovementSafe (out₁ out₂ : Surroundings) : Prop where
  /-- Keys are promoted only if they are known and there is a memory node. -/
  promotes : policy.enableTiering = true → Named obs →
    ∀ pre entry post, obs.keyAccessSummary = pre ++ entry :: post → Promotes s obs pre entry →
      1 ≤ obs.memoryNodeCount ∧ entry.1 ∈ s.keyReplicationMap
  /-- Keys are demoted only if there are disk nodes for all replicas. -/
  demotes : ∀ t, (s.promote obs out₁).result = .ok t → policy.enableTiering = true → Named obs →
    ∀ pre entry post, obs.keyAccessSummary = pre ++ entry :: post → Demotes t obs pre entry →
      policy.minimumReplicaNumber ≤ obs.ebsNodeCount
  /-- Keys are dereplicated only if there is a memory node, and disk nodes for the rest. -/
  dereplicates : ∀ t t', (s.promote obs out₁).result = .ok t →
    (t.demote obs out₂).result = .ok t' → policy.enableSelectiveRep = true → Named obs →
    ∀ entry ∈ obs.keyAccessSummary, Dereplicable t' obs entry →
      1 ≤ obs.memoryNodeCount ∧ policy.minimumReplicaNumber - 1 ≤ obs.ebsNodeCount

/-- When `slo_policy` requests valid factors. -/
structure SloSafe : Prop where
  /-- A hot key gets no more replicas in memory than the least number of replicas, unless the
  difference wraps around to a number of disk nodes that there are. -/
  spreads : violatesSlo obs s → ¬ AddsNodes obs → policy.enableSelectiveRep = true → Named obs →
    ∀ entry ∈ obs.keyAccessSummary, HotRequest s obs entry →
      Spreads s obs entry.1 (ratioOf obs entry.1) →
      entry.1 ∈ s.keyReplicationMap ∧
          spreadTo s obs entry.1 (ratioOf obs entry.1) ≤ policy.minimumReplicaNumber ∨
        DiskFits policy obs.ebsNodeCount (spreadTo s obs entry.1 (ratioOf obs entry.1))
  /-- A hot key that stays on its nodes is known. -/
  stays : violatesSlo obs s → ¬ AddsNodes obs → policy.enableSelectiveRep = true → Named obs →
    ∀ entry ∈ obs.keyAccessSummary, HotRequest s obs entry →
      ¬ Spreads s obs entry.1 (ratioOf obs entry.1) → entry.1 ∈ s.keyReplicationMap
  /-- When a memory node goes, the disk nodes can make up for it. -/
  withdraws : ¬ violatesSlo obs s → underutilized obs s →
    (kGracePeriod.toNat : Int) < obs.timeElapsed → Named obs →
    ∀ entry ∈ obs.keyAccessSummary, Everywhere s entry →
      DiskFits policy obs.ebsNodeCount (obs.memoryNodeCount - 1)

theorem spreadTo_le (key : Key)
    (ratio : policy.double.F) : spreadTo s obs key ratio ≤ obs.memoryNodeCount := by
  have hmin : spreadTo s obs key ratio = if obs.memoryNodeCount ≤ s.targetRepFactor key ratio then
      obs.memoryNodeCount else s.targetRepFactor key ratio := rfl
  rw [hmin]
  split
  · exact UInt32.le_refl _
  · rename_i hlt
    exact UInt32.le_of_lt (UInt32.not_le.mp hlt)

variable {obs} {s}

theorem lt_spreadTo {ratio : policy.double.F} (h : Spreads s obs key ratio) :
    s.globalFactor key .memory < spreadTo s obs key ratio := by
  have hmin : spreadTo s obs key ratio = if obs.memoryNodeCount ≤ s.targetRepFactor key ratio then
      obs.memoryNodeCount else s.targetRepFactor key ratio := rfl
  rw [hmin]
  split
  · exact h.2
  · exact h.1

theorem movementPolicy_valid_iff {out₁ out₂ out₃ : Surroundings}
    (hmap : s.ValidMap obs.memoryNodeCount obs.ebsNodeCount)
    (hmin : 1 ≤ policy.minimumReplicaNumber) :
    (∀ requests ∈ (s.movementPolicy obs out₁ out₂ out₃).calls,
        policy.ValidRequests obs.memoryNodeCount obs.ebsNodeCount requests) ↔
      MovementSafe s obs out₁ out₂ := by
  have hresult : ∀ t', ((s.promote obs out₁).andThen fun t => t.demote obs out₂).result = .ok t' ↔
      ∃ t, (s.promote obs out₁).result = .ok t ∧ (t.demote obs out₂).result = .ok t' := by
    intro t'
    unfold Run.andThen
    cases (s.promote obs out₁).result with
    | error => simp
    | ok => simp
  unfold movementPolicy
  simp only [mem_calls_andThen, hresult]
  constructor
  · intro h
    refine ⟨?_, fun t ht => ?_, fun t t' ht ht' => ?_⟩
    · exact (promote_valid_iff out₁ hmap hmin).mp fun r hr => h r (.inl (.inl hr))
    · exact (demote_valid_iff out₂).mp fun r hr => h r (.inl (.inr ⟨t, ht, hr⟩))
    · exact (dereplicate_valid_iff out₃).mp fun r hr => h r (.inr ⟨t', ⟨t, ht, ht'⟩, hr⟩)
  · intro h requests hmem
    rcases hmem with (hmem | ⟨t, ht, hmem⟩) | ⟨t', ⟨t, ht, ht'⟩, hmem⟩
    · exact (promote_valid_iff out₁ hmap hmin).mpr h.promotes requests hmem
    · exact (demote_valid_iff out₂).mpr (h.demotes t ht) requests hmem
    · exact (dereplicate_valid_iff out₃).mpr (h.dereplicates t t' ht ht') requests hmem

/-- The memory nodes that a request of `slo_policy` may use: one less when one is removed. -/
def sloMemoryNodes (s : PolicyState policy) (obs : Observations policy.double) : UInt32 :=
  if violatesSlo obs s then obs.memoryNodeCount else obs.memoryNodeCount - 1

theorem relieve_valid_iff (hmap : s.ValidMap obs.memoryNodeCount obs.ebsNodeCount)
    (hmin : 1 ≤ policy.minimumReplicaNumber) :
    (∀ requests ∈ (s.relieve obs out).calls,
        policy.ValidRequests obs.memoryNodeCount obs.ebsNodeCount requests) ↔
      (¬ AddsNodes obs → policy.enableSelectiveRep = true → Named obs →
        ∀ entry ∈ obs.keyAccessSummary, HotRequest s obs entry →
          (Spreads s obs entry.1 (ratioOf obs entry.1) → entry.1 ∈ s.keyReplicationMap ∧
                spreadTo s obs entry.1 (ratioOf obs entry.1) ≤ policy.minimumReplicaNumber ∨
              DiskFits policy obs.ebsNodeCount (spreadTo s obs entry.1 (ratioOf obs entry.1))) ∧
          (¬ Spreads s obs entry.1 (ratioOf obs entry.1) → entry.1 ∈ s.keyReplicationMap)) := by
  unfold relieve
  by_cases hadds : AddsNodes obs
  · dsimp only
    rw [if_pos (show _ ∧ _ from hadds)]
    refine iff_of_true (fun r hr => ?_) fun h => absurd hadds h
    split at hr <;> cases hr
  · dsimp only
    rw [if_neg (show ¬ (_ ∧ _) from hadds), forall_prop_of_true hadds]
    by_cases hselective : policy.enableSelectiveRep = true
    · rw [if_pos hselective, forall_prop_of_true hselective]
      refine loop_valid_iff Prod.snd (loop_returns_iff hotKey_returns_iff (s, ∅))
        (fun e hloop => by rw [hloop]) (fun acc hloop requests => ?_) fun acc hloop => ?_
      · rw [hloop]
        exact mem_singleton
      · have hcollects := foldlM_done (fun done (acc : PolicyState policy × Requests) =>
          Collects s (fun _ entry => HotRequest s obs entry) (hotFactors s obs) done acc.1 acc.2)
          (fun _ _ _ _ _ _ hacc hstep => hotKey_collects hacc hstep) .initial hloop
        refine (hcollects.forall_iff _).trans (forall_split_iff.trans ⟨fun h entry hmem hhot => ?_,
          fun h entry hmem hhot => ?_⟩)
        · have hvalid := h entry hmem hhot
          unfold hotFactors at hvalid
          refine ⟨fun hspreads => Or.inr ?_, fun hstays => ?_⟩
          · rw [if_pos hspreads] at hvalid
            exact (rebalanced_valid_iff (spreadTo_le s obs _ _)).mp hvalid
          · rw [if_neg hstays] at hvalid
            exact (localReplicated_valid_iff hmap hmin).mp hvalid
        · obtain ⟨hspread, hstay⟩ := h entry hmem hhot
          unfold hotFactors
          split
          · rename_i hspreads
            refine (rebalanced_valid_iff (spreadTo_le s obs _ _)).mpr ?_
            rcases hspread hspreads with ⟨hkey, hle⟩ | hfits
            · exact hmap.diskFits hkey (lt_spreadTo hspreads) hle
            · exact hfits
          · rename_i hstays
            exact (localReplicated_valid_iff hmap hmin).mpr (hstay hstays)
    · rw [if_neg hselective]
      exact iff_of_true (fun _ hmem => nomatch hmem) fun h => absurd h hselective

theorem shrink_valid_iff (hmemory : obs.memoryNodeCount.toNat =
      (s.globalHashRings .memory).nodes.nodes.size / kVirtualThreadNum) :
    (∀ requests ∈ (s.shrink obs out).calls,
        policy.ValidRequests (obs.memoryNodeCount - 1) obs.ebsNodeCount requests) ↔
      ((kGracePeriod.toNat : Int) < obs.timeElapsed → Named obs →
        ∀ entry ∈ obs.keyAccessSummary, Everywhere s entry →
          DiskFits policy obs.ebsNodeCount (obs.memoryNodeCount - 1)) := by
  unfold shrink
  by_cases hgrace : (kGracePeriod.toNat : Int) < obs.timeElapsed
  · rw [if_pos hgrace, forall_prop_of_true hgrace]
    refine loop_valid_iff Prod.snd (loop_returns_iff removalKey_returns_iff (s, ∅))
      (fun e hloop => by rw [hloop]) (fun acc hloop requests => ?_) fun acc hloop => ?_
    · rw [hloop]
      exact calls_change_andThen fun _ => rfl
    · have hcollects := foldlM_done (fun done (acc : PolicyState policy × Requests) =>
        Collects s (fun _ entry => Everywhere s entry) s.withdrawn done acc.1 acc.2)
        (fun _ _ _ _ _ _ hacc hstep => removalKey_collects hacc hstep) .initial hloop
      have hvalid : ∀ entry, Everywhere s entry →
          (policy.ValidFactors (obs.memoryNodeCount - 1) obs.ebsNodeCount (s.withdrawn entry.1) ↔
            DiskFits policy obs.ebsNodeCount (obs.memoryNodeCount - 1)) := by
        intro entry hall
        have hfactor := UInt32.toNat.inj (hall.2.trans hmemory.symm)
        rw [withdrawn, hfactor]
        exact rebalanced_valid_iff (UInt32.le_refl _)
      refine (hcollects.forall_iff _).trans (forall_split_iff.trans ?_)
      exact forall₂_congr fun entry _ => forall_congr' (hvalid entry)
  · rw [if_neg hgrace]
    exact iff_of_true (fun _ hmem => nomatch hmem) fun h => absurd h hgrace

theorem sloPolicy_valid_iff (hmap : s.ValidMap obs.memoryNodeCount obs.ebsNodeCount)
    (hmin : 1 ≤ policy.minimumReplicaNumber)
    (hmemory : obs.memoryNodeCount.toNat =
      (s.globalHashRings .memory).nodes.nodes.size / kVirtualThreadNum) :
    (∀ requests ∈ (s.sloPolicy obs out).calls,
        policy.ValidRequests (sloMemoryNodes s obs) obs.ebsNodeCount requests) ↔
      SloSafe s obs := by
  unfold sloPolicy sloMemoryNodes
  by_cases hviolates : violatesSlo obs s
  · rw [if_pos hviolates, if_pos hviolates, relieve_valid_iff out hmap hmin]
    constructor
    · intro h
      exact ⟨fun _ hadds hselective hnamed entry hmem hhot =>
          (h hadds hselective hnamed entry hmem hhot).1,
        fun _ hadds hselective hnamed entry hmem hhot =>
          (h hadds hselective hnamed entry hmem hhot).2, fun hnot => absurd hviolates hnot⟩
    · intro h hadds hselective hnamed entry hmem hhot
      exact ⟨h.spreads hviolates hadds hselective hnamed entry hmem hhot,
        h.stays hviolates hadds hselective hnamed entry hmem hhot⟩
  · rw [if_neg hviolates, if_neg hviolates]
    by_cases hunder : underutilized obs s
    · rw [if_pos hunder, shrink_valid_iff out hmemory]
      constructor
      · intro h
        exact ⟨fun hv => absurd hv hviolates, fun hv => absurd hv hviolates, fun _ _ => h⟩
      · intro h
        exact h.withdraws hviolates hunder
    · rw [if_neg hunder]
      refine iff_of_true (fun _ hmem => nomatch hmem) ?_
      exact ⟨fun hv => absurd hv hviolates, fun hv => absurd hv hviolates,
        fun _ hu => absurd hu hunder⟩

/-- **The factors that the policies request** are valid just where no key is requested that
the monitor does not know, the tiers have enough nodes for the constants of
`movement_policy`, and the difference that `slo_policy` leaves to the disk tier does not
wrap around. -/
theorem policies_valid_iff (s : PolicyState policy) (obs : Observations policy.double)
    (out out₁ out₂ out₃ : Surroundings) (hmin : 1 ≤ policy.minimumReplicaNumber)
    (hmap : s.ValidMap obs.memoryNodeCount obs.ebsNodeCount) (hcounts : s.CountsMatch obs) :
    ((∀ requests ∈ (s.movementPolicy obs out₁ out₂ out₃).calls,
        policy.ValidRequests obs.memoryNodeCount obs.ebsNodeCount requests) ↔
      MovementSafe s obs out₁ out₂) ∧
    ((∀ requests ∈ (s.sloPolicy obs out).calls,
        policy.ValidRequests (sloMemoryNodes s obs) obs.ebsNodeCount requests) ↔
      SloSafe s obs) :=
  ⟨movementPolicy_valid_iff hmap hmin, sloPolicy_valid_iff out hmap hmin hcounts.memory⟩

end PolicyState

/-! ## A hot key with too many replicas -/

/-- Integers, which are all that the run below needs of `double`. -/
def integerDoubles : DoubleOps where
  F := Nat
  decimal m _ := m
  ofNat n := n
  add a b := a + b
  sub a b := a - b
  mul a b := a * b
  div a b := a / b
  ceil a := a
  lt a b := decide (a < b)
  le a b := decide (a ≤ b)
  toUnsigned a := UInt32.ofNat a
  toUnsignedLongLong a := UInt64.ofNat a

section
variable {D : Type} [Priority D] (codecs : ValueCodecs D) (repCodec : Codec ReplicationFactor)

/-- The monitor of two memory nodes, with selective replication and one replica at least. -/
def twoPolicy : Policy :=
  { (memoryServer codecs repCodec numberingHash ⟨"A", "a", 0, 0⟩).toConfig with
    ip := "m"
    managementIp := "g"
    minimumReplicaNumber := 1
    memoryThreadCount := 1
    threadNumber _ := 1
    nodeCapacity _ := 1000
    enableTiering := false
    enableElasticity := false
    enableSelectiveRep := true
    double := integerDoubles }

/-- The key `"k"` has one replica in memory. -/
def twoState : PolicyState (twoPolicy codecs repCodec) where
  globalHashRings := Function.update (fun _ => default) .memory ringOfTwo
  localHashRings := fun _ => default
  routingIps := []
  keyReplicationMap :=
    (∅ : ExtTreeMap Key KeyReplication).insert "k" (createNewReplicationVector 1 0 1 1)
  rid := 0
  sent := []
  newMemoryCount := 0
  newEbsCount := 0
  removingMemoryNode := false
  removingEbsNode := false
  departingNodeMap := ∅

/-- It is accessed ten times, with twice the latency that was promised. -/
def hotObserved : Observations integerDoubles where
  ss := { keyAccessMean := (0 : Nat), keyAccessStd := (0 : Nat), totalMemoryConsumption := 0
          totalEbsConsumption := 0, requiredMemoryNode := 0, minMemoryOccupancy := (1 : Nat)
          minOccupancyMemoryPublicIp := "", minOccupancyMemoryPrivateIp := ""
          avgLatency := (6000 : Nat) }
  memoryNodeCount := 2
  ebsNodeCount := 0
  keyAccessSummary := [("k", 10)]
  distinct := pairwise_singleton _ _
  keySize := ∅
  latencyMissRatioMap := (∅ : ExtTreeMap Key (integerDoubles.F × UInt32)).insert "k" ((2 : Nat), 1)
  timeElapsed := 0

theorem twoState_counts : (twoState codecs repCodec).CountsMatch hotObserved := by
  have hmemory : ((twoState codecs repCodec).globalHashRings .memory).nodes.nodes.size =
      6000 := size_ringOfTwo
  have hdisk : ((twoState codecs repCodec).globalHashRings .disk).nodes.nodes.size = 0 := size_empty
  refine ⟨?_, ?_⟩
  · rw [hmemory]
    rfl
  · rw [hdisk]
    rfl

theorem twoState_valid : (twoState codecs repCodec).ValidMap 2 0 := by
  intro key rep hrep
  change ((∅ : ExtTreeMap Key KeyReplication).insert "k" _)[key]? = some rep at hrep
  rw [ExtTreeMap.getElem?_insert, ExtTreeMap.getElem?_empty] at hrep
  split at hrep
  · cases hrep
    exact ⟨by decide, by decide, le_refl 1⟩
  · cases hrep

theorem twoState_factor : (twoState codecs repCodec).globalFactor "k" .memory = 1 := by
  have hfactors : (twoState codecs repCodec).factors "k" =
      createNewReplicationVector 1 0 1 1 := getD_insert_self
  unfold globalFactor
  rfl

end

/-- The key gets a replica on the second memory node.  That leaves less than none for the
disk tier, and the request is for `2 ^ 32 - 1` replicas there, on no disk node. -/
theorem hot_key_disk_factor_wraps :
    ∃ (policy : Policy) (s : PolicyState policy) (obs : Observations policy.double)
      (out : Surroundings), 1 ≤ policy.minimumReplicaNumber ∧
      s.ValidMap obs.memoryNodeCount obs.ebsNodeCount ∧ s.CountsMatch obs ∧
      (∀ entry ∈ obs.keyAccessSummary, entry.1 ∈ s.keyReplicationMap) ∧
      ¬ ∀ requests ∈ (s.sloPolicy obs out).calls,
        policy.ValidRequests (sloMemoryNodes s obs) obs.ebsNodeCount requests := by
  obtain ⟨codecs, repCodec⟩ := exists_codecs
  have hcounts := twoState_counts codecs repCodec
  have hmap := twoState_valid codecs repCodec
  have hfactor := twoState_factor codecs repCodec
  have hknown : "k" ∈ (twoState codecs repCodec).keyReplicationMap := mem_insert_self
  refine ⟨twoPolicy codecs repCodec, twoState codecs repCodec, hotObserved,
    ⟨fun _ => 0, fun _ => 0, fun _ => none⟩, le_refl 1, hmap, hcounts, ?_, fun hvalid => ?_⟩
  · intro entry hentry
    rw [mem_singleton.mp hentry]
    exact hknown
  · have hsafe := (sloPolicy_valid_iff _ hmap (le_refl 1) hcounts.memory).mp hvalid
    have hratio : hotObserved.latencyMissRatioMap["k"]? = some ((2 : Nat), 1) :=
      getElem?_insert_self
    have hof : @ratioOf (twoPolicy codecs repCodec) hotObserved "k" =
        (2 : Nat) := congrArg (fun ratio => (ratio.map Prod.fst).getD (0 : Nat)) hratio
    have htarget : (twoState codecs repCodec).targetRepFactor "k" (2 : Nat) = 2 := by
      unfold targetRepFactor
      rfl
    have hspreads : Spreads (twoState codecs repCodec) hotObserved "k" (2 : Nat) := by
      unfold Spreads
      exact (by decide : (1 : UInt32) < 2 ∧ (1 : UInt32) < 2)
    have hto : spreadTo (twoState codecs repCodec) hotObserved "k" (2 : Nat) =
        2 := by
      unfold spreadTo
      rfl
    have hhot : @Hot (twoPolicy codecs repCodec) hotObserved ("k", 10)
        (2 : Nat) := ⟨by decide, rfl, congrArg (Option.map Prod.fst) hratio⟩
    have hfits := hsafe.spreads ⟨rfl, rfl⟩ (fun h => Bool.false_ne_true h.1) rfl
      (fun entry hentry => by rw [mem_singleton.mp hentry]; decide) ("k", 10)
      mem_cons_self ⟨hhot, .inl hspreads⟩ hspreads
    rcases hfits with ⟨-, hle⟩ | ⟨hle, -⟩ | ⟨-, hwrap⟩
    · exact absurd hle (by decide : ¬ (2 : UInt32) ≤ 1)
    · exact absurd hle (by decide : ¬ (2 : UInt32) ≤ 1)
    · exact absurd hwrap (by decide : ¬ 2 ^ 32 ≤ (0 : UInt32).toNat + ((2 : UInt32).toNat - 1))

/-- In the state of that run the two equivalences hold: its hypotheses are met. -/
theorem policies_valid_iff_of_two :
    ∃ (policy : Policy) (s : PolicyState policy) (obs : Observations policy.double)
      (out : Surroundings), 1 ≤ policy.minimumReplicaNumber ∧
      s.ValidMap obs.memoryNodeCount obs.ebsNodeCount ∧ s.CountsMatch obs ∧
      ((∀ requests ∈ (s.movementPolicy obs out out out).calls,
          policy.ValidRequests obs.memoryNodeCount obs.ebsNodeCount requests) ↔
        MovementSafe s obs out out) ∧
      ((∀ requests ∈ (s.sloPolicy obs out).calls,
          policy.ValidRequests (sloMemoryNodes s obs) obs.ebsNodeCount requests) ↔
        SloSafe s obs) := by
  obtain ⟨codecs, repCodec⟩ := exists_codecs
  have hcounts := twoState_counts codecs repCodec
  have hmap := twoState_valid codecs repCodec
  exact ⟨twoPolicy codecs repCodec, twoState codecs repCodec, hotObserved,
    ⟨fun _ => 0, fun _ => 0, fun _ => none⟩, le_refl 1, hmap, hcounts,
    policies_valid_iff _ _ _ _ _ _ (le_refl 1) hmap hcounts⟩

end Testbed.Anna
