import Mathlib.Data.List.GetD
import Mathlib.Data.List.Sort
import Mathlib.Logic.Relation
import Testbed.Lib.RingQueues
import Testbed.Mica.Processing

/-! # Who owns a partition

`partitions_impl/info.h`.  Every partition is owned by an lcore, and only the owner may
give it away: `set_new_owner_lcore_id` puts the change into the owner's queue, and the
owner applies it later.  `rebalance_load` chooses new owners greedily, NUMA domain by NUMA
domain, and sends the changes off without looking whether the queues take them.

A queue takes 15 changes.  So rebalancing takes effect just if no lcore has to give away
more than 15 partitions (`rebalance_effective_iff`); what is beyond that stays where it was.
-/
namespace Testbed.Mica

open Lib List Function Nat UInt64

/-- `::mica::util::lcore`: how many NUMA domains there are, and the domain of an lcore. -/
structure LCores where
  numaCount : Nat
  numaId : Nat → Nat

structure PendingOwnerLCoreChange where
  partitionId : Nat
  newOwnerLcoreId : Nat
deriving DecidableEq

def kMaxLCoreCount : Nat := 64

/-- What `Partitions` keeps about owners and their load. -/
structure Ownership where
  partitionCount : Nat
  lcores : List Nat
  ownerLcoreIds : Nat → Nat
  pendingOwnerLcoreChanges : Nat → RingQueue PendingOwnerLCoreChange 16
  /-- `load_stats_[lcore_id].request_count[partition_id]` -/
  requestCount : Nat → Nat → UInt32
  /-- asserted by the constructor -/
  partitionCount_le : partitionCount ≤ kMaxPartitionCount
  /-- `lcores_` is a vector of 16-bit ids; a sum of 32-bit counts over it fits 64 bits. -/
  length_lcores : lcores.length ≤ 2 ^ 32

namespace Ownership

/-! ## Changes of owners -/

/-- `set_new_owner_lcore_id`; what `enqueue` returns is not looked at. -/
def setNewOwnerLcoreId (s : Ownership) (index lcoreId : Nat) : Ownership :=
  if s.ownerLcoreIds index = lcoreId then s
  else
    let owner := s.ownerLcoreIds index
    { s with
      pendingOwnerLcoreChanges := update s.pendingOwnerLcoreChanges owner
        ((s.pendingOwnerLcoreChanges owner).enqueue ⟨index, lcoreId⟩).1 }

variable (lcoreId : Nat)

/-- The first half of a turn of the loop of `apply_pending_owner_lcore_changes`: a change is
taken from the lcore's queue. -/
def takeChange (s : Ownership) : Option (PendingOwnerLCoreChange × Ownership) :=
  match (s.pendingOwnerLcoreChanges lcoreId).dequeue with
  | none => none
  | some (c, queue) =>
    some (c, { s with
      pendingOwnerLcoreChanges := update s.pendingOwnerLcoreChanges lcoreId queue })

/-- The other half: the partition is given away, or the change is sent after it if it has
another owner by now. -/
def giveAway (s : Ownership) (c : PendingOwnerLCoreChange) : Ownership :=
  let owner := s.ownerLcoreIds c.partitionId
  if owner = lcoreId then
    { s with
      ownerLcoreIds := update s.ownerLcoreIds c.partitionId c.newOwnerLcoreId }
  else
    { s with
      pendingOwnerLcoreChanges := update s.pendingOwnerLcoreChanges owner
        ((s.pendingOwnerLcoreChanges owner).enqueue c).1 }

/-- The loop, as long as there is something in the queue. -/
def applyLoop (lcoreId : Nat) : Nat → Ownership → Ownership
  | 0, s => s
  | fuel + 1, s =>
    match s.takeChange lcoreId with
    | none => s
    | some (c, s') => applyLoop lcoreId fuel (s'.giveAway lcoreId c)

/-- `apply_pending_owner_lcore_changes`.  A change that is sent on leaves the lcore's own
queue, which has 15 changes at most. -/
def applyPendingOwnerLcoreChanges (s : Ownership) : Ownership :=
  applyLoop lcoreId 16 s

/-! ## Rebalancing -/

variable (env : LCores)

/-- The lcores of a NUMA domain. -/
def lcoresOf (s : Ownership) (numaId : Nat) : List Nat :=
  s.lcores.filter fun lcoreId => env.numaId lcoreId = numaId

/-- The requests for a partition that the lcores have recorded. -/
def requests (s : Ownership) (lcores : List Nat) (partitionId : Nat) : UInt64 :=
  lcores.foldl (fun count lcoreId => count + (s.requestCount lcoreId partitionId).toUInt64) 0

/-- The partitions owned by the lcores of a NUMA domain, with their requests. -/
def bins (s : Ownership) (numaId : Nat) : List (Nat × UInt64) :=
  ((List.range s.partitionCount).filter fun partitionId =>
      env.numaId (s.ownerLcoreIds partitionId) = numaId).map fun partitionId =>
    (partitionId, s.requests (s.lcoresOf env numaId) partitionId)

variable (bins : List (Nat × UInt64))

/-- `std::stable_sort` by request count in descending order: insertion keeps the order of
bins with the same count. -/
def sortBins : List (Nat × UInt64) :=
  bins.insertionSort fun a b => b.2 ≤ a.2

/-- The search for the lcore with the least estimated load; the first one wins. -/
def minLcoreIndex (estimatedLoad : List UInt64) : Nat :=
  (estimatedLoad.zipIdx.foldl
    (fun (acc : UInt64 × Nat) load => if acc.1 > load.1 then load else acc) (-1, 0)).2

variable (lcores : List Nat)

/-- One turn of the greedy bin packing. -/
def packBin (acc : Ownership × List UInt64) (bin : Nat × UInt64) : Ownership × List UInt64 :=
  let index := minLcoreIndex acc.2
  (acc.1.setNewOwnerLcoreId bin.1 (lcores.getD index 0), acc.2.modify index (· + bin.2))

/-- The body of the loop over NUMA domains. -/
def rebalanceDomain (s : Ownership) (numaId : Nat) : Ownership :=
  match sortBins (s.bins env numaId) with
  | [] => s
  | bin :: rest =>
    -- do not rebalance if there were no requests
    if bin.2 = 0 then s
    else
      ((bin :: rest).foldl (packBin (s.lcoresOf env numaId))
        (s, List.replicate (s.lcoresOf env numaId).length 0)).1

def resetLoadStats (s : Ownership) : Ownership :=
  { s with requestCount := fun lcoreId partitionId =>
      if lcoreId < kMaxLCoreCount ∧ partitionId < kMaxPartitionCount then 0
      else s.requestCount lcoreId partitionId }

def rebalanceLoad (s : Ownership) : Ownership :=
  ((List.range env.numaCount).foldl (rebalanceDomain env) s).resetLoadStats

/-! ## What rebalancing sends -/

variable {env : LCores} {s t : Ownership}

/-- The greedy assignment: the lcore chosen for each bin in turn. -/
def pack (lcores : List Nat) : List UInt64 → List (Nat × UInt64) → List PendingOwnerLCoreChange
  | _, [] => []
  | load, bin :: bins =>
    ⟨bin.1, lcores.getD (minLcoreIndex load) 0⟩ ::
      pack lcores (load.modify (minLcoreIndex load) (· + bin.2)) bins

variable (env) (s) (numaId : Nat)

/-- The lcores that the greedy assignment chooses for the partitions of a NUMA domain. -/
def assignment : List PendingOwnerLCoreChange :=
  pack (s.lcoresOf env numaId) (List.replicate (s.lcoresOf env numaId).length 0)
    (sortBins (s.bins env numaId))

/-- An lcore of the NUMA domain has recorded a request for a partition of the domain. -/
def Busy : Prop :=
  numaId < env.numaCount ∧ ∃ partitionId < s.partitionCount,
    env.numaId (s.ownerLcoreIds partitionId) = numaId ∧
      ∃ lcoreId ∈ s.lcoresOf env numaId, s.requestCount lcoreId partitionId ≠ 0

/-- The body of the loop over NUMA domains asks for these changes. -/
def asked : List PendingOwnerLCoreChange :=
  match sortBins (s.bins env numaId) with
  | [] => []
  | bin :: _ => if bin.2 = 0 then [] else s.assignment env numaId

variable (changes : List PendingOwnerLCoreChange)

/-- The changes are asked for one by one. -/
def setNewOwners : Ownership :=
  changes.foldl (fun s c => s.setNewOwnerLcoreId c.partitionId c.newOwnerLcoreId) s

theorem foldl_packBin (load : List UInt64) :
    (bins.foldl (packBin lcores) (s, load)).1 = s.setNewOwners (pack lcores load bins) := by
  induction bins generalizing s load with
  | nil => rfl
  | cons _ _ ih => exact ih _ _

theorem rebalanceDomain_eq :
    rebalanceDomain env s numaId = s.setNewOwners (s.asked env numaId) := by
  rw [rebalanceDomain, asked]
  cases hsorted : sortBins (s.bins env numaId) with
  | nil => rfl
  | cons bin =>
    by_cases hzero : bin.2 = 0
    · simp only [hzero, if_true]
      rfl
    · simp only [hzero, if_false]
      rw [foldl_packBin, assignment, hsorted]

theorem setNewOwners_eq :
    ∃ queues, s.setNewOwners changes = { s with pendingOwnerLcoreChanges := queues } := by
  induction changes generalizing s with
  | nil => exact ⟨s.pendingOwnerLcoreChanges, rfl⟩
  | cons c _ ih =>
    obtain ⟨queues, hqueues⟩ : ∃ queues, s.setNewOwnerLcoreId c.partitionId c.newOwnerLcoreId =
        { s with pendingOwnerLcoreChanges := queues } := by
      rw [setNewOwnerLcoreId]
      split
      · exact ⟨s.pendingOwnerLcoreChanges, rfl⟩
      · exact ⟨_, rfl⟩
    obtain ⟨queues', hqueues'⟩ := ih (s.setNewOwnerLcoreId c.partitionId c.newOwnerLcoreId)
    refine ⟨queues', ?_⟩
    exact hqueues'.trans (by rw [hqueues])

/-- All the changes that rebalancing asks for. -/
def plan : List PendingOwnerLCoreChange :=
  (List.range env.numaCount).flatMap (s.asked env)

theorem foldl_rebalanceDomain (numaIds : List Nat) (s : Ownership) :
    numaIds.foldl (rebalanceDomain env) s = s.setNewOwners (numaIds.flatMap (s.asked env)) := by
  induction numaIds generalizing s with
  | nil => rfl
  | cons numaId _ ih =>
    rw [foldl_cons, ih, rebalanceDomain_eq, flatMap_cons]
    -- what is asked for later does not depend on the queues
    obtain ⟨_, hqueues⟩ := s.setNewOwners_eq (s.asked env numaId)
    have hasked : (s.setNewOwners (s.asked env numaId)).asked env = s.asked env := by
      rw [hqueues]
      rfl
    rw [hasked, setNewOwners, setNewOwners, setNewOwners, foldl_append]

theorem rebalanceLoad_eq : rebalanceLoad env s = (s.setNewOwners (s.plan env)).resetLoadStats := by
  rw [rebalanceLoad, foldl_rebalanceDomain, plan]

variable {s} {env}

/-! ## What the queues take -/

/-- The change moves a partition away from the lcore. -/
def MovesFrom (s : Ownership) (lcoreId : Nat) (c : PendingOwnerLCoreChange) : Bool :=
  s.ownerLcoreIds c.partitionId != c.newOwnerLcoreId && s.ownerLcoreIds c.partitionId == lcoreId

variable {lcoreId numaId : Nat} {c : PendingOwnerLCoreChange} {bin : Nat × UInt64}
  {given : Nat → List PendingOwnerLCoreChange}

theorem movesFrom_iff : s.MovesFrom lcoreId c = true ↔
      s.ownerLcoreIds c.partitionId ≠ c.newOwnerLcoreId ∧
        s.ownerLcoreIds c.partitionId = lcoreId := by
  simp [MovesFrom]

theorem ownerLcoreIds_setNewOwners (s : Ownership) (changes : List PendingOwnerLCoreChange) :
    (s.setNewOwners changes).ownerLcoreIds = s.ownerLcoreIds := by
  obtain ⟨_, hqueues⟩ := s.setNewOwners_eq changes
  rw [hqueues]

/-- The changes waiting in an lcore's queue. -/
def waiting (s : Ownership) (lcoreId : Nat) : List PendingOwnerLCoreChange :=
  (s.pendingOwnerLcoreChanges lcoreId).contents

theorem length_waiting_lt (s : Ownership) (lcoreId : Nat) : (s.waiting lcoreId).length < 16 := by
  rw [waiting, RingQueue.length_contents]
  exact RingQueue.size_lt _

theorem waiting_setNewOwnerLcoreId (s : Ownership) (c : PendingOwnerLCoreChange) (lcoreId : Nat) :
    (s.setNewOwnerLcoreId c.partitionId c.newOwnerLcoreId).waiting lcoreId =
      (s.waiting lcoreId ++ if s.MovesFrom lcoreId c then [c] else []).take 15 := by
  have hlen := s.length_waiting_lt lcoreId
  have hsame : (s.waiting lcoreId).take 15 = s.waiting lcoreId := take_of_length_le (by omega)
  rw [setNewOwnerLcoreId]
  by_cases howner : s.ownerLcoreIds c.partitionId = c.newOwnerLcoreId
  · rw [if_pos howner, if_neg (fun h => (movesFrom_iff.mp h).1 howner), append_nil, hsame]
  rw [if_neg howner]
  by_cases hlcore : s.ownerLcoreIds c.partitionId = lcoreId
  · subst hlcore
    rw [if_pos (movesFrom_iff.mpr ⟨howner, rfl⟩)]
    simp only [waiting, update_self, RingQueue.contents_enqueue]
    rw [waiting] at hlen hsame
    split
    · exact (take_of_length_le (by rw [length_append, length_singleton]; omega)).symm
    · rw [take_append_of_le_length (by omega), hsame]
  · rw [if_neg (fun h => hlcore (movesFrom_iff.mp h).2), append_nil, hsame]
    simp only [waiting]
    rw [update_of_ne (Ne.symm hlcore)]

theorem take_append_take {T : Type} (n : Nat) (l l' : List T) :
    (l.take n ++ l').take n = (l ++ l').take n := by
  rw [take_append, take_append, take_take, min_self, length_take]
  by_cases h : l.length ≤ n
  · rw [Nat.min_eq_right h]
  · rw [Nat.min_eq_left (by omega), Nat.sub_self, show n - l.length = 0 by omega]

/-- **A queue takes the first 15 of the changes sent to it.** -/
theorem waiting_setNewOwners (s : Ownership) (lcoreId : Nat) :
    (s.setNewOwners changes).waiting lcoreId =
      (s.waiting lcoreId ++ changes.filter (s.MovesFrom lcoreId)).take 15 := by
  induction changes generalizing s with
  | nil =>
    have hlen := s.length_waiting_lt lcoreId
    rw [filter_nil, append_nil, take_of_length_le (by omega)]
    rfl
  | cons c changes ih =>
    have howners : (s.setNewOwnerLcoreId c.partitionId c.newOwnerLcoreId).ownerLcoreIds =
        s.ownerLcoreIds := s.ownerLcoreIds_setNewOwners [c]
    have hmoves : (s.setNewOwnerLcoreId c.partitionId c.newOwnerLcoreId).MovesFrom lcoreId =
        s.MovesFrom lcoreId := by
      funext c'
      rw [MovesFrom, MovesFrom, howners]
    calc (s.setNewOwners (c :: changes)).waiting lcoreId
        = ((s.setNewOwnerLcoreId c.partitionId c.newOwnerLcoreId).waiting lcoreId ++
            changes.filter (s.MovesFrom lcoreId)).take 15 := by rw [← hmoves]; exact ih _
      _ = ((s.waiting lcoreId ++ if s.MovesFrom lcoreId c then [c] else []) ++
            changes.filter (s.MovesFrom lcoreId)).take 15 := by
          rw [waiting_setNewOwnerLcoreId, take_append_take]
      _ = (s.waiting lcoreId ++ (c :: changes).filter (s.MovesFrom lcoreId)).take 15 := by
          rw [filter_cons]
          split <;> simp

/-! ## The plan -/

theorem map_partitionId_pack (load : List UInt64) (bins : List (Nat × UInt64)) :
    (pack lcores load bins).map (·.partitionId) = bins.map Prod.fst := by
  induction bins generalizing load with
  | nil => rfl
  | cons _ _ ih => rw [pack, map_cons, map_cons, ih]

theorem partitions_assignment (env : LCores) (s : Ownership) (numaId : Nat) :
    ((s.assignment env numaId).map (·.partitionId)).Perm
      ((List.range s.partitionCount).filter fun p =>
        env.numaId (s.ownerLcoreIds p) = numaId) := by
  rw [assignment, map_partitionId_pack, sortBins]
  refine ((perm_insertionSort _ _).map Prod.fst).trans ?_
  rw [bins, map_map]
  exact .of_eq (map_id _)

theorem domain_of_mem_assignment (h : c ∈ s.assignment env numaId) :
    c.partitionId < s.partitionCount ∧ env.numaId (s.ownerLcoreIds c.partitionId) = numaId := by
  have hmem := (partitions_assignment env s numaId).subset (mem_map_of_mem h)
  rw [mem_filter, mem_range, decide_eq_true_iff] at hmem
  exact hmem

theorem toNat_foldl_add (counts : List UInt32) (acc : UInt64)
    (h : acc.toNat + counts.length * (2 ^ 32 - 1) < 2 ^ 64) :
    (counts.foldl (fun count c => count + c.toUInt64) acc).toNat =
      acc.toNat + (counts.map UInt32.toNat).sum := by
  induction counts generalizing acc with
  | nil => rfl
  | cons c _ ih =>
    have hc := c.toNat_lt
    have hacc : (acc + c.toUInt64).toNat = acc.toNat + c.toNat := by
      rw [UInt64.toNat_add, UInt32.toNat_toUInt64, Nat.mod_eq_of_lt]
      rw [length_cons, Nat.add_mul] at h
      omega
    rw [foldl_cons, ih, hacc, map_cons, sum_cons, add_assoc]
    rw [length_cons, add_mul] at h
    omega

theorem requests_eq_zero_iff (s : Ownership) (numaId p : Nat) :
    s.requests (s.lcoresOf env numaId) p = 0 ↔
      ∀ lcoreId ∈ s.lcoresOf env numaId, s.requestCount lcoreId p = 0 := by
  have hlen : (s.lcoresOf env numaId).length ≤ 2 ^ 32 :=
    (length_filter_le _ _).trans s.length_lcores
  have hsum := toNat_foldl_add ((s.lcoresOf env numaId).map (s.requestCount · p)) 0 (by
      rw [length_map]
      simp only [UInt64.toNat_zero]
      omega)
  rw [List.foldl_map, UInt64.toNat_zero, Nat.zero_add, List.map_map] at hsum
  rw [← UInt64.toNat_inj, requests, hsum, UInt64.toNat_zero, List.sum_eq_zero_iff_forall_eq_nat]
  constructor
  · intro hall lcoreId hmem
    exact UInt32.toNat_inj.mp (hall _ (mem_map_of_mem hmem))
  · intro hall x hx
    obtain ⟨lcoreId, hmem, rfl⟩ := mem_map.mp hx
    simp [hall lcoreId hmem]

theorem mem_bins : bin ∈ s.bins env numaId ↔
      (bin.1 < s.partitionCount ∧ env.numaId (s.ownerLcoreIds bin.1) = numaId) ∧
        bin.2 = s.requests (s.lcoresOf env numaId) bin.1 := by
  rw [bins, mem_map]
  constructor
  · rintro ⟨p, hp, rfl⟩
    rw [mem_filter, mem_range, decide_eq_true_iff] at hp
    exact ⟨hp, rfl⟩
  · rintro ⟨hp, hcount⟩
    refine ⟨bin.1, ?_, Prod.ext rfl hcount.symm⟩
    rw [mem_filter, mem_range, decide_eq_true_iff]
    exact hp

theorem mem_sortBins {bins : List (Nat × UInt64)} : bin ∈ sortBins bins ↔ bin ∈ bins :=
  mem_insertionSort _

theorem sortBins_head_max {bins rest : List (Nat × UInt64)} (h : sortBins bins = bin :: rest) :
    ∀ b ∈ bins, b.2 ≤ bin.2 := by
  have hsorted : (bin :: rest).Pairwise fun a b => b.2 ≤ a.2 := h ▸ pairwise_insertionSort _ bins
  intro b hb
  have hmem : b ∈ bin :: rest := h ▸ mem_sortBins.mpr hb
  rcases mem_cons.mp hmem with rfl | hrest
  · exact UInt64.le_refl _
  · exact (pairwise_cons.mp hsorted).1 b hrest

theorem asked_of_busy (h : s.Busy env numaId) : s.asked env numaId = s.assignment env numaId := by
  obtain ⟨-, p, hp, hdomain, lcoreId, hlcore, hcount⟩ := h
  have hbin : (p, s.requests (s.lcoresOf env numaId) p) ∈ s.bins env numaId :=
    mem_bins.mpr ⟨⟨hp, hdomain⟩, rfl⟩
  rw [asked]
  cases hsorted : sortBins (s.bins env numaId) with
  | nil => cases hsorted ▸ mem_sortBins.mpr hbin
  | cons =>
    refine if_neg fun hzero => hcount ?_
    have hle := sortBins_head_max hsorted _ hbin
    rw [hzero] at hle
    have hrequests := UInt64.le_antisymm hle UInt64.zero_le
    exact (s.requests_eq_zero_iff numaId p).mp hrequests lcoreId hlcore

theorem busy_of_mem_asked (hnuma : numaId < env.numaCount) (h : c ∈ s.asked env numaId) :
    s.Busy env numaId := by
  rw [asked] at h
  cases hsorted : sortBins (s.bins env numaId) with
  | nil => simp [hsorted] at h
  | cons bin =>
    have hne : bin.2 ≠ 0 := by
      intro hzero
      simp [hsorted, hzero] at h
    have hbin := mem_sortBins.mp (hsorted ▸ mem_cons_self)
    obtain ⟨⟨hp, hdomain⟩, hcount⟩ := mem_bins.mp hbin
    rw [hcount, Ne, requests_eq_zero_iff] at hne
    push Not at hne
    exact ⟨hnuma, bin.1, hp, hdomain, hne⟩

theorem mem_plan : c ∈ s.plan env ↔ s.Busy env (env.numaId (s.ownerLcoreIds c.partitionId)) ∧
        c ∈ s.assignment env (env.numaId (s.ownerLcoreIds c.partitionId)) := by
  rw [plan, mem_flatMap]
  constructor
  · rintro ⟨_, hnuma, hc⟩
    have hbusy := busy_of_mem_asked (mem_range.mp hnuma) hc
    rw [asked_of_busy hbusy] at hc
    have hdomain := (domain_of_mem_assignment hc).2
    rw [hdomain]
    exact ⟨hbusy, hc⟩
  · rintro ⟨hbusy, hc⟩
    exact ⟨_, mem_range.mpr hbusy.1, (asked_of_busy hbusy).symm ▸ hc⟩

theorem nodup_partitions_plan (env : LCores) (s : Ownership) :
    ((s.plan env).map (·.partitionId)).Nodup := by
  have hdomain : ∀ {numaId c}, numaId ∈ List.range env.numaCount → c ∈ s.asked env numaId →
      env.numaId (s.ownerLcoreIds c.partitionId) = numaId := by
    intro numaId c hnuma hc
    have hbusy := busy_of_mem_asked (mem_range.mp hnuma) hc
    exact (domain_of_mem_assignment (asked_of_busy hbusy ▸ hc)).2
  rw [plan, map_flatMap, nodup_flatMap]
  constructor
  · intro numaId hnuma
    by_cases hbusy : s.Busy env numaId
    · rw [asked_of_busy hbusy, (partitions_assignment env s numaId).nodup_iff]
      exact nodup_range.filter _
    · have hnil := eq_nil_iff_forall_not_mem.mpr fun c hc =>
          hbusy (busy_of_mem_asked (mem_range.mp hnuma) hc)
      rw [hnil]
      exact nodup_nil
  · -- a partition has its owner in one domain
    refine nodup_range.pairwise_of_forall_ne fun m hm n hn hne => ?_
    intro p hp hq
    obtain ⟨c, hc, rfl⟩ := mem_map.mp hp
    obtain ⟨d, hd, hcd⟩ := mem_map.mp hq
    exact hne ((hdomain hm hc).symm.trans (hcd ▸ hdomain hn hd))

theorem eq_of_mem_plan {d : PendingOwnerLCoreChange} (hc : c ∈ s.plan env) (hd : d ∈ s.plan env)
    (h : c.partitionId = d.partitionId) : c = d :=
  inj_on_of_nodup_map (nodup_partitions_plan env s) hc hd h

/-! ## The lcores apply the changes -/

/-- The lcores at work: the change that each has taken off its queue and not yet applied. -/
abbrev Taken := Nat → Option PendingOwnerLCoreChange

/-- One lcore takes a change, or applies the one it has taken.  The queues are locked, so
neither half of a turn is interrupted. -/
inductive Step : Ownership × Taken → Ownership × Taken → Prop
  | take {s s' : Ownership} {taken : Taken} {lcoreId : Nat} {c : PendingOwnerLCoreChange}
      (hfree : taken lcoreId = none) (htake : s.takeChange lcoreId = some (c, s')) :
      Step (s, taken) (s', update taken lcoreId (some c))
  | give {s : Ownership} {taken : Taken} {lcoreId : Nat} {c : PendingOwnerLCoreChange}
      (htaken : taken lcoreId = some c) :
      Step (s, taken) (s.giveAway lcoreId c, update taken lcoreId none)

/-- No lcore has a change in hand. -/
def noneTaken : Taken := fun _ => none

variable {s : Ownership}

theorem takeChange_eq_some {s' : Ownership} (h : s.takeChange lcoreId = some (c, s')) :
    s.waiting lcoreId = c :: s'.waiting lcoreId ∧
      (∀ q, q ≠ lcoreId → s'.waiting q = s.waiting q) ∧ s'.ownerLcoreIds = s.ownerLcoreIds := by
  unfold takeChange at h
  split at h
  · cases h
  · rename_i c' queue hqueue
    cases h
    refine ⟨?_, fun q hq => ?_, rfl⟩
    · simp only [waiting, update_self]
      exact RingQueue.dequeue_eq_some hqueue
    · simp [waiting, update_of_ne hq]

theorem takeChange_eq_none (h : s.takeChange lcoreId = none) : s.waiting lcoreId = [] := by
  unfold takeChange at h
  split at h
  · rename_i hqueue
    exact RingQueue.dequeue_eq_none_iff.mp hqueue
  · cases h

theorem giveAway_of_owner (h : s.ownerLcoreIds c.partitionId = lcoreId) :
    (s.giveAway lcoreId c).ownerLcoreIds = update s.ownerLcoreIds c.partitionId c.newOwnerLcoreId ∧
      (s.giveAway lcoreId c).waiting = s.waiting := by
  rw [giveAway, if_pos h]
  exact ⟨rfl, rfl⟩

section
variable (owner : Nat → Nat) (sent : Nat → List PendingOwnerLCoreChange)

/-- Part of the changes sent has been `given`; the rest is taken or still in the queues. -/
structure Applying (given : Nat → List PendingOwnerLCoreChange) (x : Ownership × Taken) : Prop where
  /-- nothing is lost and nothing is redirected -/
  queues : ∀ q, sent q = given q ++ ((x.2 q).toList ++ x.1.waiting q)
  moved : ∀ q, ∀ c ∈ given q, x.1.ownerLcoreIds c.partitionId = c.newOwnerLcoreId
  kept : ∀ p, (∀ c ∈ given (owner p), c.partitionId ≠ p) → x.1.ownerLcoreIds p = owner p

/-- Changes are sent to the owner, at most one for a partition. -/
structure SentToOwner : Prop where
  owner_eq : ∀ q, ∀ c ∈ sent q, owner c.partitionId = q
  nodup : ∀ q, ((sent q).map (·.partitionId)).Nodup

variable {owner sent} {x : Ownership × Taken}

/-- The change that an lcore has taken is for a partition that it has not given away before. -/
theorem Applying.not_given (hsent : SentToOwner owner sent) (h : Applying owner sent given x)
    {l : Nat} (htaken : x.2 l = some c) :
    owner c.partitionId = l ∧ ∀ d ∈ given l, d.partitionId ≠ c.partitionId := by
  have hsplit : sent l = given l ++ c :: x.1.waiting l := by
    have hqueue := h.queues l
    rw [htaken] at hqueue
    exact hqueue
  refine ⟨hsent.owner_eq l c (hsplit ▸ mem_append_right _ mem_cons_self), ?_⟩
  intro d hd heq
  have hnodup := hsent.nodup l
  rw [hsplit, map_append, nodup_append] at hnodup
  exact hnodup.2.2 _ (mem_map_of_mem hd) _ mem_cons_self heq

theorem Applying.owner_of_taken (hsent : SentToOwner owner sent) (h : Applying owner sent given x)
    {l : Nat} (htaken : x.2 l = some c) : x.1.ownerLcoreIds c.partitionId = l := by
  obtain ⟨hc, hnew⟩ := h.not_given hsent htaken
  exact (h.kept _ (hc.symm ▸ hnew)).trans hc

variable {y : Ownership × Taken}

/-- **What one step preserves.** -/
theorem Applying.step (hsent : SentToOwner owner sent) (h : Applying owner sent given x)
    (hstep : Step x y) : ∃ given', Applying owner sent given' y := by
  cases hstep with
  | @take s s' taken l c hfree htake =>
    obtain ⟨hwaiting, hothers, howners⟩ := takeChange_eq_some htake
    refine ⟨given, ?_, ?_, ?_⟩
    · intro q
      rw [h.queues q]
      by_cases hq : q = l
      · subst hq
        simp only [update_self, hfree, hwaiting]
        rfl
      · simp [update_of_ne hq, hothers q hq]
    · rw [howners]
      exact h.moved
    · rw [howners]
      exact h.kept
  | @give s taken l c htaken =>
    obtain ⟨hc, hnew⟩ := h.not_given hsent htaken
    obtain ⟨howners, hwaiting⟩ := giveAway_of_owner (h.owner_of_taken hsent htaken)
    refine ⟨update given l (given l ++ [c]), ?_, ?_, ?_⟩
    · intro q
      rw [hwaiting]
      by_cases hq : q = l
      · subst hq
        rw [h.queues q]
        simp [htaken]
      · simp only [update_of_ne hq]
        exact h.queues q
    · intro q d hd
      simp only [howners]
      by_cases hq : q = l
      · subst hq
        rw [update_self, mem_append, mem_singleton] at hd
        rcases hd with hd | rfl
        · rw [update_of_ne (hnew d hd)]
          exact h.moved q d hd
        · exact update_self ..
      · rw [update_of_ne hq] at hd
        have hd' := hsent.owner_eq q d (h.queues q ▸ mem_append_left _ hd)
        have hne : d.partitionId ≠ c.partitionId := by
          intro heq
          exact hq (hd'.symm.trans (heq.symm ▸ hc))
        rw [update_of_ne hne]
        exact h.moved q d hd
    · intro p hp
      have hne : p ≠ c.partitionId := by
        rintro rfl
        refine hp c ?_ rfl
        rw [hc, update_self]
        exact mem_append_right _ (mem_singleton_self c)
      simp only [howners, update_of_ne hne]
      refine h.kept p fun d hd => hp d ?_
      by_cases hq : owner p = l
      · rw [hq] at hd ⊢
        rw [update_self]
        exact mem_append_left _ hd
      · rw [update_of_ne hq]
        exact hd

/-- **What a run preserves.** -/
theorem Applying.run (hsent : SentToOwner owner sent) (h : Applying owner sent given x)
    (hrun : Relation.ReflTransGen Step x y) : ∃ given', Applying owner sent given' y := by
  induction hrun with
  | refl => exact ⟨given, h⟩
  | tail _ hstep ih =>
    obtain ⟨_, h'⟩ := ih
    exact h'.step hsent hstep

theorem Applying.effect (h : Applying owner sent given (t, noneTaken))
    (hempty : ∀ q, t.waiting q = []) :
    (∀ q, ∀ c ∈ sent q, t.ownerLcoreIds c.partitionId = c.newOwnerLcoreId) ∧
      ∀ p, (∀ c ∈ sent (owner p), c.partitionId ≠ p) → t.ownerLcoreIds p = owner p := by
  have hall : sent = given := by
    funext q
    have hqueue := h.queues q
    simp only [noneTaken, hempty q, Option.toList_none, append_nil] at hqueue
    exact hqueue
  rw [hall]
  exact ⟨h.moved, h.kept⟩

theorem Applying.applyLoop (hsent : SentToOwner owner sent) (l : Nat) (fuel : Nat)
    (h : Applying owner sent given (s, noneTaken)) (hfuel : (s.waiting l).length < fuel) :
    Relation.ReflTransGen Step (s, noneTaken) (s.applyLoop l fuel, noneTaken) ∧
      (s.applyLoop l fuel).waiting l = [] ∧
        ∀ q, q ≠ l → (s.applyLoop l fuel).waiting q = s.waiting q := by
  induction fuel generalizing s given with
  | zero => omega
  | succ fuel ih =>
    rw [Ownership.applyLoop]
    cases htake : s.takeChange l with
    | none => exact ⟨.refl, takeChange_eq_none htake, fun _ _ => rfl⟩
    | some x =>
      obtain ⟨c, s'⟩ := x
      obtain ⟨hwaiting, hothers, -⟩ := takeChange_eq_some htake
      -- take and give
      have hstep : Step (s, noneTaken) (s', update noneTaken l (some c)) := .take rfl htake
      obtain ⟨_, h'⟩ := h.step hsent hstep
      have htaken : update noneTaken l (some c) l = some c := update_self ..
      have hback : update (update noneTaken l (some c)) l none = noneTaken := by
        rw [update_idem]
        exact update_eq_self l noneTaken
      have hstep' : Step (s', update noneTaken l (some c)) (s'.giveAway l c, noneTaken) := by
        have hgive := Step.give (s := s') htaken
        rwa [hback] at hgive
      obtain ⟨_, h''⟩ := h'.step hsent hstep'
      obtain ⟨-, hsame⟩ := giveAway_of_owner (h'.owner_of_taken hsent htaken)
      simp only at hsame
      -- the rest of the queue
      have hlength : ((s'.giveAway l c).waiting l).length < fuel := by
        rw [hwaiting, length_cons] at hfuel
        rw [hsame]
        omega
      obtain ⟨hrun, hempty, hrest⟩ := ih h'' hlength
      refine ⟨.head hstep (.head hstep' hrun), hempty, fun q hq => ?_⟩
      exact (hrest q hq).trans (by rw [hsame, hothers q hq])

/-- **The queues can be emptied**: each lcore applies its pending changes once. -/
theorem Applying.drain (hsent : SentToOwner owner sent) (lcores : List Nat)
    (h : Applying owner sent given (s, noneTaken)) (hwaiting : ∀ q, s.waiting q ≠ [] → q ∈ lcores) :
    Relation.ReflTransGen Step (s, noneTaken)
        (lcores.foldl (fun s l => s.applyPendingOwnerLcoreChanges l) s, noneTaken) ∧
      ∀ q, (lcores.foldl (fun s l => s.applyPendingOwnerLcoreChanges l) s).waiting q = [] := by
  induction lcores generalizing s given with
  | nil =>
    refine ⟨.refl, fun q => ?_⟩
    by_contra hne
    cases hwaiting q hne
  | cons l lcores ih =>
    obtain ⟨hrun, hempty, hrest⟩ := h.applyLoop hsent l 16 (s.length_waiting_lt l)
    obtain ⟨_, h'⟩ := h.run hsent hrun
    have hwaiting' : ∀ q, (s.applyPendingOwnerLcoreChanges l).waiting q ≠ [] → q ∈ lcores := by
      intro q hne
      have hql : q ≠ l := by
        rintro rfl
        exact hne hempty
      rw [applyPendingOwnerLcoreChanges, hrest q hql] at hne
      exact (mem_cons.mp (hwaiting q hne)).resolve_left hql
    obtain ⟨hrun', ht⟩ := ih h' hwaiting'
    exact ⟨hrun.trans hrun', ht⟩

end

/-! ## Rebalancing takes effect -/

/-- The changes that rebalancing sends to an lcore: its partitions that the greedy assignment
gives to another lcore. -/
def moves (env : LCores) (s : Ownership) (lcoreId : Nat) : List PendingOwnerLCoreChange :=
  (s.plan env).filter (s.MovesFrom lcoreId)

theorem sentToOwner_take_moves (env : LCores) (s : Ownership) :
    SentToOwner s.ownerLcoreIds fun q => (s.moves env q).take 15 where
  owner_eq q c hc := (movesFrom_iff.mp (mem_filter.mp (mem_of_mem_take hc)).2).2
  nodup q := by
    refine (nodup_partitions_plan env s).sublist (List.Sublist.map _ ?_)
    exact (take_sublist _ _).trans filter_sublist

/-- The lcores have applied all the changes that `rebalance_load` has sent. -/
def Drained (env : LCores) (s t : Ownership) : Prop :=
  Relation.ReflTransGen Step (s.rebalanceLoad env, noneTaken) (t, noneTaken) ∧ ∀ q, t.waiting q = []

/-- The partitions of busy domains are owned by the lcores that the greedy assignment chose,
and every other partition has kept its owner. -/
def Effective (env : LCores) (s t : Ownership) : Prop :=
  ∀ p, let numaId := env.numaId (s.ownerLcoreIds p)
    (p < s.partitionCount ∧ s.Busy env numaId →
      ⟨p, t.ownerLcoreIds p⟩ ∈ s.assignment env numaId) ∧
    (¬ (p < s.partitionCount ∧ s.Busy env numaId) → t.ownerLcoreIds p = s.ownerLcoreIds p)

theorem applying_rebalanceLoad (hempty : ∀ q, s.waiting q = []) :
    Applying s.ownerLcoreIds (fun q => (s.moves env q).take 15) (fun _ => [])
      (s.rebalanceLoad env, noneTaken) where
  queues q := by
    have hwaiting := s.waiting_setNewOwners (s.plan env) q
    rw [hempty q, nil_append] at hwaiting
    rw [rebalanceLoad_eq]
    exact hwaiting.symm
  moved q c hc := by cases hc
  kept p _ := by
    rw [rebalanceLoad_eq]
    exact congrFun (s.ownerLcoreIds_setNewOwners (s.plan env)) p

theorem Drained.effect (hempty : ∀ q, s.waiting q = []) (h : Drained env s t) :
    (∀ q, ∀ c ∈ (s.moves env q).take 15, t.ownerLcoreIds c.partitionId = c.newOwnerLcoreId) ∧
      ∀ p, (∀ c ∈ (s.moves env (s.ownerLcoreIds p)).take 15, c.partitionId ≠ p) →
        t.ownerLcoreIds p = s.ownerLcoreIds p := by
  obtain ⟨_, happlying⟩ := (applying_rebalanceLoad hempty).run (sentToOwner_take_moves env s) h.1
  exact happlying.effect h.2

theorem exists_mem_plan {p : Nat} (hp : p < s.partitionCount)
    (hbusy : s.Busy env (env.numaId (s.ownerLcoreIds p))) : ∃ l, ⟨p, l⟩ ∈ s.plan env := by
  have hmem : p ∈ (s.assignment env (env.numaId (s.ownerLcoreIds p))).map (·.partitionId) := by
    refine (partitions_assignment env s _).symm.subset (mem_filter.mpr ⟨?_, ?_⟩)
    · exact mem_range.mpr hp
    · exact decide_eq_true rfl
  obtain ⟨⟨_, l⟩, hc, rfl⟩ := mem_map.mp hmem
  exact ⟨l, mem_plan.mpr ⟨hbusy, hc⟩⟩

theorem Drained.effective (hempty : ∀ q, s.waiting q = []) (h : Drained env s t)
    (hroom : ∀ q, (s.moves env q).length ≤ 15) : Effective env s t := by
  obtain ⟨hmoved, hkept⟩ := h.effect hempty
  have hall : ∀ q, (s.moves env q).take 15 = s.moves env q := fun q =>
    take_of_length_le (hroom q)
  simp only [hall] at hmoved hkept
  -- a partition for which no move is sent keeps its owner
  have hother : ∀ p, (∀ c ∈ s.plan env, c.partitionId = p →
      s.ownerLcoreIds p = c.newOwnerLcoreId) → t.ownerLcoreIds p = s.ownerLcoreIds p := by
    intro p hsame
    refine hkept p fun c hc hcp => ?_
    obtain ⟨hplan, hmove⟩ := mem_filter.mp hc
    exact (movesFrom_iff.mp hmove).1 (hcp ▸ hsame c hplan hcp)
  intro p
  constructor
  · rintro ⟨hp, hbusy⟩
    obtain ⟨l, hl⟩ := exists_mem_plan hp hbusy
    have howner : t.ownerLcoreIds p = l := by
      by_cases hsame : s.ownerLcoreIds p = l
      · rw [hother p fun c hc hcp => ?_, hsame]
        rw [eq_of_mem_plan hc hl hcp, hsame]
      · exact hmoved _ ⟨p, l⟩ (mem_filter.mpr ⟨hl, movesFrom_iff.mpr ⟨hsame, rfl⟩⟩)
    rw [howner]
    exact (mem_plan.mp hl).2
  · intro hidle
    refine hother p fun c hc hcp => ?_
    obtain ⟨hbusy, hc'⟩ := mem_plan.mp hc
    exact absurd (hcp ▸ ⟨(domain_of_mem_assignment hc').1, hbusy⟩) hidle

theorem Drained.room (hempty : ∀ q, s.waiting q = []) (h : Drained env s t)
    (heffective : Effective env s t) (q : Nat) : (s.moves env q).length ≤ 15 := by
  by_contra hlong
  have hdrop : (s.moves env q).drop 15 ≠ [] := by
    rw [Ne, drop_eq_nil_iff]
    omega
  obtain ⟨c, hc⟩ := exists_mem_of_ne_nil _ hdrop
  obtain ⟨hplan, hmove⟩ := mem_filter.mp (mem_of_mem_drop hc)
  obtain ⟨hne, howner⟩ := movesFrom_iff.mp hmove
  -- no change for its partition is in the queue
  have hkept : t.ownerLcoreIds c.partitionId = s.ownerLcoreIds c.partitionId := by
    refine (h.effect hempty).2 c.partitionId fun d hd hdc => ?_
    have hnodup : ((s.moves env q).map (·.partitionId)).Nodup :=
      (nodup_partitions_plan env s).sublist (filter_sublist.map _)
    rw [howner] at hd
    rw [← take_append_drop 15 (s.moves env q), map_append, nodup_append] at hnodup
    exact hnodup.2.2 _ (mem_map_of_mem hd) _ (mem_map_of_mem hc) hdc
  -- but the assignment wants it elsewhere
  obtain ⟨hbusy, hassigned⟩ := mem_plan.mp hplan
  have hmem := (heffective c.partitionId).1 ⟨(domain_of_mem_assignment hassigned).1, hbusy⟩
  have heq : (⟨c.partitionId, t.ownerLcoreIds c.partitionId⟩ : PendingOwnerLCoreChange) = c :=
    eq_of_mem_plan (mem_plan.mpr ⟨hbusy, hmem⟩) hplan rfl
  exact hne (hkept.symm.trans (congrArg PendingOwnerLCoreChange.newOwnerLcoreId heq))

theorem exists_drained (env : LCores)
    (howners : ∀ p < s.partitionCount, s.ownerLcoreIds p ∈ s.lcores)
    (hempty : ∀ q, s.waiting q = []) : ∃ t, Drained env s t := by
  have happlying := @applying_rebalanceLoad env s hempty
  refine ⟨_, happlying.drain (sentToOwner_take_moves env s) s.lcores fun q hne => ?_⟩
  -- only owners have something in their queues
  obtain ⟨c, hc⟩ := exists_mem_of_ne_nil _ hne
  have hsent : c ∈ (s.moves env q).take 15 := happlying.queues q ▸ hc
  obtain ⟨hplan, hmove⟩ := mem_filter.mp (mem_of_mem_take hsent)
  rw [← (movesFrom_iff.mp hmove).2]
  exact howners _ (domain_of_mem_assignment (mem_plan.mp hplan).2).1

/-- **Rebalancing takes effect just if no lcore has to give away more than 15 partitions.**
The queues can always be emptied, and whichever way the lcores take turns at that, the
outcome is as the greedy assignment has it if and only if every lcore's changes fit its
queue. -/
theorem rebalance_effective_iff (env : LCores) (s : Ownership)
    (howners : ∀ p < s.partitionCount, s.ownerLcoreIds p ∈ s.lcores)
    (hempty : ∀ q, s.waiting q = []) :
    (∃ t, Drained env s t) ∧
      ∀ t, Drained env s t → (Effective env s t ↔ ∀ q, (s.moves env q).length ≤ 15) := by
  refine ⟨exists_drained env howners hempty, fun t ht => ?_⟩
  exact ⟨ht.room hempty, ht.effective hempty⟩

/-- All lcores in one NUMA domain. -/
def oneDomain : LCores := ⟨1, fun _ => 0⟩

/-- Lcore 0 owns all of the partitions, each of which it has had a request for. -/
def allOwnedByZero (partitionCount : Nat) (h : partitionCount ≤ kMaxPartitionCount) :
    Ownership where
  partitionCount := partitionCount
  lcores := [0, 1]
  ownerLcoreIds _ := 0
  pendingOwnerLcoreChanges _ := ⟨0, 0, fun _ => ⟨0, 0⟩, by decide, by decide⟩
  requestCount lcoreId _ := if lcoreId = 0 then 1 else 0
  partitionCount_le := h
  length_lcores := by decide

theorem owner_mem_allOwnedByZero (n : Nat) (h : n ≤ kMaxPartitionCount) :
    ∀ p < n, (allOwnedByZero n h).ownerLcoreIds p ∈ (allOwnedByZero n h).lcores :=
  fun _ _ => mem_cons_self

theorem waiting_allOwnedByZero (n : Nat) (h : n ≤ kMaxPartitionCount) :
    ∀ q, (allOwnedByZero n h).waiting q = [] :=
  fun _ => rfl

theorem thirtyOne_le : 31 ≤ kMaxPartitionCount := by decide

theorem thirtyTwo_le : 32 ≤ kMaxPartitionCount := by decide

/-- Of 31 partitions, 15 go to lcore 1. -/
theorem rebalance_thirtyOne : ∃ t, Drained oneDomain (allOwnedByZero 31 thirtyOne_le) t ∧
      Effective oneDomain (allOwnedByZero 31 thirtyOne_le) t := by
  obtain ⟨⟨t, ht⟩, hiff⟩ := rebalance_effective_iff oneDomain (allOwnedByZero 31 thirtyOne_le)
    (owner_mem_allOwnedByZero 31 thirtyOne_le) (waiting_allOwnedByZero 31 thirtyOne_le)
  refine ⟨t, ht, (hiff t ht).mpr fun q => ?_⟩
  by_cases hq : q = 0
  · subst hq
    decide +kernel
  · have hnil : (allOwnedByZero 31 thirtyOne_le).moves oneDomain q = [] :=
      filter_eq_nil_iff.mpr fun c _ hmove => hq (movesFrom_iff.mp hmove).2.symm
    rw [hnil]
    exact zero_le _

/-- Of 32 partitions, lcore 0 should give 16 to lcore 1; the last one is forgotten. -/
theorem rebalance_forgets_sixteenth : ¬ ∀ (env : LCores) (s : Ownership),
      (∀ p < s.partitionCount, s.ownerLcoreIds p ∈ s.lcores) → (∀ q, s.waiting q = []) →
        ∀ t, Drained env s t → Effective env s t := by
  intro hclaim
  have howners := owner_mem_allOwnedByZero 32 thirtyTwo_le
  have hempty := waiting_allOwnedByZero 32 thirtyTwo_le
  obtain ⟨t, ht⟩ := exists_drained oneDomain howners hempty
  have hroom := ht.room hempty (hclaim oneDomain _ howners hempty t ht) 0
  have hlength : ((allOwnedByZero 32 thirtyTwo_le).moves oneDomain 0).length = 16 := by
    decide +kernel
  omega

/-! ## Balance -/

variable {lcores}

theorem foldl_min (l : List (UInt64 × Nat)) (acc : UInt64 × Nat) :
    let least := l.foldl (fun (acc : UInt64 × Nat) load => if acc.1 > load.1 then load else acc) acc
    (least = acc ∨ least ∈ l) ∧ least.1 ≤ acc.1 ∧ ∀ x ∈ l, least.1 ≤ x.1 := by
  induction l generalizing acc with
  | nil => exact ⟨Or.inl rfl, UInt64.le_refl _, fun x hx => nomatch hx⟩
  | cons y _ ih =>
    obtain ⟨hfrom, hle, hall⟩ := ih (if acc.1 > y.1 then y else acc)
    rw [foldl_cons]
    by_cases hgt : acc.1 > y.1
    · rw [if_pos hgt] at *
      refine ⟨Or.inr ?_, UInt64.le_trans hle (UInt64.le_of_lt hgt), forall_mem_cons.mpr ⟨hle, hall⟩⟩
      exact mem_cons.mpr hfrom
    · rw [if_neg hgt] at *
      exact ⟨hfrom.imp_right (mem_cons_of_mem _), hle,
        forall_mem_cons.mpr ⟨UInt64.le_trans hle (UInt64.not_lt.mp hgt), hall⟩⟩

/-- The search finds an lcore with the least load. -/
theorem minLcoreIndex_spec {load : List UInt64} (h : load ≠ []) :
    minLcoreIndex load < load.length ∧ ∀ x ∈ load, load.getD (minLcoreIndex load) 0 ≤ x := by
  obtain ⟨hfrom, -, hall⟩ := foldl_min load.zipIdx (-1, 0)
  have hleast : ∀ x ∈ load, _ ≤ x := fun x hx => by
    obtain ⟨i, hi, rfl⟩ := getElem_of_mem hx
    exact hall (load[i], i) (mk_mem_zipIdx_iff_getElem?.mpr (getElem?_eq_getElem hi))
  rw [minLcoreIndex]
  obtain hmax | hmem := hfrom
  · rw [hmax] at hleast ⊢
    have hpos := length_pos_iff.mpr h
    refine ⟨hpos, fun x hx => UInt64.le_trans ?_ (hleast x hx)⟩
    exact UInt64.le_iff_toNat_le.mpr (Nat.le_of_lt_succ (UInt64.toNat_lt _))
  · generalize load.zipIdx.foldl _ _ = least at hmem hleast ⊢
    have hget := mk_mem_zipIdx_iff_getElem?.mp (show (least.1, least.2) ∈ _ from hmem)
    obtain ⟨hlt, -⟩ := List.getElem?_eq_some_iff.mp hget
    refine ⟨hlt, fun x hx => ?_⟩
    rw [getD_eq_getElem?_getD, hget]
    exact hleast x hx

/-- The sum of the counts of the partitions that the lcore gets. -/
def share (count : Nat → Nat) (changes : List PendingOwnerLCoreChange) (lcoreId : Nat) : Nat :=
  ((changes.filter (·.newOwnerLcoreId = lcoreId)).map (count ·.partitionId)).sum

/-- The lcore gets no partition, or its load without the smallest of its partitions is at most
`bound`. -/
def AtMost (count : Nat → Nat) (changes : List PendingOwnerLCoreChange) (lcoreId load bound : Nat) :
    Prop :=
  (∀ c ∈ changes, c.newOwnerLcoreId ≠ lcoreId) ∨ ∃ c ∈ changes, c.newOwnerLcoreId = lcoreId ∧
    (∀ d ∈ changes, d.newOwnerLcoreId = lcoreId → count c.partitionId ≤ count d.partitionId) ∧
    load ≤ bound + count c.partitionId

theorem pack_balanced (count : Nat → Nat) (hdistinct : lcores.Nodup) {bins : List (Nat × UInt64)}
    (hcount : ∀ bin ∈ bins, bin.2.toNat = count bin.1)
    (hsorted : bins.Pairwise fun a b => b.2 ≤ a.2) {load : List UInt64}
    (hlength : load.length = lcores.length)
    (hfits : ∀ x ∈ load, x.toNat + (bins.map (·.2.toNat)).sum < 2 ^ 64) {a b : Nat}
    (ha : a ∈ lcores) (hb : b ∈ lcores) :
    AtMost count (pack lcores load bins) a
      ((load.getD (lcores.idxOf a) 0).toNat + share count (pack lcores load bins) a)
      ((load.getD (lcores.idxOf b) 0).toNat + share count (pack lcores load bins) b) := by
  induction bins generalizing load with
  | nil => exact Or.inl fun c hc => nomatch hc
  | cons bin bins ih =>
    obtain ⟨hbin, hcount⟩ := forall_mem_cons.mp hcount
    obtain ⟨hlargest, hsorted⟩ := pairwise_cons.mp hsorted
    have hne : load ≠ [] := by
      rintro rfl
      rw [length_nil] at hlength
      exact absurd ha (length_eq_zero_iff.mp hlength.symm ▸ not_mem_nil)
    obtain ⟨hlt, hmin⟩ := minLcoreIndex_spec hne
    have hi := hlength ▸ hlt
    -- what the chosen lcore has is the same before and after, with the bin in its load or its share
    obtain ⟨k, hk⟩ : ∃ k, lcores.getD (minLcoreIndex load) 0 = k := ⟨_, rfl⟩
    have hindex : ∀ x ∈ lcores, (minLcoreIndex load = lcores.idxOf x ↔ k = x) := by
      intro x hx
      rw [← hk, getD_eq_getElem _ _ hi]
      constructor
      · intro h
        simp [h, getElem_idxOf]
      · rintro rfl
        exact (hdistinct.idxOf_getElem _ hi).symm
    have htotal : ∀ x ∈ lcores, (load.getD (lcores.idxOf x) 0).toNat +
          share count (pack lcores load (bin :: bins)) x =
        ((load.modify (minLcoreIndex load) (· + bin.2)).getD (lcores.idxOf x) 0).toNat +
          share count (pack lcores (load.modify (minLcoreIndex load) (· + bin.2)) bins) x := by
      intro x hx
      have hx' := hlength ▸ idxOf_lt_length_of_mem hx
      have hroom := hfits _ (getElem_mem hx')
      rw [map_cons, sum_cons] at hroom
      rw [pack, hk, share, share, filter_cons, getD_eq_getElem _ _ hx',
        getD_eq_getElem _ _ (by rw [length_modify]; exact hx'), getElem_modify]
      by_cases hkx : k = x
      · rw [if_pos (decide_eq_true hkx), if_pos ((hindex x hx).mpr hkx), map_cons, sum_cons,
          UInt64.toNat_add, Nat.mod_eq_of_lt (by omega), hbin, Nat.add_assoc]
      · rw [if_neg (by simpa using hkx), if_neg (fun h => hkx ((hindex x hx).mp h))]
    have hrest : ∀ x ∈ load.modify (minLcoreIndex load) (· + bin.2),
        x.toNat + (bins.map (·.2.toNat)).sum < 2 ^ 64 := by
      intro x hx
      obtain ⟨j, hj, rfl⟩ := getElem_of_mem hx
      rw [length_modify] at hj
      have hroom := hfits _ (getElem_mem hj)
      rw [map_cons, sum_cons] at hroom
      rw [getElem_modify]
      split
      · rw [UInt64.toNat_add, Nat.mod_eq_of_lt (by omega)]
        omega
      · omega
    have hih := ih hcount hsorted (by rw [length_modify, hlength]) hrest
    rw [← htotal a ha, ← htotal b hb] at hih
    have hsplit : pack lcores load (bin :: bins) =
        ⟨bin.1, k⟩ :: pack lcores (load.modify (minLcoreIndex load) (· + bin.2)) bins := by
      rw [pack, hk]
    rw [hsplit] at hih ⊢
    obtain hnone | ⟨c, hc, howner, hsmallest, hle⟩ := hih
    · by_cases hka : k = a
      · subst hka
        refine Or.inr ⟨_, mem_cons_self, rfl, ?_, ?_⟩
        · rintro d (_ | ⟨_, hd⟩) howner
          · exact le_refl _
          · exact absurd howner (hnone d hd)
        · have halone : share count
              (⟨bin.1, k⟩ :: pack lcores (load.modify (minLcoreIndex load) (· + bin.2)) bins) k =
                count bin.1 := by
            have hnil := filter_eq_nil_iff.mpr fun d hd => mt of_decide_eq_true (hnone d hd)
            rw [share, filter_cons, if_pos (decide_eq_true rfl), hnil, map_singleton, sum_singleton]
          have hb' := hlength ▸ idxOf_lt_length_of_mem hb
          have hload := hmin _ (getElem_mem hb')
          rw [(hindex k ha).mpr rfl, ← getD_eq_getElem _ 0 hb', le_iff_toNat_le] at hload
          rw [halone]
          dsimp only
          omega
      · exact Or.inl (forall_mem_cons.mpr ⟨hka, hnone⟩)
    · refine Or.inr ⟨c, mem_cons_of_mem _ hc, howner,
        forall_mem_cons.mpr ⟨fun _ => ?_, hsmallest⟩, hle⟩
      have hpartition := mem_map_of_mem (f := (·.partitionId)) hc
      rw [map_partitionId_pack] at hpartition
      obtain ⟨bin', hmem, hsame⟩ := mem_map.mp hpartition
      rw [← hsame, ← hcount bin' hmem, ← hbin]
      exact le_iff_toNat_le.mp (hlargest bin' hmem)

theorem newOwner_mem_of_mem_pack {load : List UInt64} {bins : List (Nat × UInt64)}
    {c : PendingOwnerLCoreChange} (hlength : load.length = lcores.length) (hne : load ≠ [])
    (hc : c ∈ pack lcores load bins) : c.newOwnerLcoreId ∈ lcores := by
  induction bins generalizing load with
  | nil => cases hc
  | cons _ _ ih =>
    obtain rfl | hc := mem_cons.mp hc
    · have hi := hlength ▸ (minLcoreIndex_spec hne).1
      dsimp only
      rw [getD_eq_getElem _ _ hi]
      exact getElem_mem hi
    · refine ih (by rw [length_modify, hlength]) ?_ hc
      rw [← length_pos_iff, length_modify]
      exact length_pos_iff.mpr hne

/-- **Greedy rebalancing is balanced**: if an lcore of the domain has recorded a request, every
partition of the domain goes to one lcore of the domain, and the load of an lcore without the
smallest of its partitions is at most the load of any other.  Otherwise the partitions stay. -/
theorem rebalance_balanced (hdistinct : s.lcores.Nodup) (hnuma : numaId < env.numaCount)
    (hfits : ((s.bins env numaId).map (·.2.toNat)).sum < 2 ^ 64) :
    let count p := (s.requests (s.lcoresOf env numaId) p).toNat
    let changes := s.asked env numaId
    (¬ s.Busy env numaId → changes = []) ∧
    (s.Busy env numaId → (changes.map (·.partitionId)).Perm
        ((List.range s.partitionCount).filter fun p => env.numaId (s.ownerLcoreIds p) = numaId) ∧
      (∀ c ∈ changes, c.newOwnerLcoreId ∈ s.lcoresOf env numaId) ∧
      ∀ a ∈ s.lcoresOf env numaId, ∀ b ∈ s.lcoresOf env numaId,
        AtMost count changes a (share count changes a) (share count changes b)) := by
  intro count changes
  refine ⟨fun hidle => ?_, fun hbusy => ?_⟩
  · exact eq_nil_iff_forall_not_mem.mpr fun c hc => hidle (busy_of_mem_asked hnuma hc)
  have hasked : changes = s.assignment env numaId := asked_of_busy hbusy
  obtain ⟨-, -, -, -, _, hlcore, -⟩ := hbusy
  have hlength := length_replicate (n := (s.lcoresOf env numaId).length) (a := (0 : UInt64))
  rw [hasked]
  refine ⟨partitions_assignment env s numaId, fun c hc => ?_, fun a ha b hb => ?_⟩
  · refine newOwner_mem_of_mem_pack hlength ?_ hc
    exact length_pos_iff.mp (hlength.symm ▸ length_pos_of_mem hlcore)
  · have hperm := ((perm_insertionSort (fun a b => b.2 ≤ a.2) (s.bins env numaId)).map
      (·.2.toNat)).sum_nat
    have hcount : ∀ bin ∈ sortBins (s.bins env numaId), bin.2.toNat = count bin.1 :=
      fun bin hbin => by rw [(mem_bins.mp (mem_sortBins.mp hbin)).2]
    have hbalanced := pack_balanced count (hdistinct.filter _) hcount
      (pairwise_insertionSort _ (s.bins env numaId)) hlength (fun x hx => by
        rw [eq_of_mem_replicate hx]
        exact (zero_add _).trans_lt (hperm.trans_lt hfits)) ha hb
    have hzero : ∀ i, (replicate (s.lcoresOf env numaId).length (0 : UInt64)).getD i 0 = 0 := by
      intro i
      rw [getD_eq_getElem?_getD, getElem?_replicate]
      split <;> rfl
    rw [hzero, hzero, UInt64.toNat_zero, Nat.zero_add, Nat.zero_add] at hbalanced
    exact hbalanced

/-- Two partitions with one request each. -/
theorem rebalance_balanced_two :
    let s := allOwnedByZero 2 (by decide)
    s.Busy oneDomain 0 ∧ ∀ c ∈ s.asked oneDomain 0, c.newOwnerLcoreId ∈ s.lcoresOf oneDomain 0 := by
  intro s
  have hbusy : s.Busy oneDomain 0 := ⟨by decide, 0, by decide, rfl, 0, by decide, by decide⟩
  exact ⟨hbusy, ((rebalance_balanced (by decide) (by decide) (by decide +kernel)).2 hbusy).2.1⟩

/-- **The turns of the lcores do not matter**: all ways to empty the queues end with the same
owners, also if changes are lost. -/
theorem drained_unique (howners : ∀ p < s.partitionCount, s.ownerLcoreIds p ∈ s.lcores)
    (hempty : ∀ q, s.waiting q = []) : ∃! o, ∃ t, Drained env s t ∧ t.ownerLcoreIds = o := by
  obtain ⟨t, h⟩ := exists_drained env howners hempty
  obtain ⟨hmoved, hkept⟩ := h.effect hempty
  refine ⟨_, ⟨t, h, rfl⟩, ?_⟩
  rintro _ ⟨t', h', rfl⟩
  obtain ⟨hmoved', hkept'⟩ := h'.effect hempty
  funext p
  by_cases hsent : ∃ c ∈ (s.moves env (s.ownerLcoreIds p)).take 15, c.partitionId = p
  · obtain ⟨c, hc, rfl⟩ := hsent
    rw [hmoved _ c hc, hmoved' _ c hc]
  · push Not at hsent
    rw [hkept p hsent, hkept' p hsent]

/-- Thirty-two partitions of one lcore. -/
theorem drained_unique_thirtyTwo : ∃! o, ∃ t,
    Drained oneDomain (allOwnedByZero 32 thirtyTwo_le) t ∧ t.ownerLcoreIds = o :=
  drained_unique (owner_mem_allOwnedByZero _ _) (waiting_allOwnedByZero _ _)

end Ownership

end Testbed.Mica
