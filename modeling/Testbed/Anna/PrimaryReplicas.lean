import Testbed.Anna.RingWalks
import Testbed.Anna.SmallClusters

/-! # The primary replica of a key

`is_primary_replica` of `utils.cpp`.  Every thread decides on its own whether it reports
the size of a key: it must be the first thread that the walks of its tier meet, and no
tier above may have a replica.  In a cluster whose nodes share rings and factors at most
one thread says yes, and one does when the highest tier that keeps the key has a server;
it is one of the threads responsible for the key (`primary_replica_unique`).
-/
namespace Testbed.Anna

open Std (ExtTreeMap)
open Lib List

/-- The number of a tier in `metadata.proto`. -/
def Tier.number : Tier → Nat
  | .tierUnspecified => 0
  | .memory => 1
  | .disk => 2
  | .routing => 3

section
variable {cfg : Config}

/-- `is_primary_replica`, for a thread `st` of a node of the tier `selfTier`.  A key or a
tier without an entry gets one with factor `0`, which reads like none. -/
def isPrimaryReplica (selfTier : Tier) (key : Key)
    (keyReplicationMap : ExtTreeMap Key KeyReplication) (rings : RingMaps cfg)
    (st : ServerThread) : Bool :=
  let rep := keyReplicationMap.getD key default
  if rep.globalAt selfTier = 0 then false
  else
    let hasUpperTierReplica := kAllTiers.any fun tier =>
      tier.number < selfTier.number ∧ 0 < rep.globalAt tier
    if selfTier.number > Tier.memory.number ∧ hasUpperTierReplica then false
    else
      match (rings.globalHashRings selfTier).find key with
      | none => false
      | some globalPos =>
        if st.privateIp = globalPos.privateIp then
          match (rings.localHashRings selfTier).find key with
          | none => false
          | some localPos => st.tid = localPos.tid
        else false

/-- A tier that keeps a key, with none above it that does. -/
structure HighestTier (rep : KeyReplication) (tier : Tier) : Prop where
  stores : tier ∈ kAllTiers
  positive : 0 < rep.globalAt tier
  above : ∀ t ∈ kAllTiers, t.number < tier.number → rep.globalAt t = 0

theorem Tier.number_inj {s t : Tier} (h : s.number = t.number) : s = t := by
  cases s <;> cases t <;> first | rfl | cases h

theorem HighestTier.unique {rep : KeyReplication} {s t : Tier} (hs : HighestTier rep s)
    (ht : HighestTier rep t) : s = t := by
  refine Tier.number_inj (Nat.le_antisymm (not_lt.mp fun hlt => ?_) (not_lt.mp fun hlt => ?_))
  · exact absurd (hs.above t ht.stores hlt) ht.positive.ne'
  · exact absurd (ht.above s hs.stores hlt) hs.positive.ne'

variable {key : Key} {keyReplicationMap : ExtTreeMap Key KeyReplication} {rep : KeyReplication}
  {rings : RingMaps cfg} {tier : Tier} {st : ServerThread}

theorem not_hasUpperTierReplica_iff (htier : tier ∈ kAllTiers) :
    ¬ (tier.number > Tier.memory.number ∧ (kAllTiers.any fun t =>
        t.number < tier.number ∧ 0 < rep.globalAt t) = true) ↔
      ∀ t ∈ kAllTiers, t.number < tier.number → rep.globalAt t = 0 := by
  have hcases : tier = .memory ∨ tier = .disk := by simpa [kAllTiers] using htier
  rcases hcases with rfl | rfl
  · simp [kAllTiers, Tier.number]
  · simp [kAllTiers, Tier.number]

theorem isPrimaryReplica_iff (hrep : keyReplicationMap[key]? = some rep)
    (htier : tier ∈ kAllTiers) :
    isPrimaryReplica tier key keyReplicationMap rings st = true ↔ HighestTier rep tier ∧
      (∃ pos, (rings.globalHashRings tier).find key = some pos ∧ st.privateIp = pos.privateIp) ∧
      ∃ pos, (rings.localHashRings tier).find key = some pos ∧ st.tid = pos.tid := by
  have hget : keyReplicationMap.getD key default = rep := by
    rw [ExtTreeMap.getD_eq_getD_getElem?, hrep, Option.getD_some]
  have hhighest : HighestTier rep tier ↔ ¬ rep.globalAt tier = 0 ∧
      ¬ (tier.number > Tier.memory.number ∧ (kAllTiers.any fun t =>
        t.number < tier.number ∧ 0 < rep.globalAt t) = true) := by
    rw [not_hasUpperTierReplica_iff htier]
    exact ⟨fun h => ⟨h.positive.ne', h.above⟩, fun h => ⟨htier, Nat.pos_of_ne_zero h.1, h.2⟩⟩
  rw [hhighest]
  unfold isPrimaryReplica
  rw [hget]
  by_cases hzero : rep.globalAt tier = 0
  · simp [hzero]
  · rw [if_neg hzero]
    by_cases hupper : tier.number > Tier.memory.number ∧ (kAllTiers.any fun t =>
        t.number < tier.number ∧ 0 < rep.globalAt t) = true
    · rw [if_pos hupper]
      exact iff_of_false Bool.false_ne_true fun h => h.1.2 hupper
    · rw [if_neg hupper]
      simp only [hzero, hupper, not_false_eq_true, and_true, true_and]
      cases (rings.globalHashRings tier).find key with
      | none => simp
      | some =>
        cases (rings.localHashRings tier).find key with
        | none => simp
        | some => simp

/-! ## Clusters -/

/-- A node that stores data. -/
structure ClusterNode where
  tier : Tier
  publicIp : Address
  privateIp : Address

/-- The nodes of a cluster, the rings that they share, and how many threads the nodes of
a tier have.  The servers in the rings are nodes, the threads in the rings are theirs. -/
structure Cluster (cfg : Config) where
  rings : RingMaps cfg
  nodes : List ClusterNode
  threadNumber : Tier → Nat
  stores : ∀ node ∈ nodes, node.tier ∈ kAllTiers
  distinct : ∀ node ∈ nodes, ∀ node' ∈ nodes, node.privateIp = node'.privateIp → node = node'
  servers : ∀ tier ∈ kAllTiers, ∀ pos key, pos ∈ (rings.globalHashRings tier).turn key →
    ∃ node ∈ nodes, node.tier = tier ∧ node.privateIp = pos.privateIp
  threads : ∀ tier ∈ kAllTiers, ∀ pos key, pos ∈ (rings.localHashRings tier).turn key →
    pos.tid < threadNumber tier
  nonempty : ∀ tier ∈ kAllTiers, (rings.localHashRings tier).nodes.nodes ≠ ∅

namespace Cluster
variable (c : Cluster cfg)

/-- The thread `tid` of a node is one of the cluster. -/
def HasThread (node : ClusterNode) (tid : Nat) : Prop :=
  node ∈ c.nodes ∧ tid < c.threadNumber node.tier

/-- The thread finds that it has the primary replica. -/
def IsPrimary (key : Key) (keyReplicationMap : ExtTreeMap Key KeyReplication)
    (node : ClusterNode) (tid : Nat) : Prop :=
  isPrimaryReplica node.tier key keyReplicationMap c.rings
    ⟨node.publicIp, node.privateIp, tid, 0⟩ = true

variable {c}

theorem IsPrimary.unique (hrep : keyReplicationMap[key]? = some rep) {node node' : ClusterNode}
    {tid tid' : Nat} (hnode : node ∈ c.nodes) (hnode' : node' ∈ c.nodes)
    (h : c.IsPrimary key keyReplicationMap node tid)
    (h' : c.IsPrimary key keyReplicationMap node' tid') : node = node' ∧ tid = tid' := by
  obtain ⟨htier, ⟨_, hpos, hip⟩, _, hlpos, htid⟩ :=
    (isPrimaryReplica_iff hrep (c.stores node hnode)).mp h
  obtain ⟨htier', ⟨_, hpos', hip'⟩, _, hlpos', htid'⟩ :=
    (isPrimaryReplica_iff hrep (c.stores node' hnode')).mp h'
  -- both are of the highest tier, and there the first nodes of the two rings decide
  rw [htier.unique htier', hpos', Option.some.injEq] at hpos
  rw [htier.unique htier', hlpos', Option.some.injEq] at hlpos
  subst hpos hlpos
  exact ⟨c.distinct node hnode node' hnode' (hip.trans hip'.symm), htid.trans htid'.symm⟩

end Cluster

theorem HashRing.exists_find {R : Type} [Ord R] [Std.TransOrd R] [Std.LawfulEqOrd R]
    {H : Hasher R} {ring : HashRing H} (hsome : ring.nodes.nodes ≠ ∅) (key : Key) :
    ∃ pos walk, ring.find key = some pos ∧ ring.turn key = pos :: walk := by
  cases hturn : ring.turn key with
  | nil => exact absurd ((turn_eq_nil_iff key).mp hturn) hsome
  | cons pos walk =>
    refine ⟨pos, walk, ?_, rfl⟩
    rw [HashRing.find, SlotMap.find_eq_head?_turn, ← HashRing.turn, hturn, head?_cons]

theorem isIn_append {l r : List ServerThread} :
    st.isIn (l ++ r) = true ↔ st.isIn l = true ∨ st.isIn r = true := by
  simp [ServerThread.isIn_iff, map_append, mem_append]

theorem isIn_responsibleThreads {tiers : List Tier} {threads : List ServerThread}
    (h : responsibleThreads rings key rep tiers = .ok threads) (htier : tier ∈ tiers)
    (hcovers : TierCovers key (rep.globalAt tier) (rep.localAt tier)
      (rings.globalHashRings tier) (rings.localHashRings tier) st) :
    st.isIn threads = true := by
  induction tiers generalizing threads with
  | nil => cases htier
  | cons _ _ ih =>
    obtain ⟨_, hfirst, h⟩ := bind_eq_ok.mp h
    obtain ⟨_, hrest, h⟩ := bind_eq_ok.mp h
    cases pure_eq_ok.mp h
    rcases mem_cons.mp htier with rfl | htier
    · exact isIn_append.mpr (Or.inl ((isIn_tierThreads hfirst).mpr hcovers))
    · exact isIn_append.mpr (Or.inr (ih hrest htier))

/-- **The primary replica is unique.**  In a cluster that shares rings and factors, at most
one thread finds that it has the primary replica of a key.  When the highest tier with
a positive global factor has a server, one thread does; and when the tier's local factor
is positive too, that thread is among the threads responsible for the key. -/
theorem primary_replica_unique (c : Cluster cfg) (responseAddress : Address) (seed : UInt32)
    (hrep : keyReplicationMap[key]? = some rep) (hfits : c.rings.Fits rep kAllTiers) :
    (∀ node tid node' tid', c.HasThread node tid → c.HasThread node' tid' →
      c.IsPrimary key keyReplicationMap node tid →
      c.IsPrimary key keyReplicationMap node' tid' → node = node' ∧ tid = tid') ∧
    ∀ tier, HighestTier rep tier → (c.rings.globalHashRings tier).nodes.nodes ≠ ∅ →
      ∃ node tid, c.HasThread node tid ∧ c.IsPrimary key keyReplicationMap node tid ∧
        (1 ≤ rep.globalAt tier → 1 ≤ rep.localAt tier →
          ∃ lookup, getResponsibleThreads responseAddress key false c.rings keyReplicationMap
              kAllTiers seed = .ok lookup ∧
            (ServerThread.mk node.publicIp node.privateIp tid 0).isIn lookup.threads = true) := by
  refine ⟨fun node tid node' tid' hnode hnode' h h' =>
    Cluster.IsPrimary.unique hrep hnode.1 hnode'.1 h h', fun tier htier hsome => ?_⟩
  obtain ⟨pos, walk, hfind, hturn⟩ := HashRing.exists_find hsome key
  obtain ⟨lpos, lwalk, hlfind, hlturn⟩ := HashRing.exists_find (c.nonempty tier htier.stores) key
  obtain ⟨node, hnode, htiernode, hip⟩ :=
    c.servers tier htier.stores pos key (hturn ▸ mem_cons_self)
  have htid := c.threads tier htier.stores lpos key (hlturn ▸ mem_cons_self)
  subst htiernode
  refine ⟨node, lpos.tid, ⟨hnode, htid⟩, ?_, fun hglobal hlocal => ?_⟩
  · exact (isPrimaryReplica_iff hrep htier.stores).mpr ⟨htier, ⟨pos, hfind, hip⟩, lpos, hlfind, rfl⟩
  · obtain ⟨threads, hthreads⟩ := (responsibleThreads_returns_iff key).mpr hfits
    refine ⟨⟨threads, true, seed, []⟩, ?_, isIn_responsibleThreads hthreads htier.stores ?_⟩
    · simp only [getResponsibleThreads, hrep, Bool.false_eq_true, if_false]
      rw [hthreads]
      rfl
    · refine ⟨⟨pos, ?_, hip.symm⟩, lpos, ?_, rfl⟩
      · rw [serversFrom, hturn]
        exact mem_take_firstVisits pos walk hglobal
      · rw [threadsFrom, hlturn]
        exact mem_take_firstVisits lpos lwalk hlocal

end

section
variable {D : Type} [Priority D] (codecs : ValueCodecs D) (repCodec : Codec ReplicationFactor)

theorem pairState_turn_global {tier : Tier} (htier : tier ∈ kAllTiers) (key : Key) :
    ((pairState codecs repCodec).globalHashRings tier).turn key =
      [if tier = .memory then ⟨"B", "b", 0, 0⟩ else ⟨"D", "d", 0, 0⟩] := by
  have hb : "b".toList = ['b'] := by decide
  have hd : "d".toList = ['d'] := by decide
  have hcases : tier = .memory ∨ tier = .disk := by simpa [kAllTiers] using htier
  rcases hcases with rfl | rfl
  · rw [(pairState_view codecs repCodec).memoryRing]
    exact HashRing.turn_insert_default 0 (oneSlot_global ⟨"B", "b", 0, 0⟩ hb) key
  · rw [(pairState_view codecs repCodec).diskRing]
    exact HashRing.turn_insert_default 0 (oneSlot_global ⟨"D", "d", 0, 0⟩ hd) key

theorem pairState_turn_local (tier : Tier) (key : Key) :
    ((pairState codecs repCodec).localHashRings tier).turn key = [⟨"B", "b", 0, 0⟩] := by
  exact HashRing.turn_insert_default 0 (oneSlot_local "B" "b") key

/-- The memory node `b` and the disk node `d`. -/
def pairCluster : Cluster (pairServer codecs repCodec).toConfig where
  rings := (pairState codecs repCodec).toRingMaps
  nodes := [⟨.memory, "B", "b"⟩, ⟨.disk, "D", "d"⟩]
  threadNumber _ := 1
  stores := by simp [kAllTiers]
  distinct := by simp
  servers := by
    intro tier htier pos key hpos
    rw [pairState_turn_global codecs repCodec htier, mem_singleton] at hpos
    subst hpos
    have hcases : tier = .memory ∨ tier = .disk := by simpa [kAllTiers] using htier
    rcases hcases with rfl | rfl <;> simp
  threads := by
    intro tier _ pos key hpos
    rw [pairState_turn_local codecs repCodec, mem_singleton] at hpos
    subst hpos
    exact Nat.one_pos
  nonempty := by
    intro tier _ hempty
    have hturn := (turn_eq_nil_iff "k").mpr hempty
    rw [pairState_turn_local codecs repCodec] at hturn
    cases hturn

end

/-- With one replica of `"k"` in each tier, a thread of the memory node has the primary
replica. -/
theorem primary_replica_unique_pair :
    ∃ (cfg : Config) (c : Cluster cfg) (factors : ExtTreeMap Key KeyReplication)
      (node : ClusterNode) (tid : Nat), c.HasThread node tid ∧ c.IsPrimary "k" factors node tid ∧
      ∀ node' tid', c.HasThread node' tid' → c.IsPrimary "k" factors node' tid' →
        node = node' ∧ tid = tid' := by
  obtain ⟨codecs, repCodec⟩ := exists_codecs
  have hrep := (pairState_view codecs repCodec).factors
  have hfits : (pairCluster codecs repCodec).rings.Fits factorsOfK kAllTiers :=
    fun tier _ => ⟨GlobalFits.one _, fun _ _ => LocalFits.one _⟩
  obtain ⟨hunique, hexists⟩ := primary_replica_unique (pairCluster codecs repCodec) "" 0 hrep hfits
  have hhighest : HighestTier factorsOfK .memory :=
    ⟨mem_cons_self, Nat.one_pos, by simp [kAllTiers, Tier.number]⟩
  have hsome : ((pairCluster codecs repCodec).rings.globalHashRings .memory).nodes.nodes ≠ ∅ := by
    intro hempty
    have hturn := (turn_eq_nil_iff "k").mpr hempty
    have hone := @pairState_turn_global _ _ codecs repCodec .memory mem_cons_self "k"
    exact cons_ne_nil _ _ (hone.symm.trans hturn)
  obtain ⟨node, tid, hthread, hprimary, -⟩ := hexists .memory hhighest hsome
  exact ⟨_, pairCluster codecs repCodec, _, node, tid, hthread, hprimary,
    fun node' tid' hthread' hprimary' => hunique _ _ _ _ hthread hthread' hprimary hprimary'⟩

end Testbed.Anna
