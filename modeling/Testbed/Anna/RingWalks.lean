import Testbed.Anna.MetadataThreads
import Testbed.Lib.DistinctWalk

/-! # What the walks around the rings find

`responsible_global` and `responsible_local` stop at the first servers, or threads,
that they meet (`responsibleGlobal_of_fits`, `responsibleLocal_of_fits`): the walk of a whole
turn meets every one of them once, and a larger factor goes further along the same
walk.  A lookup therefore ends just if the factors fit the rings
(`responsibleThreads_returns_iff`), and never fails in another way.
-/
namespace Testbed.Anna

open Std (ExtTreeMap ExtTreeSet)
open Lib
open ServerThread List Std.ExtTreeSet

variable {threads : List ServerThread}

theorem ServerThread.isIn_iff {th : ServerThread} :
    th.isIn threads = true ↔ th.id ∈ threads.map id := by
  simp [isIn, equals]

theorem ServerThread.isIn_congr {l r : ServerThread} (h : l.id = r.id)
    (threads : List ServerThread) : l.isIn threads = r.isIn threads := by
  simp only [isIn, equals, h]

/-! ## The walk over servers -/

/-- The ids of the servers in a ring. -/
def HashRing.servers {R : Type} [Ord R] [Std.TransOrd R] [Std.LawfulEqOrd R] {H : Hasher R}
    (ring : HashRing H) : Finset String :=
  (ring.nodes.nodes.toList.map fun slot => slot.2.id).toFinset

theorem HashRing.turn_addServer {R : Type} [Ord R] [Std.TransOrd R] [Std.LawfulEqOrd R]
    [DecidableEq R] {H : Hasher R} {ring : HashRing H} {server : ServerThread} (joinCount : Int)
    (hnew : server.id ∉ ring.members) (key : Key) :
    ring.turn key =
      ((ring.addServer server joinCount).turn key).filter fun n => n.id ≠ server.id := by
  refine SlotMap.turn_restrict (fun x => ?_) (H.key key)
  rw [addServer, SlotMap.getElem?_foldl_insert]
  cases hx : ring.nodes.nodes[x]? with
  | some n =>
    have hne : n.id ≠ server.id := fun heq => hnew (heq ▸ ring.live hx)
    rw [Option.some_or, Option.filter_some_pos (by simpa using hne)]
  | none =>
    rw [Option.none_or]
    cases hfind : (virtualNodes server.publicIp server.privateIp server.tid).find?
        fun n => H.thread n = x with
    | none => rfl
    | some n =>
      obtain ⟨-, hip, htid, -⟩ := mem_virtualNodes.mp (mem_of_find?_eq_some hfind)
      have hid := id_inj.mpr ⟨hip, htid⟩
      rw [Option.filter_some_neg (by simpa using hid)]

variable {globalRep : Nat}

theorem globalLoop_eq (walk : List ServerThread) : globalLoop globalRep [] walk =
      if globalRep ≤ (firstVisits ServerThread.id [] walk).length then
        .ok ((firstVisits ServerThread.id [] walk).take globalRep)
      else .error .nonTermination := by
  refine loop_eq (globalLoop globalRep) (fun met => met) (fun _ _ => rfl)
    (fun met pos walk _ => ?_) nodup_nil (Nat.zero_le _)
  rw [globalLoop]
  simp only [visit, ServerThread.isIn_iff]

section
variable {cfg : Config}

/-- The servers in the order of the walk. -/
def serversFrom (key : Key) (ring : GlobalHashRing cfg) : List ServerThread :=
  firstVisits ServerThread.id [] (ring.turn key)

theorem length_serversFrom (key : Key) (ring : GlobalHashRing cfg) :
    (serversFrom key ring).length = ring.servers.card := by
  rw [serversFrom, length_firstVisits, HashRing.toFinset_turn, HashRing.servers]

variable {ring : GlobalHashRing cfg} {key : Key}

theorem serversFrom_eq_nil_iff : serversFrom key ring = [] ↔ ring.nodes.nodes = ∅ := by
  rw [← turn_eq_nil_iff key, serversFrom, firstVisits_eq_nil_iff]

variable {privateIp : Address} {publicIp : Address} {tid : Nat}

theorem serversFrom_insert_of_mem {joinCount : Int}
    (hmem : (ServerThread.mk publicIp privateIp tid 0).id ∈ ring.members) :
    serversFrom key (ring.insert publicIp privateIp joinCount tid).1 = serversFrom key ring := by
  rw [serversFrom, serversFrom, HashRing.turn, HashRing.turn, (HashRing.insert_of_mem hmem).2]

theorem serversFrom_insert_of_notMem
    (hnew : (ServerThread.mk publicIp privateIp tid 0).id ∉ ring.members) (joinCount : Int) :
    serversFrom key ring = (serversFrom key (ring.insert publicIp privateIp joinCount tid).1).filter
        fun n => n.id ≠ (ServerThread.mk publicIp privateIp tid 0).id := by
  rw [HashRing.insert_of_notMem hnew, serversFrom, serversFrom,
    HashRing.turn_addServer joinCount hnew]
  exact (filter_firstVisits (fun i => i ≠ (ServerThread.mk publicIp privateIp tid 0).id) [] _).symm

/-- The ring has no server, or at least as many as the factor says. -/
def GlobalFits (ring : GlobalHashRing cfg) (globalRep : Nat) : Prop :=
  ring.nodes.nodes = ∅ ∨ globalRep ≤ ring.servers.card

theorem card_servers_le_insert (ring : GlobalHashRing cfg) (publicIp privateIp : Address)
    (joinCount : Int) (tid : Nat) :
    ring.servers.card ≤ (ring.insert publicIp privateIp joinCount tid).1.servers.card := by
  rw [← length_serversFrom "", ← length_serversFrom ""]
  by_cases hmem : (ServerThread.mk publicIp privateIp tid 0).id ∈ ring.members
  · rw [serversFrom_insert_of_mem hmem]
  · rw [serversFrom_insert_of_notMem hmem joinCount]
    exact length_filter_le _ _

/-- **The servers of a key** are the first ones of the walk. -/
theorem responsibleGlobal_of_fits (h : GlobalFits ring globalRep) (key : Key) :
    responsibleGlobal key globalRep ring = .ok ((serversFrom key ring).take globalRep) := by
  rw [GlobalFits, ← turn_eq_nil_iff key, ← length_serversFrom key, serversFrom] at h
  rw [responsibleGlobal, serversFrom]
  cases hturn : ring.turn key with
  | nil => exact congrArg Except.ok take_nil.symm
  | cons pos walk =>
    rw [hturn, or_iff_right (cons_ne_nil pos walk)] at h
    exact (globalLoop_eq (pos :: walk)).trans (if_pos h)

theorem responsibleGlobal_of_not_fits (h : ¬ GlobalFits ring globalRep) (key : Key) :
    responsibleGlobal key globalRep ring = .error .nonTermination := by
  rw [GlobalFits, ← turn_eq_nil_iff key, ← length_serversFrom key, serversFrom] at h
  rw [responsibleGlobal]
  cases hturn : ring.turn key with
  | nil => exact absurd (.inl hturn) h
  | cons pos walk =>
    rw [hturn, or_iff_right (cons_ne_nil pos walk)] at h
    exact (globalLoop_eq (pos :: walk)).trans (if_neg h)

/-! ## The walk over threads -/

theorem metTids_visit {met : List ServerThread} (pos : ServerThread) :
    (metTids ∅ met).insert pos.tid = metTids ∅ (visit ServerThread.tid met pos) := by
  refine ext_mem fun tid => ?_
  have hvisit : (∃ n ∈ visit ServerThread.tid met pos, n.tid = tid) ↔
      (∃ n ∈ met, n.tid = tid) ∨ tid = pos.tid := by
    rw [← mem_map, mem_map_visit, mem_map]
  rw [mem_insert, Std.compare_eq_iff_eq, mem_metTids, mem_metTids, hvisit,
    or_iff_right not_mem_empty, or_iff_right not_mem_empty, or_comm,
    eq_comm]

theorem size_metTids {met : List ServerThread} (h : (met.map ServerThread.tid).Nodup) :
    (metTids ∅ met).size = met.length := by
  have hcard : (metTids ∅ met).size = (met.map tid).toFinset.card := by
    refine size_eq_card fun tid => ?_
    rw [mem_toFinset, mem_metTids, or_iff_right not_mem_empty, mem_map]
  rw [hcard, toFinset_card_of_nodup h, length_map]

variable {localRep : Nat}

theorem localLoop_eq (walk : List ServerThread) : localLoop localRep (metTids ∅ []) walk =
      if localRep ≤ (firstVisits ServerThread.tid [] walk).length then
        .ok (metTids ∅ ((firstVisits ServerThread.tid [] walk).take localRep))
      else .error .nonTermination := by
  refine loop_eq (fun met => localLoop localRep (metTids ∅ met)) (metTids ∅) (fun met h => ?_)
    (fun met pos walk h => ?_) nodup_nil (Nat.zero_le _)
  · rw [localLoop, size_metTids h]
  · rw [localLoop, size_metTids h, metTids_visit]

/-- The threads in the order of the walk. -/
def threadsFrom (key : Key) (ring : LocalHashRing cfg) : List ServerThread :=
  firstVisits ServerThread.tid [] (ring.turn key)

theorem length_threadsFrom (key : Key) (ring : LocalHashRing cfg) :
    (threadsFrom key ring).length = ring.tids.card := by
  rw [threadsFrom, length_firstVisits, HashRing.toFinset_turn, HashRing.tids]

theorem threadsFrom_eq_nil_iff {ring : LocalHashRing cfg} :
    threadsFrom key ring = [] ↔ ring.nodes.nodes = ∅ := by
  rw [← turn_eq_nil_iff key, threadsFrom, firstVisits_eq_nil_iff]

/-- The ring has no thread, or at least as many as the factor says. -/
def LocalFits (ring : LocalHashRing cfg) (localRep : Nat) : Prop :=
  ring.nodes.nodes = ∅ ∨ localRep ≤ ring.tids.card

/-- **The threads of a key** are the first ones of the walk. -/
theorem responsibleLocal_of_fits (ring : LocalHashRing cfg) (localRep : Nat) (key : Key) :
    (LocalFits ring localRep → responsibleLocal key localRep ring =
        .ok (metTids ∅ ((threadsFrom key ring).take localRep))) ∧
      (¬ LocalFits ring localRep →
        responsibleLocal key localRep ring = .error .nonTermination) := by
  rw [LocalFits, ← turn_eq_nil_iff key, ← length_threadsFrom key, responsibleLocal, threadsFrom]
  cases hturn : ring.turn key with
  | nil =>
    refine ⟨fun _ => ?_, fun h => absurd (.inl rfl) h⟩
    exact congrArg Except.ok (congrArg (metTids ∅) take_nil.symm)
  | cons pos walk =>
    rw [or_iff_right (cons_ne_nil pos walk)]
    have hloop := @localLoop_eq localRep (pos :: walk)
    exact ⟨fun h => hloop.trans (if_pos h), fun h => hloop.trans (if_neg h)⟩

/-! ## The threads of a tier -/

/-- The factors of a key in a tier fit the rings of the tier.  Threads are looked for
only when there is a server to look on. -/
structure TierFits (globalRing : GlobalHashRing cfg) (localRing : LocalHashRing cfg)
    (globalRep localRep : Nat) : Prop where
  servers : GlobalFits globalRing globalRep
  threads : globalRing.nodes.nodes ≠ ∅ → 0 < globalRep → LocalFits localRing localRep

variable {key : Key} {globalRep localRep : Nat} {globalRing : GlobalHashRing cfg}
  {localRing : LocalHashRing cfg}

theorem take_serversFrom_eq_nil_iff : (serversFrom key globalRing).take globalRep = [] ↔
      ¬ (globalRing.nodes.nodes ≠ ∅ ∧ 0 < globalRep) := by
  rw [take_eq_nil_iff, serversFrom_eq_nil_iff, not_and_or, not_not, not_lt, Nat.le_zero, or_comm]

theorem tierThreads_of_eq {servers : List ServerThread} {tids : ExtTreeSet Nat}
    (hservers : responsibleGlobal key globalRep globalRing = .ok servers)
    (htids : servers ≠ [] → responsibleLocal key localRep localRing = .ok tids) :
    tierThreads key globalRep localRep globalRing localRing = .ok (servers.flatMap fun server =>
        tids.toList.map fun tid => ⟨server.publicIp, server.privateIp, tid, 0⟩) := by
  rw [tierThreads, hservers]
  cases servers with
  | nil => rfl
  | cons server servers =>
    simp only [bind, Except.bind, htids (cons_ne_nil server servers)]
    rfl

theorem tierThreads_of_fits (h : TierFits globalRing localRing globalRep localRep) :
    tierThreads key globalRep localRep globalRing localRing =
      .ok (((serversFrom key globalRing).take globalRep).flatMap fun server =>
        (metTids ∅ ((threadsFrom key localRing).take localRep)).toList.map fun tid =>
          ⟨server.publicIp, server.privateIp, tid, 0⟩) := by
  refine tierThreads_of_eq (responsibleGlobal_of_fits h.servers key) fun hsome => ?_
  obtain ⟨hring, hpos⟩ := not_not.mp (mt take_serversFrom_eq_nil_iff.mpr hsome)
  exact (responsibleLocal_of_fits _ _ key).1 (h.threads hring hpos)

theorem tierThreads_eq_nil_iff (h : TierFits globalRing localRing globalRep localRep) :
    tierThreads key globalRep localRep globalRing localRing = .ok [] ↔
      globalRep = 0 ∨ localRep = 0 ∨ globalRing.nodes.nodes = ∅ ∨ localRing.nodes.nodes = ∅ := by
  have htids : (metTids ∅ ((threadsFrom key localRing).take localRep)).toList = [] ↔
      localRep = 0 ∨ localRing.nodes.nodes = ∅ := by
    rw [← @threadsFrom_eq_nil_iff _ key, ← take_eq_nil_iff, eq_nil_iff_forall_not_mem,
      eq_nil_iff_forall_not_mem]
    simp only [mem_toList, mem_metTids, not_mem_empty, false_or]
    exact ⟨fun hnone n hn => hnone n.tid ⟨n, hn, rfl⟩, fun hnone _ ⟨n, hn, _⟩ => hnone n hn⟩
  have hservers : (serversFrom key globalRing).take globalRep = [] ↔
      globalRep = 0 ∨ globalRing.nodes.nodes = ∅ := by
    rw [take_eq_nil_iff, serversFrom_eq_nil_iff]
  rw [tierThreads_of_fits h, Except.ok.injEq, flatMap_eq_nil_iff]
  simp only [map_eq_nil_iff, htids]
  constructor
  · intro hnone
    cases htake : (serversFrom key globalRing).take globalRep with
    | nil => exact (hservers.mp htake).imp_right fun hempty => .inr (.inl hempty)
    | cons server =>
      rw [htake] at hnone
      exact .inr ((hnone server mem_cons_self).imp_right Or.inr)
  · rintro (hzero | hzero | hempty | hempty) _ hserver
    · rw [hservers.mpr (.inl hzero)] at hserver
      cases hserver
    · exact .inl hzero
    · rw [hservers.mpr (.inr hempty)] at hserver
      cases hserver
    · exact .inr hempty

theorem tierThreads_of_not_fits (h : ¬ TierFits globalRing localRing globalRep localRep) :
    tierThreads key globalRep localRep globalRing localRing = .error .nonTermination := by
  rw [tierThreads]
  by_cases hglobal : GlobalFits globalRing globalRep
  · have hlocal :
        (globalRing.nodes.nodes ≠ ∅ ∧ 0 < globalRep) ∧ ¬ LocalFits localRing localRep := by
      by_contra hlocal
      refine h ⟨hglobal, fun hring hpos => ?_⟩
      by_contra hfew
      exact hlocal ⟨⟨hring, hpos⟩, hfew⟩
    rw [responsibleGlobal_of_fits hglobal]
    cases hservers : (serversFrom key globalRing).take globalRep with
    | nil => exact absurd hlocal.1 (take_serversFrom_eq_nil_iff.mp hservers)
    | cons =>
      simp only [bind, Except.bind, (responsibleLocal_of_fits _ _ _).2 hlocal.2]
  · rw [responsibleGlobal_of_not_fits hglobal]
    rfl

theorem tierThreads_eq_ok
    (h : tierThreads key globalRep localRep globalRing localRing = .ok threads) :
    TierFits globalRing localRing globalRep localRep := by
  by_contra hfits
  rw [tierThreads_of_not_fits hfits] at h
  cases h

/-- The walks meet the server of the thread and the number of the thread in time. -/
def TierCovers (key : Key) (globalRep localRep : Nat) (globalRing : GlobalHashRing cfg)
    (localRing : LocalHashRing cfg) (thread : ServerThread) : Prop :=
  (∃ server ∈ (serversFrom key globalRing).take globalRep, server.privateIp = thread.privateIp) ∧
  ∃ n ∈ (threadsFrom key localRing).take localRep, n.tid = thread.tid

variable {thread : ServerThread}

theorem isIn_tierThreads
    (h : tierThreads key globalRep localRep globalRing localRing = .ok threads) :
    thread.isIn threads = true ↔
      TierCovers key globalRep localRep globalRing localRing thread := by
  have hthreads := (tierThreads_of_fits (tierThreads_eq_ok h)).symm.trans h
  cases hthreads
  simp only [isIn_iff, mem_map, mem_flatMap, mem_toList, mem_metTids, or_iff_right not_mem_empty]
  constructor
  · rintro ⟨_, ⟨server, hserver, _, ⟨n, hn, rfl⟩, rfl⟩, hid⟩
    obtain ⟨hip, htid⟩ := id_inj.mp hid
    exact ⟨⟨server, hserver, hip⟩, n, hn, htid⟩
  · rintro ⟨⟨server, hserver, hip⟩, n, hn, htid⟩
    exact ⟨_, ⟨server, hserver, n.tid, ⟨n, hn, rfl⟩, rfl⟩, id_inj.mpr ⟨hip, htid⟩⟩

/-- **Another server takes keys away only**: a thread that is found once a server of
another node has been added was found before. -/
theorem TierCovers.of_insert {joinCount : Int}
    (h : TierCovers key globalRep localRep (globalRing.insert publicIp privateIp joinCount tid).1
      localRing thread) (hother : thread.privateIp ≠ privateIp ∨
      (ServerThread.mk publicIp privateIp tid 0).id ∈ globalRing.members) :
    TierCovers key globalRep localRep globalRing localRing thread := by
  obtain ⟨⟨server, hserver, hip⟩, htid⟩ := h
  refine ⟨⟨server, ?_, hip⟩, htid⟩
  by_cases hmem : (ServerThread.mk publicIp privateIp tid 0).id ∈ globalRing.members
  · rwa [serversFrom_insert_of_mem hmem] at hserver
  · have hne : server.id ≠ (ServerThread.mk publicIp privateIp tid 0).id := fun hid =>
      hother.resolve_right hmem (hip.symm.trans (id_inj.mp hid).1)
    rw [serversFrom_insert_of_notMem hmem joinCount]
    exact mem_take_filter hserver (by simpa using hne)

theorem TierFits.insert (h : TierFits globalRing localRing globalRep localRep)
    (hsome : globalRing.nodes.nodes ≠ ∅) (publicIp privateIp : Address) (joinCount : Int)
    (tid : Nat) :
    TierFits (globalRing.insert publicIp privateIp joinCount tid).1 localRing globalRep localRep :=
  ⟨.inr ((h.servers.resolve_left hsome).trans (card_servers_le_insert globalRing _ _ _ _)),
    fun _ => h.threads hsome⟩

theorem TierFits.remove (h : TierFits globalRing localRing globalRep localRep)
    (hfits : GlobalFits (globalRing.remove publicIp privateIp tid) globalRep) :
    TierFits (globalRing.remove publicIp privateIp tid) localRing globalRep localRep :=
  ⟨hfits, fun hsome => h.threads fun hempty => hsome (globalRing.nodes_remove_eq_empty hempty)⟩

/-! ## Lookups with known factors -/

/-- The factors fit the rings of all the tiers. -/
def RingMaps.Fits (rings : RingMaps cfg) (rep : KeyReplication) (tiers : List Tier) : Prop :=
  ∀ tier ∈ tiers, TierFits (rings.globalHashRings tier) (rings.localHashRings tier)
    (rep.globalAt tier) (rep.localAt tier)

variable {rings : RingMaps cfg} {rep : KeyReplication} {tiers : List Tier}

theorem responsibleThreads_of_not_fits (key : Key) (h : ¬ rings.Fits rep tiers) :
    responsibleThreads rings key rep tiers = .error .nonTermination := by
  induction tiers with
  | nil => exact absurd (fun _ ht => nomatch ht) h
  | cons tier tiers ih =>
    rw [responsibleThreads]
    by_cases hfits : TierFits (rings.globalHashRings tier) (rings.localHashRings tier)
        (rep.globalAt tier) (rep.localAt tier)
    · have hrest : ¬ rings.Fits rep tiers := by
        intro hrest
        refine h fun t ht => ?_
        rcases mem_cons.mp ht with rfl | ht
        · exact hfits
        · exact hrest t ht
      rw [tierThreads_of_fits hfits, ih hrest]
      rfl
    · rw [tierThreads_of_not_fits hfits]
      rfl

/-- **A lookup ends** just if the factors fit. -/
theorem responsibleThreads_returns_iff (key : Key) :
    (∃ threads, responsibleThreads rings key rep tiers = .ok threads) ↔ rings.Fits rep tiers := by
  constructor
  · rintro ⟨_, h⟩
    by_contra hfits
    rw [responsibleThreads_of_not_fits key hfits] at h
    cases h
  · intro h
    induction tiers with
    | nil => exact ⟨[], rfl⟩
    | cons tier _ ih =>
      obtain ⟨rest, hrest⟩ := ih fun t ht => h t (mem_cons_of_mem tier ht)
      exact ⟨_, bind_eq_ok.mpr ⟨_, tierThreads_of_fits (h tier mem_cons_self),
        bind_eq_ok.mpr ⟨rest, hrest, rfl⟩⟩⟩

/-! ## Lookups of metadata -/

theorem GlobalFits.one (ring : GlobalHashRing cfg) : GlobalFits ring 1 := by
  by_cases hempty : ring.nodes.nodes = ∅
  · exact .inl hempty
  · right
    rw [← length_serversFrom ""]
    exact length_pos_of_ne_nil (mt serversFrom_eq_nil_iff.mp hempty)

theorem LocalFits.one (ring : LocalHashRing cfg) : LocalFits ring 1 := by
  by_cases hempty : ring.nodes.nodes = ∅
  · exact .inl hempty
  · right
    obtain ⟨pos, hpos⟩ := exists_mem_of_ne_nil _ (mt (turn_eq_nil_iff "").mp hempty)
    exact Finset.card_pos.mpr ⟨pos.tid, (HashRing.mem_tids "").mpr ⟨pos, hpos, rfl⟩⟩

/-- Lookups of metadata keys end: they are for one server of the memory tier. -/
def RingMaps.MetadataEnds (rings : RingMaps cfg) : Prop :=
  (rings.globalHashRings .memory).nodes.nodes = ∅ ∨
    LocalFits (rings.localHashRings .memory) cfg.defaultLocalReplication

theorem RingMaps.MetadataEnds.returns (h : rings.MetadataEnds) (key : Key) :
    ∃ threads, getResponsibleThreadsMetadata rings key = .ok threads :=
  ⟨_, tierThreads_of_fits ⟨GlobalFits.one _, fun hsome _ => h.resolve_left hsome⟩⟩

theorem metadataThreads_of_not_ends (h : ¬ rings.MetadataEnds) (key : Key) :
    getResponsibleThreadsMetadata rings key = .error .nonTermination := by
  refine tierThreads_of_not_fits fun hfits => h ?_
  by_cases hempty : (rings.globalHashRings .memory).nodes.nodes = ∅
  · exact .inl hempty
  · exact .inr (hfits.threads hempty Nat.one_pos)

end

end Testbed.Anna
