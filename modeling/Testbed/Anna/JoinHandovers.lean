import Testbed.Anna.ConsistentHashing
import Testbed.Anna.Propagation

/-! # Keys handed to a joining node

`node_join_handler` of every old thread looks at its own keys only: those that it is no
longer responsible for are queued for the threads that are.  That is enough
(`joining_node_is_handed_keys`).  The new node takes a place among the servers of a key
only by pushing an old one out, and every thread of that old one which kept the key
queues it for all the threads of the new walk, the new node's among them.
-/
namespace Testbed.Anna

open Std Lib
open ServerThread
open HashRing List

/-! ## One thread -/

namespace ServerState
variable {srv : Server} {s s' : ServerState srv} {node : NodeMessage} {key : Key}
  {threads : List ServerThread} {serialized : String}

theorem nodeJoinHandler_keys {joinCount : Int}
    (hparse : parseJoin serialized = .ok (node, joinCount)) (htier : node.tier = srv.selfTier)
    (hnew : (ServerThread.mk node.publicIp node.privateIp 0 0).id ∉
      (s.globalHashRings node.tier).members) :
    ∃ t, (s.withNode node joinCount).Queues t ∧
      s.nodeJoinHandler serialized = s.storedKeyMap.keys.foldlM (joinKey node joinCount) t := by
  have hinsert := @insert_of_notMem 0 _ _ _ _ _ _ (s.globalHashRings node.tier)
    node.publicIp node.privateIp joinCount hnew
  rw [nodeJoinHandler, hparse, withNode, hinsert]
  simp only [bind, Except.bind, hinsert, if_true, if_pos htier]
  split
  · exact ⟨_, ⟨_, _, _, _, rfl⟩, rfl⟩
  · exact ⟨_, ⟨_, _, _, _, rfl⟩, rfl⟩

theorem joinKey_has {joinCount : Int} (h : joinKey node joinCount s key = .ok s')
    {address : Address} {k : Key} (hhas : s.joinGossipMap.Has address k) :
    s'.joinGossipMap.Has address k := by
  obtain ⟨_, -, h⟩ := bind_eq_ok.mp h
  split at h
  · split at h
    · cases h
      exact AddressKeysetMap.has_insertKeyFor.mpr (.inr hhas)
    · split at h
      · cases h
        exact AddressKeysetMap.has_insertKeyFor.mpr (.inr hhas)
      · cases h
        exact hhas
  · cases h
    exact hhas

/-- **What a thread queues.**  When the threads of a stored key, with the new node, are
without this one, the key is queued for all of them. -/
theorem nodeJoinHandler_queues_key {rep : KeyReplication}
    (h : s.nodeJoinHandler serialized = .ok s') (hparse : parseJoin serialized = .ok (node, 0))
    (htier : node.tier = srv.selfTier)
    (hnew : (ServerThread.mk node.publicIp node.privateIp 0 0).id ∉
      (s.globalHashRings node.tier).members) (hkey : isMetadata key = .ok false)
    (hrep : s.keyReplicationMap[key]? = some rep) (hstored : key ∈ s.storedKeyMap)
    (hthreads : tierThreads key (rep.globalAt srv.selfTier) (rep.localAt srv.selfTier)
      ((s.globalHashRings node.tier).insert node.publicIp node.privateIp 0 0).1
      (s.localHashRings srv.selfTier) = .ok threads) (hout : srv.wt.isIn threads = false)
    {thread : ServerThread} (hthread : thread ∈ threads) :
    s'.joinGossipMap.Has thread.gossipConnectAddress key := by
  obtain ⟨t, hqueues, hloop⟩ := nodeJoinHandler_keys hparse htier hnew
  rw [hloop] at h
  obtain ⟨_, _, hkeys⟩ := append_of_mem (ExtTreeMap.mem_keys.mpr hstored)
  rw [hkeys] at h
  obtain ⟨t₁, hbefore, h⟩ := foldlM_append_eq_ok.mp h
  obtain ⟨t₂, hstep, hafter⟩ := foldlM_cons_eq_ok.mp h
  -- the rings and the factors are still those of the start of the loop
  have hqueues₁ := foldlM_invariant (fun u => ServerState.Queues _ u)
      (fun _ _ u u' hu hstep => hu.trans (joinKey_queues hstep)) hqueues hbefore
  have hlookup : t₁.getResponsibleThreads key [srv.selfTier] =
      .ok ⟨threads, true, t₁.seed, []⟩ := by
    have hfacts : t₁.keyReplicationMap = s.keyReplicationMap ∧
        t₁.toRingMaps = (s.withNode node 0).toRingMaps := by
      obtain ⟨_, _, _, _, rfl⟩ := hqueues₁
      exact ⟨rfl, rfl⟩
    refine (getResponsibleThreads_eq_ok hkey (hfacts.1 ▸ hrep)).mpr ⟨threads, ?_, rfl⟩
    rw [responsibleThreads_one, hfacts.2, ← hthreads]
    simp [withNode, setGlobalRing, htier, Function.update_self]
  have hhas : t₂.joinGossipMap.Has thread.gossipConnectAddress key := by
    rw [joinKey_taken node hlookup rfl hout] at hstep
    cases hstep
    exact AddressKeysetMap.has_insertKeyFor.mpr (.inl ⟨thread, hthread, rfl, rfl⟩)
  exact foldlM_invariant (fun u : ServerState srv => u.joinGossipMap.Has _ key)
    (fun _ _ u u' hu hstep => joinKey_has hstep hu) hhas hafter

end ServerState

/-! ## The tier -/

section Tier
variable {cfg : Config} {ring : GlobalHashRing cfg} {localRing : LocalHashRing cfg} {key : Key}
  {rep : KeyReplication} {node : NodeMessage}

/-- The global ring has the first threads of nodes, as the handlers insert them. -/
def FirstThreads (ring : GlobalHashRing cfg) : Prop :=
  ∀ key, ∀ n ∈ ring.turn key, n.tid = 0

theorem mem_turn_of_mem_serversFrom {n : ServerThread} (h : n ∈ serversFrom key ring) :
    n ∈ ring.turn key :=
  SlotMap.mem_turn.mpr (getElem?_of_mem_serversFrom h)

/-- **A new server pushes an old one out.**  If the new node is among the servers of a
key, one of the old servers is not any more. -/
theorem exists_pushed_out {r : Nat} (hr : r ≤ ring.servers.card)
    (hnew : (ServerThread.mk node.publicIp node.privateIp 0 0).id ∉ ring.members)
    {server : ServerThread}
    (hserver : server ∈ (serversFrom key (ring.insert node.publicIp node.privateIp 0 0).1).take r)
    (hid : server.id = (ServerThread.mk node.publicIp node.privateIp 0 0).id) :
    ∃ old ∈ (serversFrom key ring).take r, ∀ n ∈
      (serversFrom key (ring.insert node.publicIp node.privateIp 0 0).1).take r,
      n.id ≠ old.id := by
  have hcard := card_servers_le_insert ring node.publicIp node.privateIp 0 0
  generalize hring : (ring.insert node.publicIp node.privateIp 0 0).1 = ring' at *
  by_contra hall
  have hsubset : ((serversFrom key ring).take r).map ServerThread.id ⊆
      (((serversFrom key ring').take r).map ServerThread.id).erase server.id := by
    intro i hi
    obtain ⟨old, hold, rfl⟩ := mem_map.mp hi
    have hkept : old.id ∈ ((serversFrom key ring').take r).map ServerThread.id := by
      by_contra hgone
      refine hall ⟨old, hold, fun n hn heq => hgone ?_⟩
      rw [← heq]
      exact mem_map_of_mem hn
    refine (mem_erase_of_ne fun heq => hnew ?_).mpr hkept
    rw [← hid, ← heq]
    exact ring.live (getElem?_of_mem_serversFrom (mem_of_mem_take hold))
  -- there is room for one server less than the factor
  have hnodup : (((serversFrom key ring).take r).map ServerThread.id).Nodup :=
    (nodup_serversFrom key ring).sublist ((take_sublist _ _).map _)
  have hlength := (hnodup.subperm hsubset).length_le
  have hmem : server.id ∈ ((serversFrom key ring').take r).map ServerThread.id :=
    mem_map_of_mem hserver
  rw [length_erase_of_mem hmem, length_map, length_map, length_take,
    length_take, length_serversFrom, length_serversFrom, Nat.min_eq_left hr,
    Nat.min_eq_left (hr.trans hcard)] at hlength
  have hpos := length_pos_of_mem hserver
  rw [length_take] at hpos
  omega

/-- The old threads of a tier agree on its rings and on the factors of the key, and all
threads responsible for the key store it. -/
structure Agreed {ι : Type} (w : ι → Worker) (s : ∀ i, ServerState ((w i).server cfg))
    (ring : GlobalHashRing cfg) (localRing : LocalHashRing cfg) (key : Key)
    (rep : KeyReplication) : Prop where
  globalRings : ∀ i, (s i).globalHashRings cfg.selfTier = ring
  localRings : ∀ i, (s i).localHashRings cfg.selfTier = localRing
  factors : ∀ i, (s i).keyReplicationMap[key]? = some rep
  firstThreads : FirstThreads ring
  stored : ∀ threads, tierThreads key (rep.globalAt cfg.selfTier) (rep.localAt cfg.selfTier) ring
    localRing = .ok threads → ∀ thread ∈ threads,
      ∃ i, (w i).wt.id = thread.id ∧ key ∈ (s i).storedKeyMap

/-- **A joining node is handed its keys.**  Old threads that agree hear that a node of
their tier joins for the first time.  Every thread of the node that is now responsible
for a key, whose global factor is at most the number of old servers and which its old
threads store, has the key queued for its gossip address by one of them. -/
theorem joining_node_is_handed_keys {ι : Type} {w : ι → Worker}
    {s s' : ∀ i, ServerState ((w i).server cfg)} (hagreed : Agreed w s ring localRing key rep)
    (hkey : isMetadata key = .ok false)
    (hfactor : rep.globalAt cfg.selfTier ≤ ring.servers.card)
    {serialized : String} (hparse : parseJoin serialized = .ok (node, 0))
    (htier : node.tier = cfg.selfTier)
    (hnew : (ServerThread.mk node.publicIp node.privateIp 0 0).id ∉ ring.members)
    (hruns : ∀ i, (s i).nodeJoinHandler serialized = .ok (s' i))
    {threads : List ServerThread}
    (hthreads : tierThreads key (rep.globalAt cfg.selfTier) (rep.localAt cfg.selfTier)
      (ring.insert node.publicIp node.privateIp 0 0).1 localRing = .ok threads) :
    ∀ thread ∈ threads, thread.privateIp = node.privateIp →
      ∃ i, (s' i).joinGossipMap.Has thread.gossipConnectAddress key := by
  intro thread hthread hip
  obtain ⟨⟨server, hserver, hserverIp⟩, n, hn, htid⟩ := (isIn_tierThreads hthreads).mp
    (isIn_iff.mpr (mem_map_of_mem hthread))
  -- the new node is among the servers, with its first thread
  have hfirst : ∀ m ∈ serversFrom key (ring.insert node.publicIp node.privateIp 0 0).1,
      m.tid = 0 := by
    intro m hm
    by_cases hnode : m.id = (ServerThread.mk node.publicIp node.privateIp 0 0).id
    · exact (id_inj.mp hnode).2
    · have hmem : m ∈ serversFrom key ring := by
        rw [serversFrom_insert_of_notMem hnew 0]
        exact mem_filter.mpr ⟨hm, by simpa using hnode⟩
      exact hagreed.firstThreads key m (mem_turn_of_mem_serversFrom hmem)
  have hid : server.id = (ServerThread.mk node.publicIp node.privateIp 0 0).id := id_inj.mpr
      ⟨hserverIp.trans hip, hfirst server (mem_of_mem_take hserver)⟩
  obtain ⟨old, hold, hgone⟩ := exists_pushed_out hfactor hnew hserver hid
  -- the thread of the old server with the same number kept the key
  have hfits := tierThreads_eq_ok hthreads
  have holdFits : TierFits ring localRing (rep.globalAt cfg.selfTier)
      (rep.localAt cfg.selfTier) := by
    refine ⟨.inr hfactor, fun _ hpos => hfits.threads (fun hempty => ?_) hpos⟩
    have hnil : serversFrom key (ring.insert node.publicIp node.privateIp 0 0).1 = [] :=
      serversFrom_eq_nil_iff.mpr hempty
    rw [hnil, take_nil] at hserver
    cases hserver
  have holdThread : (ServerThread.mk old.publicIp old.privateIp thread.tid 0).isIn
      (((serversFrom key ring).take (rep.globalAt cfg.selfTier)).flatMap fun server =>
        (metTids ∅ ((threadsFrom key localRing).take (rep.localAt cfg.selfTier))).toList.map
          fun tid => ⟨server.publicIp, server.privateIp, tid, 0⟩) = true := by
    exact (isIn_tierThreads (tierThreads_of_fits holdFits)).mpr ⟨⟨old, hold, rfl⟩, n, hn, htid⟩
  obtain ⟨oldThread, holdThread, heq⟩ := mem_map.mp (isIn_iff.mp holdThread)
  obtain ⟨i, hwt, hstored⟩ := hagreed.stored _ (tierThreads_of_fits holdFits) oldThread holdThread
  obtain ⟨hoIp, -⟩ := id_inj.mp (hwt.trans heq)
  have hout : (w i).wt.isIn threads = false := by
    refine Bool.eq_false_iff.mpr fun hin => ?_
    obtain ⟨⟨m, hm, hmIp⟩, -⟩ := (isIn_tierThreads hthreads).mp hin
    refine hgone m hm (id_inj.mpr ⟨hmIp.trans hoIp, ?_⟩)
    rw [hfirst m (mem_of_mem_take hm)]
    exact (hagreed.firstThreads key old (mem_turn_of_mem_serversFrom (mem_of_mem_take hold))).symm
  have hring := htier ▸ hagreed.globalRings i
  refine ⟨i, ServerState.nodeJoinHandler_queues_key (hruns i) hparse htier (hring ▸ hnew) hkey
    (hagreed.factors i) hstored ?_ hout hthread⟩
  rw [hring]
  exact (congrArg _ (hagreed.localRings i)).trans hthreads

end Tier

/-- The thread as one of its tier. -/
def Server.worker (srv : Server) : Worker :=
  ⟨srv.wt, srv.selfJoinCount, srv.Store, srv.serializers⟩

/-- The node `a` joins `b` and is handed the key `"k"`. -/
theorem a_is_handed_k :
    ∃ (cfg : Config) (w : Unit → Worker) (s s' : ∀ i, ServerState ((w i).server cfg)),
      (∀ i, "k" ∈ (s i).storedKeyMap) ∧
      (∀ i, (s i).nodeJoinHandler "MEMORY:A:a:0" = .ok (s' i)) ∧
      ∃ i, (s' i).joinGossipMap.Has (ServerThread.mk "A" "a" 0 0).gossipConnectAddress "k" := by
  obtain ⟨codecs, repCodec⟩ := exists_codecs
  let srv := pairServer codecs repCodec
  let s : ServerState srv := { pairState codecs repCodec with
    storedKeyMap := (∅ : ExtTreeMap Key KeyProperty).insert "k" ⟨1, .lww⟩ }
  have hview : PairView s (insert default "B" "b" 0 0).1 := by
    obtain ⟨hmemory, hdisk, hlocal, hfactors⟩ := pairState_view codecs repCodec
    exact ⟨hmemory, hdisk, hlocal, hfactors⟩
  obtain ⟨s', -, hjoin, -⟩ := pair_join hview rfl
  have hstored : "k" ∈ s.storedKeyMap := ExtTreeMap.mem_insert_self
  have hlocal := turn_insert_default 0 (oneSlot_local "B" "b") "k"
  have hthreads := tierThreads_one (@joinedRing_turn srv.toConfig rfl) hlocal
  have hold := tierThreads_one (@bRing_turn srv.toConfig rfl) hlocal
  have hb : "b".toList = ['b'] := by decide
  have hagreed : Agreed (fun _ : Unit => srv.worker) (fun _ => s)
      ((insert default "B" "b" 0 0).1 : GlobalHashRing srv.toConfig)
      (insert default "B" "b" 0 0).1 "k" factorsOfK := by
    refine ⟨fun _ => hview.memoryRing, fun _ => hview.localRings _, fun _ => hview.factors, ?_, ?_⟩
    · intro key n hn
      have hturn := turn_insert_default 0 (oneSlot_global ⟨"B", "b", 0, 0⟩ hb) key
      exact congrArg tid (mem_singleton.mp (hturn ▸ hn))
    · intro _ hthreads _ hthread
      cases hold.symm.trans hthreads
      rw [mem_singleton.mp hthread]
      exact ⟨(), rfl, hstored⟩
  have hnew : (ServerThread.mk "A" "a" 0 0).id ∉
      ((insert default "B" "b" 0 0).1 : GlobalHashRing srv.toConfig).members := by
    rw [members_insert, members_default]
    decide
  have hcard : factorsOfK.globalAt .memory ≤
      ((insert default "B" "b" 0 0).1 : GlobalHashRing srv.toConfig).servers.card := by
    rw [← length_serversFrom "k", serversFrom, bRing_turn rfl]
    decide
  have hruns : ∀ i : Unit, ServerState.nodeJoinHandler ((fun _ => s) i) "MEMORY:A:a:0" =
      .ok ((fun _ => s') i) := fun _ => hjoin
  have hhanded := joining_node_is_handed_keys hagreed (by decide) hcard
    (by decide : parseJoin "MEMORY:A:a:0" = .ok (⟨.memory, "A", "a"⟩, 0)) rfl hnew hruns hthreads
    ⟨"A", "a", 0, 0⟩ mem_cons_self rfl
  exact ⟨srv.toConfig, fun _ => srv.worker, fun _ => s, fun _ => s', fun _ => hstored,
    fun _ => hjoin, hhanded⟩

end Testbed.Anna
