import Testbed.Anna.MemorySerializers
import Testbed.Anna.MetadataThreads

/-! # Small clusters

Two systems small enough to follow by hand.  In the first a memory node with one
thread is alone, and responsible for every key that has one replica in the memory
tier (`soloState_lookup`).  In the second a memory node `b` and a disk node `d` keep
one replica each of every key, and a memory node `a` may join and take over those
of `b` (`PairView.lookup_memory`, `PairView.lookup_all`).

All virtual nodes of a server have the same hash there, so that a server holds one
slot.  A ring of two servers whose virtual nodes have slots of their own is `ringOfTwo`.
-/
namespace Testbed.Anna

open Std Lib
open HashRing List

/-! ## Rings with one or two servers -/

section
variable {R : Type} [Ord R] [TransOrd R] [LawfulEqOrd R] [DecidableEq R] {H : Hasher R}

/-- The server has one slot. -/
def OneSlot (H : Hasher R) (server : ServerThread) : Prop :=
  ∀ v, H.thread { server with virtualNum := v } = H.thread server

variable {publicIp privateIp : Address} {tid : Nat}

/-- A server whose virtual nodes share one slot is one node of the ring. -/
theorem HashRing.nodes_insert {ring : HashRing H} (joinCount : Int)
    (hslot : OneSlot H ⟨publicIp, privateIp, tid, 0⟩)
    (hnew : (ServerThread.mk publicIp privateIp tid 0).id ∉ ring.members) :
    (ring.insert publicIp privateIp joinCount tid).1.nodes =
      ring.nodes.insert ⟨publicIp, privateIp, tid, 0⟩ := by
  rw [insert_of_notMem hnew]
  exact nodes_addServer _ _ rfl hslot

theorem HashRing.nodes_insert_default (joinCount : Int)
    (hslot : OneSlot H ⟨publicIp, privateIp, tid, 0⟩) :
    ((default : HashRing H).insert publicIp privateIp joinCount tid).1.nodes =
      (default : SlotMap H.thread).insert ⟨publicIp, privateIp, tid, 0⟩ := by
  refine nodes_insert joinCount hslot ?_
  rw [members_default]
  exact Set.notMem_empty _

theorem HashRing.turn_insert_default (joinCount : Int)
    (hslot : OneSlot H ⟨publicIp, privateIp, tid, 0⟩) (key : Key) :
    ((default : HashRing H).insert publicIp privateIp joinCount tid).1.turn key =
      [⟨publicIp, privateIp, tid, 0⟩] := by
  rw [turn, nodes_insert_default joinCount hslot]
  exact SlotMap.turn_insert_default _ _

theorem HashRing.nodes_remove (ring : HashRing H)
    (hslot : OneSlot H ⟨publicIp, privateIp, tid, 0⟩) :
    (ring.remove publicIp privateIp tid).nodes =
      ring.nodes.erase ⟨publicIp, privateIp, tid, 0⟩ := by
  have hone : ∀ x, (∃ n ∈ virtualNodes publicIp privateIp tid, H.thread n = x) ↔
      H.thread ⟨publicIp, privateIp, tid, 0⟩ = x := by
    intro x
    constructor
    · rintro ⟨n, hn, rfl⟩
      obtain ⟨rfl, rfl, rfl, -⟩ := mem_virtualNodes.mp hn
      exact (hslot n.virtualNum).symm
    · intro hx
      exact ⟨_, mem_virtualNodes.mpr ⟨rfl, rfl, rfl, (by decide : 0 < kVirtualThreadNum)⟩, hx⟩
  refine SlotMap.ext (ExtTreeMap.ext_getElem? fun x => ?_)
  unfold remove
  rw [SlotMap.getElem?_foldl_erase, SlotMap.getElem?_erase]
  simp only [hone]

end

variable {rep : KeyReplication}

theorem ServerState.getResponsibleThreads_one {srv : Server} {s : ServerState srv} {key : Key}
    {tier : Tier} {threads : List ServerThread} (hkey : isMetadata key = .ok false)
    (hrep : s.keyReplicationMap[key]? = some rep) (hglobal : rep.globalAt tier = 1)
    (hlocal : rep.localAt tier = 1)
    (hthreads : tierThreads key 1 1 (s.globalHashRings tier) (s.localHashRings tier) =
      .ok threads) : s.getResponsibleThreads key [tier] = .ok ⟨threads, true, s.seed, []⟩ := by
  rw [getResponsibleThreads_known _ hkey hrep, responsibleThreads_one, hglobal, hlocal, hthreads]
  rfl

/-! ## A node on its own -/

section
variable {D : Type} [Priority D] (codecs : ValueCodecs D) (repCodec : Codec ReplicationFactor)

/-- The thread of a memory node that is the only one; every string hashes to the
same slot. -/
def soloServer : Server :=
  memoryServer codecs repCodec (fun _ => 0) ⟨"A", "a", 0, 0⟩

/-- It knows itself, and the replication factors of some keys. -/
def soloState (keyReplicationMap : ExtTreeMap Key KeyReplication) :
    ServerState (soloServer codecs repCodec) :=
  { ServerState.initial (soloServer codecs repCodec) (default : MemoryStore D) 0 with
    globalHashRings := Function.update (fun _ => default) .memory (insert default "A" "a" 0 0).1
    localHashRings := Function.update (fun _ => default) .memory (insert default "A" "a" 0 0).1
    keyReplicationMap }

variable (keyReplicationMap : ExtTreeMap Key KeyReplication)

theorem soloState_tierThreads (key : Key) : tierThreads key 1 1
        ((soloState codecs repCodec keyReplicationMap).globalHashRings .memory)
        ((soloState codecs repCodec keyReplicationMap).localHashRings .memory) =
      .ok [⟨"A", "a", 0, 0⟩] := by
  exact tierThreads_one (turn_insert_default 0 (fun _ => rfl) key)
    (turn_insert_default 0 (fun _ => rfl) key)

theorem soloState_metadataServed :
    MetadataServed (soloState codecs repCodec keyReplicationMap).toRingMaps :=
  (metadataServed_iff _ "k").mp ⟨_, _, soloState_tierThreads codecs repCodec keyReplicationMap "k"⟩

variable {keyReplicationMap} in
/-- The node on its own is responsible for its keys. -/
theorem soloState_lookup {key : Key} (hkey : isMetadata key = .ok false)
    (hrep : keyReplicationMap[key]? = some rep) (hglobal : rep.globalAt .memory = 1)
    (hlocal : rep.localAt .memory = 1) :
    (soloState codecs repCodec keyReplicationMap).getResponsibleThreads key [.memory] =
      .ok ⟨[⟨"A", "a", 0, 0⟩], true, 0, []⟩ :=
  ServerState.getResponsibleThreads_one hkey hrep hglobal hlocal
    (soloState_tierThreads codecs repCodec keyReplicationMap key)

end

/-! ## Two memory nodes with slots of their own -/

theorem ServerThread.virtualId_inj {l r : ServerThread} :
    l.virtualId = r.virtualId ↔ l.id = r.id ∧ l.virtualNum = r.virtualNum := by
  have hid : ∀ th : ServerThread,
      th.virtualId.toList = th.id.toList ++ '_' :: (toString th.virtualNum).toList := by
    intro th
    simp only [virtualId, id, String.toList_append, append_assoc]
    rfl
  constructor
  · intro h
    have hchars := congrArg String.toList h
    rw [hid, hid] at hchars
    obtain ⟨hl, hnum⟩ := Lib.Text.append_cons_inj
      (Lib.Text.notMem_toString (by decide) _) (Lib.Text.notMem_toString (by decide) _) hchars
    exact ⟨String.toList_injective hl, Lib.Text.toString_injective (String.toList_injective hnum)⟩
  · rintro ⟨hl, hnum⟩
    refine String.toList_injective ?_
    rw [hid, hid, hl, hnum]

/-- The virtual nodes of the servers `a` and `b`. -/
def nodesOfTwo : List ServerThread := virtualNodes "A" "a" 0 ++ virtualNodes "B" "b" 0

/-- A hash that numbers the virtual nodes of the two servers. -/
def numberingHash (text : String) : UInt64 :=
  UInt64.ofNat ((nodesOfTwo.map fun n => "GLOBAL" ++ n.virtualId).idxOf text)

theorem length_nodesOfTwo : nodesOfTwo.length = 6000 := by
  simp [nodesOfTwo, virtualNodes, kVirtualThreadNum]

theorem nodup_virtualNodes (publicIp privateIp : Address) (tid : Nat) :
    (virtualNodes publicIp privateIp tid).Nodup :=
  nodup_range.map fun _ _ h => congrArg ServerThread.virtualNum h

theorem nodup_nodesOfTwo : nodesOfTwo.Nodup := by
  refine nodup_append.mpr ⟨nodup_virtualNodes _ _ _, nodup_virtualNodes _ _ _, ?_⟩
  rintro n hn n' hn' rfl
  have ha := (mem_virtualNodes.mp hn).2.1
  rw [(mem_virtualNodes.mp hn').2.1] at ha
  exact absurd ha (by decide)

theorem thread_numberingHash {n : ServerThread} (hn : n ∈ nodesOfTwo) :
    ((globalHasher numberingHash).thread n).toNat =
      (nodesOfTwo.map fun n => "GLOBAL" ++ n.virtualId).idxOf ("GLOBAL" ++ n.virtualId) := by
  have hmem : "GLOBAL" ++ n.virtualId ∈ nodesOfTwo.map fun n => "GLOBAL" ++ n.virtualId :=
    mem_map_of_mem hn
  have hlt := idxOf_lt_length_of_mem hmem
  rw [length_map, length_nodesOfTwo] at hlt
  unfold globalHasher numberingHash
  rw [UInt64.toNat_toUInt32, UInt64.toNat_ofNat']
  omega

/-- All virtual nodes of two servers have slots of their own. -/
theorem nodup_slots_nodesOfTwo : (nodesOfTwo.map (globalHasher numberingHash).thread).Nodup := by
  refine nodup_nodesOfTwo.map_on fun n hn n' hn' h => ?_
  have hidx := congrArg UInt32.toNat h
  rw [thread_numberingHash hn, thread_numberingHash hn'] at hidx
  have hmem : "GLOBAL" ++ n.virtualId ∈ nodesOfTwo.map fun n => "GLOBAL" ++ n.virtualId :=
    mem_map_of_mem hn
  have hname := (idxOf_inj hmem).mp hidx
  have hvirtual : n.virtualId = n'.virtualId := by
    have hchars := congrArg String.toList hname
    rw [String.toList_append, String.toList_append] at hchars
    exact String.toList_injective (append_cancel_left hchars)
  obtain ⟨hid, hnum⟩ := ServerThread.virtualId_inj.mp hvirtual
  obtain ⟨hip, htid⟩ := ServerThread.id_inj.mp hid
  -- the public IP goes with the private one
  rcases mem_append.mp hn with ha | hb
  · rcases mem_append.mp hn' with ha' | hb'
    · exact ServerThread.ext ((mem_virtualNodes.mp ha).1.trans (mem_virtualNodes.mp ha').1.symm)
        hip htid hnum
    · rw [(mem_virtualNodes.mp ha).2.1, (mem_virtualNodes.mp hb').2.1] at hip
      exact absurd hip (by decide)
  · rcases mem_append.mp hn' with ha' | hb'
    · rw [(mem_virtualNodes.mp hb).2.1, (mem_virtualNodes.mp ha').2.1] at hip
      exact absurd hip (by decide)
    · exact ServerThread.ext ((mem_virtualNodes.mp hb).1.trans (mem_virtualNodes.mp hb').1.symm)
        hip htid hnum

theorem HashRing.nodes_addServer_eq {R : Type} [Ord R] [TransOrd R] [LawfulEqOrd R]
    [DecidableEq R] {H : Hasher R} (ring : HashRing H) (server : ServerThread) (joinCount : Int) :
    (ring.addServer server joinCount).nodes =
      (virtualNodes server.publicIp server.privateIp server.tid).foldl SlotMap.insert
        ring.nodes := by
  rw [addServer]

theorem HashRing.nodes_default {R : Type} [Ord R] [TransOrd R] [LawfulEqOrd R] {H : Hasher R} :
    (default : HashRing H).nodes = default := rfl

/-- The ring of the two servers. -/
def ringOfTwo : HashRing (globalHasher numberingHash) :=
  (((default : HashRing (globalHasher numberingHash)).insert "A" "a" 0 0).1.insert "B" "b" 0 0).1

theorem size_ringOfTwo : ringOfTwo.nodes.nodes.size = 6000 := by
  have hdefault : (ServerThread.mk "A" "a" 0 0).id ∉
      (default : HashRing (globalHasher numberingHash)).members := by
    rw [members_default]
    exact Set.notMem_empty _
  have hnew : (ServerThread.mk "B" "b" 0 0).id ∉
      ((default : HashRing (globalHasher numberingHash)).insert "A" "a" 0 0).1.members := by
    intro hmem
    have hmem' := ExtTreeMap.mem_insertIfNew.mp hmem
    exact hmem'.elim (by decide) hdefault
  have hnodes : ringOfTwo.nodes = nodesOfTwo.foldl SlotMap.insert default := by
    rw [ringOfTwo, insert_of_notMem hnew, insert_of_notMem hdefault, nodesOfTwo,
      foldl_append, nodes_addServer_eq, nodes_addServer_eq]
    rw [nodes_default]
  rw [hnodes, SlotMap.size_foldl_insert nodup_slots_nodesOfTwo (by simp), length_nodesOfTwo]
  rfl

/-! ## A memory node and a disk node -/

/-- The hash of a server in the global rings is the first letter of its name; in the
local rings all hashes are `0`. -/
def initialHash (text : String) : UInt64 :=
  match text.toList with
  | 'G' :: 'L' :: 'O' :: 'B' :: 'A' :: 'L' :: c :: _ => c.toNat.toUInt64
  | _ => 0

theorem initialHash_global {text : String} (h : text.toList = c :: rest) :
    initialHash ("GLOBAL" ++ text) = c.toNat.toUInt64 := by
  have hglobal : "GLOBAL".toList = ['G', 'L', 'O', 'B', 'A', 'L'] := by decide
  rw [initialHash, String.toList_append, hglobal, h]
  rfl

theorem globalHasher_initialHash (server : ServerThread) (h : server.privateIp.toList = c :: rest) :
    (globalHasher initialHash).thread server = c.toNat.toUInt64.toUInt32 := by
  have hid : server.virtualId.toList =
      c :: (rest ++ (":" ++ toString server.tid ++ "_" ++ toString server.virtualNum).toList) := by
    simp only [ServerThread.virtualId, String.toList_append, h, cons_append, append_assoc]
  exact congrArg UInt64.toUInt32 (initialHash_global hid)

theorem oneSlot_global (server : ServerThread) (h : server.privateIp.toList = c :: rest) :
    OneSlot (globalHasher initialHash) server := by
  intro v
  rw [globalHasher_initialHash server h]
  exact globalHasher_initialHash { server with virtualNum := v } h

theorem oneSlot_local (publicIp privateIp : Address) :
    OneSlot (localHasher initialHash) ⟨publicIp, privateIp, 0, 0⟩ := by
  have hzero : ∀ v : Nat, initialHash (toString (0 : Nat) ++ "_" ++ toString v) = 0 := by
    intro v
    have hstart : (toString (0 : Nat) ++ "_").toList = ['0', '_'] := by decide
    rw [initialHash, String.toList_append, hstart]
    rfl
  intro v
  unfold localHasher
  dsimp only
  rw [hzero, hzero]

section Pair
variable {D : Type} [Priority D] (codecs : ValueCodecs D) (repCodec : Codec ReplicationFactor)

/-- One replica in each tier. -/
def factorsOfK : KeyReplication := ⟨fun _ => some 1, fun _ => some 1⟩

/-- The thread of the memory node `b`. -/
def pairServer : Server := memoryServer codecs repCodec initialHash ⟨"B", "b", 0, 0⟩

/-- A thread of `b` that knows `b` and the disk node `d`, and that the key `"k"` has
one replica in each tier. -/
def pairState : ServerState (pairServer codecs repCodec) :=
  { ServerState.initial (pairServer codecs repCodec) (default : MemoryStore D) 0 with
    globalHashRings := Function.update
      (Function.update (fun _ => default) .memory (insert default "B" "b" 0 0).1)
      .disk (insert default "D" "d" 0 0).1
    localHashRings := fun _ => (insert default "B" "b" 0 0).1
    keyReplicationMap := (∅ : ExtTreeMap Key KeyReplication).insert "k" factorsOfK }

/-- The memory ring once `a` has joined. -/
def joinedRing (cfg : Config) : GlobalHashRing cfg :=
  ((insert default "B" "b" 0 0).1.insert "A" "a" 0 0).1

theorem nodes_joinedRing (hhash : cfg.strHash = initialHash) : (joinedRing cfg).nodes =
      ((default : SlotMap (globalHasher cfg.strHash).thread).insert ⟨"B", "b", 0, 0⟩).insert
        ⟨"A", "a", 0, 0⟩ := by
  have hb : "b".toList = ['b'] := by decide
  have ha : "a".toList = ['a'] := by decide
  have hnew : (ServerThread.mk "A" "a" 0 0).id ∉
      ((default : GlobalHashRing cfg).insert "B" "b" 0 0).1.members := by
    rw [members_insert, members_default]
    decide
  rw [joinedRing, nodes_insert 0 (hhash ▸ oneSlot_global _ ha) hnew,
    nodes_insert_default 0 (hhash ▸ oneSlot_global _ hb)]

/-- When `a` has joined, it comes first for the key. -/
theorem joinedRing_turn (hhash : cfg.strHash = initialHash) :
    (joinedRing cfg).turn "k" = [⟨"A", "a", 0, 0⟩, ⟨"B", "b", 0, 0⟩] := by
  rw [turn, nodes_joinedRing hhash, hhash]
  decide

theorem departedRing_turn (hhash : cfg.strHash = initialHash) :
    ((joinedRing cfg).remove "A" "a" 0).turn "k" = [⟨"B", "b", 0, 0⟩] := by
  have ha : "a".toList = ['a'] := by decide
  rw [turn, nodes_remove _ (hhash ▸ oneSlot_global _ ha), nodes_joinedRing hhash, hhash]
  decide

variable {codecs repCodec}

/-- The state knows what `pairState` does, but for the memory ring. -/
structure PairView (s : ServerState (pairServer codecs repCodec))
    (memory : GlobalHashRing (pairServer codecs repCodec).toConfig) : Prop where
  memoryRing : s.globalHashRings .memory = memory
  diskRing : s.globalHashRings .disk = (insert default "D" "d" 0 0).1
  localRings : ∀ tier, s.localHashRings tier = (insert default "B" "b" 0 0).1
  factors : s.keyReplicationMap["k"]? = some factorsOfK

namespace PairView
variable {s : ServerState (pairServer codecs repCodec)}
  {memory : GlobalHashRing (pairServer codecs repCodec).toConfig}
  {server : ServerThread} {servers : List ServerThread}

section
variable (h : PairView s memory)
include h

theorem tierThreads_memory (hturn : memory.turn "k" = server :: servers) :
    tierThreads "k" (factorsOfK.globalAt .memory) (factorsOfK.localAt .memory)
        (s.globalHashRings .memory) (s.localHashRings .memory) =
      .ok [⟨server.publicIp, server.privateIp, 0, 0⟩] := by
  have hlocal := oneSlot_local "B" "b"
  rw [h.memoryRing, h.localRings]
  exact tierThreads_one hturn (turn_insert_default 0 hlocal "k")

theorem tierThreads_disk : tierThreads "k" (factorsOfK.globalAt .disk) (factorsOfK.localAt .disk)
        (s.globalHashRings .disk) (s.localHashRings .disk) =
      .ok [⟨"D", "d", 0, 0⟩] := by
  have hd : "d".toList = ['d'] := by decide
  have hglobal : OneSlot (globalHasher (pairServer codecs repCodec).strHash)
    ⟨"D", "d", 0, 0⟩ := oneSlot_global _ hd
  have hlocal := oneSlot_local "B" "b"
  rw [h.diskRing, h.localRings]
  exact tierThreads_one (turn_insert_default 0 hglobal "k") (turn_insert_default 0 hlocal "k")

theorem lookup_memory (hturn : memory.turn "k" = server :: servers) :
    s.getResponsibleThreads "k" [.memory] =
      .ok ⟨[⟨server.publicIp, server.privateIp, 0, 0⟩], true, s.seed, []⟩ := by
  refine (ServerState.getResponsibleThreads_eq_ok (by decide) h.factors).mpr ⟨_, ?_, rfl⟩
  rw [responsibleThreads_one]
  exact h.tierThreads_memory hturn

/-- The key has a thread in each tier. -/
theorem lookup_all (hturn : memory.turn "k" = server :: servers) :
    s.getResponsibleThreads "k" kAllTiers =
      .ok ⟨[⟨server.publicIp, server.privateIp, 0, 0⟩, ⟨"D", "d", 0, 0⟩], true, s.seed, []⟩ := by
  refine (ServerState.getResponsibleThreads_eq_ok (by decide) h.factors).mpr ⟨_, ?_, rfl⟩
  rw [kAllTiers, responsibleThreads, h.tierThreads_memory hturn, responsibleThreads_one,
    h.tierThreads_disk]
  rfl

end

end PairView

variable (codecs repCodec)

theorem pairState_view : PairView (pairState codecs repCodec) (insert default "B" "b" 0 0).1 :=
  ⟨rfl, rfl, fun _ => rfl, ExtTreeMap.getElem?_insert_self⟩

theorem bRing_turn (hhash : cfg.strHash = initialHash) :
    ((default : GlobalHashRing cfg).insert "B" "b" 0 0).1.turn "k" = [⟨"B", "b", 0, 0⟩] := by
  have hb : "b".toList = ['b'] := by decide
  exact turn_insert_default 0 (hhash ▸ oneSlot_global ⟨"B", "b", 0, 0⟩ hb) "k"

end Pair

end Testbed.Anna
