import Mathlib.Data.Finset.Card
import Testbed.Anna.Responsibility

/-! # Threads that keep metadata

`issue_replication_factor_request` picks one of the threads of the memory tier that
keep the metadata of a key, and divides by their number.  With no server in the memory
tier there are none; and with fewer threads than `kDefaultLocalReplication` the walk of
`responsible_local` never ends.  `issue_returns_iff` says just when the request is
sent.

The three other places that pick such a thread (in `server.cpp`) look at the number
first.
-/
namespace Testbed.Anna

open Std (ExtTreeMap ExtTreeSet)
open Lib List Std.ExtTreeSet

/-! ## The walk over threads -/

/-- The thread numbers in a ring. -/
def HashRing.tids {R : Type} [Ord R] [Std.TransOrd R] [Std.LawfulEqOrd R] {H : Hasher R}
    (ring : HashRing H) : Finset Nat :=
  (ring.nodes.nodes.toList.map fun slot => slot.2.tid).toFinset

theorem HashRing.toFinset_turn {R : Type} [Ord R] [Std.TransOrd R] [Std.LawfulEqOrd R]
    {H : Hasher R} {L : Type} [DecidableEq L] (label : ServerThread → L) (ring : HashRing H)
    (key : Key) : ((ring.turn key).map label).toFinset =
      (ring.nodes.nodes.toList.map fun slot => label slot.2).toFinset := by
  ext i
  simp only [mem_toFinset, mem_map, Prod.exists, ExtTreeMap.mem_toList_iff_getElem?_eq_some]
  constructor
  · rintro ⟨n, hn, rfl⟩
    exact ⟨_, n, SlotMap.mem_turn.mp hn, rfl⟩
  · rintro ⟨x, n, hx, rfl⟩
    exact ⟨n, SlotMap.mem_turn.mpr (by rw [ring.nodes.placed hx, hx]), rfl⟩

theorem HashRing.mem_tids {R : Type} [Ord R] [Std.TransOrd R] [Std.LawfulEqOrd R] {H : Hasher R}
    {ring : HashRing H} {tid : Nat} (key : Key) :
    tid ∈ ring.tids ↔ ∃ n ∈ ring.turn key, n.tid = tid := by
  rw [tids, ← toFinset_turn ServerThread.tid ring key, mem_toFinset, mem_map]

theorem turn_eq_nil_iff {R : Type} [Ord R] [Std.TransOrd R] [Std.LawfulEqOrd R] {H : Hasher R}
    {ring : HashRing H} (key : Key) :
    ring.turn key = [] ↔ ring.nodes.nodes = ∅ := by
  rw [eq_nil_iff_forall_not_mem]
  constructor
  · intro h
    refine ExtTreeMap.ext_getElem? fun x => ?_
    by_contra hsome
    obtain ⟨n, hn⟩ := Option.ne_none_iff_exists'.mp hsome
    exact h n (SlotMap.mem_turn.mpr (by rw [ring.nodes.placed hn, hn]))
  · intro h n hn
    have hslot := SlotMap.mem_turn.mp hn
    rw [h, ExtTreeMap.getElem?_empty] at hslot
    cases hslot

/-- The thread numbers that a walk has met at its end. -/
def metTids (tids : ExtTreeSet Nat) (walk : List ServerThread) : ExtTreeSet Nat :=
  walk.foldl (fun tids pos => tids.insert pos.tid) tids

variable {tids : ExtTreeSet Nat} {walk : List ServerThread} {localRep : Nat}

theorem mem_metTids {tid : Nat} :
    tid ∈ metTids tids walk ↔ tid ∈ tids ∨ ∃ n ∈ walk, n.tid = tid := by
  have hmap : metTids tids walk =
      (walk.map ServerThread.tid).foldl (fun acc tid => acc.insert tid) tids :=
    foldl_map.symm
  rw [hmap, Lib.mem_insertAll, mem_map]

theorem size_le_metTids (tids : ExtTreeSet Nat) (walk : List ServerThread) :
    tids.size ≤ (metTids tids walk).size := by
  induction walk generalizing tids with
  | nil => exact le_rfl
  | cons _ _ ih => exact size_le_size_insert.trans (ih _)

/-- **The walk over threads** ends just if there are enough of them. -/
theorem localLoop_returns_iff :
    (∃ met, localLoop localRep tids walk = .ok met) ↔ localRep ≤ (metTids tids walk).size := by
  induction walk generalizing tids with
  | nil =>
    rw [localLoop]
    by_cases h : tids.size < localRep
    · rw [if_pos h]
      exact iff_of_false (fun ⟨_, hmet⟩ => by cases hmet) (not_le.mpr h)
    · rw [if_neg h]
      exact iff_of_true ⟨tids, rfl⟩ (not_lt.mp h)
  | cons _ _ ih =>
    rw [localLoop]
    by_cases h : tids.size < localRep
    · rw [if_pos h]
      exact ih
    · rw [if_neg h]
      exact iff_of_true ⟨tids, rfl⟩ ((not_lt.mp h).trans (size_le_metTids tids _))

theorem localLoop_le {met : ExtTreeSet Nat} (h : localLoop localRep tids walk = .ok met) :
    localRep ≤ met.size := by
  induction walk generalizing tids with
  | nil =>
    rw [localLoop] at h
    split at h
    · cases h
    · rename_i hsize
      cases h
      exact not_lt.mp hsize
  | cons pos walk ih =>
    rw [localLoop] at h
    split at h
    · exact ih h
    · rename_i hsize
      cases h
      exact not_lt.mp hsize

/-! ## Threads that keep metadata -/

section Metadata
variable {cfg : Config}

/-- The threads of the memory tier suffice to keep metadata. -/
structure MetadataServed (rings : RingMaps cfg) : Prop where
  server : (rings.globalHashRings .memory).nodes.nodes ≠ ∅
  positive : 0 < cfg.defaultLocalReplication
  threads : cfg.defaultLocalReplication ≤ (rings.localHashRings .memory).tids.card

theorem size_metTids_turn (ring : LocalHashRing cfg) (key : Key) :
    (metTids ∅ (ring.turn key)).size = ring.tids.card := by
  refine size_eq_card fun tid => ?_
  rw [mem_metTids, HashRing.mem_tids key, or_iff_right not_mem_empty]

theorem responsibleLocal_pos_iff {ring : LocalHashRing cfg} (key : Key) :
    (∃ tids, responsibleLocal key localRep ring = .ok tids ∧ 0 < tids.size) ↔
      0 < localRep ∧ localRep ≤ ring.tids.card := by
  have hsize := size_metTids_turn ring key
  unfold responsibleLocal
  cases hturn : ring.turn key with
  | nil =>
    have hcard : ring.tids.card = 0 := by
      rw [← hsize, hturn]
      rfl
    refine iff_of_false ?_ (by omega)
    rintro ⟨tids, h, hpos⟩
    cases h
    exact absurd hpos (by simp)
  | cons =>
    rw [hturn] at hsize
    constructor
    · rintro ⟨tids, h, hpos⟩
      refine ⟨Nat.pos_of_ne_zero fun hzero => ?_, ?_⟩
      · -- a walk that looks for no thread ends at once
        rw [hzero] at h
        cases h
        exact absurd hpos (by simp)
      · rw [← hsize]
        exact localLoop_returns_iff.mp ⟨tids, h⟩
    · rintro ⟨hpos, hle⟩
      obtain ⟨tids, htids⟩ := localLoop_returns_iff.mpr (hsize ▸ hle)
      exact ⟨tids, htids, hpos.trans_le (localLoop_le htids)⟩

theorem tierThreads_first {key : Key} {globalRing : GlobalHashRing cfg}
    {localRing : LocalHashRing cfg} {server : ServerThread} {servers : List ServerThread}
    (h : globalRing.turn key = server :: servers) :
    tierThreads key kMetadataReplicationFactor localRep globalRing localRing =
      (responsibleLocal key localRep localRing).map fun tids =>
        tids.toList.map fun tid => ⟨server.publicIp, server.privateIp, tid, 0⟩ := by
  have hserver : responsibleGlobal key kMetadataReplicationFactor globalRing = .ok [server] := by
    rw [responsibleGlobal, h]
    cases servers <;> rfl
  rw [tierThreads, hserver]
  cases responsibleLocal key localRep localRing with
  | error => rfl
  | ok =>
    simp only [bind, Except.bind, flatMap_singleton]
    rfl

/-- **Some thread keeps the metadata** just if the memory tier suffices. -/
theorem metadataServed_iff (rings : RingMaps cfg) (key : Key) :
    (∃ thread threads, getResponsibleThreadsMetadata rings key = .ok (thread :: threads)) ↔
      MetadataServed rings := by
  unfold getResponsibleThreadsMetadata
  cases hglobal : (rings.globalHashRings .memory).turn key with
  | nil =>
    have hnone := (turn_eq_nil_iff key).mp hglobal
    refine iff_of_false ?_ fun h => h.server hnone
    rintro ⟨thread, threads, h⟩
    rw [tierThreads, responsibleGlobal, hglobal] at h
    cases h
  | cons server =>
    have hserver : (rings.globalHashRings .memory).nodes.nodes ≠ ∅ := by
      rw [Ne, ← turn_eq_nil_iff key, hglobal]
      exact cons_ne_nil _ _
    have hpos : (∃ tids, responsibleLocal key cfg.defaultLocalReplication
        (rings.localHashRings .memory) = .ok tids ∧ 0 < tids.size) ↔ _ :=
      responsibleLocal_pos_iff key
    rw [tierThreads_first hglobal]
    constructor
    · rintro ⟨thread, threads, h⟩
      cases htids : responsibleLocal key cfg.defaultLocalReplication
          (rings.localHashRings .memory) with
      | error =>
        rw [htids] at h
        cases h
      | ok tids =>
        rw [htids] at h
        have hlist := Except.ok.inj h
        have hlength := congrArg List.length hlist
        rw [length_map, length_toList, length_cons] at hlength
        obtain ⟨hposrep, hle⟩ := hpos.mp ⟨tids, htids, by omega⟩
        exact ⟨hserver, hposrep, hle⟩
    · intro h
      obtain ⟨_, htids, hsize⟩ := hpos.mpr ⟨h.positive, h.threads⟩
      rw [← length_toList] at hsize
      obtain ⟨_, _, hlist⟩ := exists_cons_of_length_pos hsize
      rw [htids]
      exact ⟨_, _, congrArg Except.ok (congrArg (List.map _) hlist)⟩

/-- **A request for factors can be sent** just if some thread keeps the metadata. -/
theorem issue_returns_iff (responseAddress : Address) (key : Key) (rings : RingMaps cfg)
    (seed : UInt32) :
    (∃ message seed', issueReplicationFactorRequest responseAddress key rings seed =
        .ok (message, seed')) ↔ MetadataServed rings := by
  rw [← metadataServed_iff rings (getMetadataKey key)]
  constructor
  · rintro ⟨_, _, h⟩
    obtain ⟨threads, hthreads, h⟩ := bind_eq_ok.mp h
    cases threads with
    | nil => cases h
    | cons thread threads => exact ⟨thread, threads, hthreads⟩
  · rintro ⟨thread, threads, h⟩
    have hlt : (cfg.randR seed).1 % (thread :: threads).length < (thread :: threads).length :=
      Nat.mod_lt _ (Nat.succ_pos _)
    let target := (thread :: threads).get ⟨_, hlt⟩
    let request := prepareGetTuple { type := .get, responseAddress } (getMetadataKey key) .lww
    refine ⟨(target.keyRequestConnectAddress, .keyRequest request), (cfg.randR seed).2,
      bind_eq_ok.mpr ⟨_, h, ?_⟩⟩
    dsimp only
    rw [getElem?_eq_getElem hlt]
    rfl

end Metadata

end Testbed.Anna
