import Testbed.Anna.Types
import Testbed.Lib.SlotMap

/-! # Consistent hashing

`hashers.hpp`, `consistent_hash_map.hpp` and `hash_ring.hpp`.  A `HashRing` places
`kVirtualThreadNum` virtual nodes of every server on a circle of hashes.
`ConsistentHashMap::insert` is `std::map::insert`, which leaves an occupied slot as
it is, and `erase` clears the slot of a node whoever holds it; so the virtual
nodes are a `SlotMap`, and what a server can hold is its `footprint`.

Rings with the same members can therefore differ, but only through colliding
hashes: `ring_determined_by_membership_iff` says that the members determine the
ring, and that a server's removal spares the others, exactly for servers whose
footprints are disjoint.  `ring_depends_on_history` is an instance of the failure.
-/
namespace Testbed.Anna

open Std Lib
open ServerThread
open SlotMap List Std.ExtTreeMap

/-- What the rings use of a hasher: a hash of threads and one of keys.  The hash
of a thread is a function of its id and its virtual number. -/
structure Hasher (R : Type) where
  thread : ServerThread → R
  key : Key → R
  thread_congr : ∀ {l r : ServerThread}, l.id = r.id → l.virtualNum = r.virtualNum →
    thread l = thread r

variable (strHash : String → UInt64)

/-- `GlobalHasher`, over the library's `std::hash<string>`: the hash is cut to 32
bits. -/
def globalHasher : Hasher UInt32 where
  thread th := (strHash ("GLOBAL" ++ th.virtualId)).toUInt32
  key key := (strHash ("GLOBAL" ++ key)).toUInt32
  thread_congr h hnum := by
    obtain ⟨hip, htid⟩ := id_inj.mp h
    simp only [virtualId, hip, htid, hnum]

def localHasher : Hasher UInt64 where
  thread th := strHash (toString th.tid ++ "_" ++ toString th.virtualNum)
  key key := strHash key
  thread_congr h hnum := by
    obtain ⟨-, htid⟩ := id_inj.mp h
    simp only [htid, hnum]

def kVirtualThreadNum : Nat := 3000

/-- `ServerThreadSet`: threads by what `operator==` compares. -/
abbrev ServerThreadSet := ExtTreeMap String ServerThread

/-- The virtual nodes of a server, in the order of both loops. -/
def virtualNodes (publicIp privateIp : Address) (tid : Nat) : List ServerThread :=
  (List.range kVirtualThreadNum).map fun virtualNum => ⟨publicIp, privateIp, tid, virtualNum⟩

variable {n : ServerThread} {tid : Nat}

theorem mem_virtualNodes {publicIp privateIp : Address} : n ∈ virtualNodes publicIp privateIp tid ↔
      n.publicIp = publicIp ∧ n.privateIp = privateIp ∧ n.tid = tid ∧
        n.virtualNum < kVirtualThreadNum := by
  simp only [virtualNodes, mem_map, mem_range]
  constructor
  · rintro ⟨v, hv, rfl⟩
    exact ⟨rfl, rfl, rfl, hv⟩
  · rintro ⟨rfl, rfl, rfl, hv⟩
    exact ⟨n.virtualNum, hv, rfl⟩

/-- The slots of the virtual nodes of the server `i`. -/
def footprint {R : Type} (H : Hasher R) (i : String) : Set R :=
  {x | ∃ n : ServerThread, n.id = i ∧ n.virtualNum < kVirtualThreadNum ∧ H.thread n = x}

theorem exists_virtualNode_iff {R : Type} {H : Hasher R} (server : ServerThread) {x : R} :
    (∃ n ∈ virtualNodes server.publicIp server.privateIp server.tid, H.thread n = x) ↔
      x ∈ footprint H server.id := by
  constructor
  · rintro ⟨n, hn, hx⟩
    obtain ⟨-, hip, htid, hv⟩ := mem_virtualNodes.mp hn
    exact ⟨n, id_inj.mpr ⟨hip, htid⟩, hv, hx⟩
  · rintro ⟨n, hid, hv, hx⟩
    refine ⟨⟨server.publicIp, server.privateIp, server.tid, n.virtualNum⟩,
      mem_virtualNodes.mpr ⟨rfl, rfl, rfl, hv⟩, ?_⟩
    rw [← hx]
    exact H.thread_congr (id_inj.mpr (id_inj.mp hid.symm)) rfl

section Ring
variable {R : Type} [Ord R] [TransOrd R] [LawfulEqOrd R] [DecidableEq R] (H : Hasher R)

/-- `HashRing<H>`: the virtual nodes, all of them nodes of a member. -/
structure HashRing where
  nodes : SlotMap H.thread
  uniqueServers : ServerThreadSet
  serverJoinCount : ExtTreeMap Address Int
  virtual : ∀ {x : R} {n : ServerThread}, nodes.nodes[x]? = some n →
    n.virtualNum < kVirtualThreadNum
  live : ∀ {x : R} {n : ServerThread}, nodes.nodes[x]? = some n → n.id ∈ uniqueServers

namespace HashRing
variable {H : Hasher R}

instance : Inhabited (HashRing H) :=
  ⟨⟨default, ∅, ∅, fun h => by simp at h, fun h => by simp at h⟩⟩

variable (ring : HashRing H)

/-- The branch of `insert` for a server that the ring does not have. -/
def addServer (server : ServerThread) (joinCount : Int) : HashRing H where
  nodes := (virtualNodes server.publicIp server.privateIp server.tid).foldl insert ring.nodes
  uniqueServers := ring.uniqueServers.insertIfNew server.id server
  serverJoinCount := ring.serverJoinCount.insert server.privateIp joinCount
  virtual {x n} h := by
    rw [getElem?_foldl_insert, Option.or_eq_some_iff] at h
    rcases h with h | ⟨-, h⟩
    · exact ring.virtual h
    · exact (mem_virtualNodes.mp (mem_of_find?_eq_some h)).2.2.2
  live {x n} h := by
    rw [getElem?_foldl_insert, Option.or_eq_some_iff] at h
    rw [mem_insertIfNew, Std.compare_eq_iff_eq]
    rcases h with h | ⟨-, h⟩
    · exact Or.inr (ring.live h)
    · obtain ⟨-, hip, htid, -⟩ := mem_virtualNodes.mp (mem_of_find?_eq_some h)
      exact Or.inl (id_inj.mpr ⟨hip.symm, htid.symm⟩)

/-- `insert`; the flag says whether the server is new or has rejoined.  A server
without a join count reads as `0`. -/
def insert (ring : HashRing H) (publicIp privateIp : Address) (joinCount : Int) (tid : Nat) :
    HashRing H × Bool :=
  let newThread : ServerThread := ⟨publicIp, privateIp, tid, 0⟩
  if newThread.id ∈ ring.uniqueServers then
    -- if we already have the server, only return true if it's rejoining
    if ring.serverJoinCount.getD privateIp 0 < joinCount then
      ({ ring with serverJoinCount := ring.serverJoinCount.insert privateIp joinCount }, true)
    else (ring, false)
  else (ring.addServer newThread joinCount, true)

def remove (publicIp privateIp : Address) (tid : Nat) : HashRing H where
  nodes := (virtualNodes publicIp privateIp tid).foldl erase ring.nodes
  uniqueServers := ring.uniqueServers.erase (ServerThread.mk publicIp privateIp tid 0).id
  serverJoinCount := ring.serverJoinCount.erase privateIp
  virtual {x n} h := by
    rw [getElem?_foldl_erase] at h
    split at h
    · exact absurd h (by simp)
    · exact ring.virtual h
  live {x n} h := by
    rw [getElem?_foldl_erase] at h
    split at h
    · exact absurd h (by simp)
    · rename_i hfree
      rw [mem_erase, ne_eq, Std.compare_eq_iff_eq]
      refine ⟨fun hid => hfree ?_, ring.live h⟩
      exact (exists_virtualNode_iff ⟨publicIp, privateIp, tid, 0⟩).mpr
        ⟨n, hid.symm, ring.virtual h, ring.nodes.placed h⟩

/-- `find(key)`. -/
def find (ring : HashRing H) (key : Key) : Option ServerThread := ring.nodes.find (H.key key)

/-- The virtual nodes in the order in which a walk from `find(key)` meets them. -/
def turn (ring : HashRing H) (key : Key) : List ServerThread := ring.nodes.turn (H.key key)

/-- The members, by id. -/
def members : Set String := {i | i ∈ ring.uniqueServers}

/-- The id of the server whose virtual node holds a slot. -/
def owner (x : R) : Option String :=
  ring.nodes.nodes[x]?.map ServerThread.id

/-! ### What one operation does to members and owners -/

variable {ring : HashRing H} {i : String} {x : R}

omit [DecidableEq R] in
theorem owner_eq_some : ring.owner x = some i ↔ ∃ n, ring.nodes.nodes[x]? = some n ∧ n.id = i := by
  simp [owner]

omit [DecidableEq R] in
theorem owner_mem (h : ring.owner x = some i) : i ∈ ring.members ∧ x ∈ footprint H i := by
  obtain ⟨n, hn, rfl⟩ := owner_eq_some.mp h
  exact ⟨ring.live hn, n, rfl, ring.virtual hn, ring.nodes.placed hn⟩

omit [DecidableEq R] in
theorem members_default : (default : HashRing H).members = ∅ := by
  ext i
  simp [members, default]

omit [DecidableEq R] in
theorem owner_default (x : R) : (default : HashRing H).owner x = none := by
  simp [owner, default]

theorem members_addServer (ring : HashRing H) (server : ServerThread) (joinCount : Int) :
    (ring.addServer server joinCount).members = Insert.insert server.id ring.members := by
  ext i
  change i ∈ ring.uniqueServers.insertIfNew server.id server ↔ _
  rw [mem_insertIfNew, Std.compare_eq_iff_eq, eq_comm]
  rfl

theorem owner_addServer (ring : HashRing H) (server : ServerThread) (joinCount : Int) (x : R)
    (i : String) :
    (ring.addServer server joinCount).owner x = some i ↔ ring.owner x = some i ∨
        ring.owner x = none ∧ i = server.id ∧ x ∈ footprint H server.id := by
  unfold owner addServer
  rw [getElem?_foldl_insert]
  cases hx : ring.nodes.nodes[x]? with
  | some => simp
  | none =>
    simp only [Option.none_or, Option.map_none, reduceCtorEq, true_and, false_or,
      Option.map_eq_some_iff]
    constructor
    · rintro ⟨n, hn, rfl⟩
      have hmem := mem_of_find?_eq_some hn
      have hslot : H.thread n = x := by simpa using find?_some hn
      obtain ⟨-, hip, htid, -⟩ := mem_virtualNodes.mp hmem
      exact ⟨id_inj.mpr ⟨hip, htid⟩, (exists_virtualNode_iff server).mp ⟨n, hmem, hslot⟩⟩
    · rintro ⟨rfl, hfoot⟩
      obtain ⟨n, hmem, hslot⟩ := (exists_virtualNode_iff server).mpr hfoot
      obtain ⟨m, hm⟩ := Option.isSome_iff_exists.mp
        (find?_isSome.mpr ⟨n, hmem, by simpa using hslot⟩ :
          ((virtualNodes server.publicIp server.privateIp server.tid).find?
            fun n => H.thread n = x).isSome)
      obtain ⟨-, hip, htid, -⟩ := mem_virtualNodes.mp (mem_of_find?_eq_some hm)
      exact ⟨m, hm, id_inj.mpr ⟨hip, htid⟩⟩

theorem nodes_addServer (ring : HashRing H) {server : ServerThread} (joinCount : Int)
    (hnum : server.virtualNum = 0)
    (hslot : ∀ v, H.thread { server with virtualNum := v } = H.thread server) :
    (ring.addServer server joinCount).nodes = ring.nodes.insert server := by
  obtain ⟨publicIp, privateIp, tid, _⟩ := server
  cases hnum
  have hnodes : virtualNodes publicIp privateIp tid = ⟨publicIp, privateIp, tid, 0⟩ ::
      ((List.range 2999).map Nat.succ).map fun v => ⟨publicIp, privateIp, tid, v⟩ := by
    rw [virtualNodes, ← map_cons, ← range_succ_eq_map]
    rfl
  have hfind : ∀ x, (virtualNodes publicIp privateIp tid).find? (fun n => H.thread n = x) =
      if H.thread ⟨publicIp, privateIp, tid, 0⟩ = x then some ⟨publicIp, privateIp, tid, 0⟩
      else none := by
    intro x
    by_cases hx : H.thread ⟨publicIp, privateIp, tid, 0⟩ = x
    · rw [if_pos hx, hnodes, find?_cons_of_pos (by simpa using hx)]
    · rw [if_neg hx, find?_eq_none]
      intro n hn
      obtain ⟨rfl, rfl, rfl, -⟩ := mem_virtualNodes.mp hn
      simpa [hslot n.virtualNum] using hx
  refine SlotMap.ext (ExtTreeMap.ext_getElem? fun x => ?_)
  unfold addServer
  rw [SlotMap.getElem?_foldl_insert, SlotMap.getElem?_insert, hfind]

theorem insert_of_mem {publicIp privateIp : Address} {joinCount : Int}
    (h : (ServerThread.mk publicIp privateIp tid 0).id ∈ ring.members) :
    (ring.insert publicIp privateIp joinCount tid).1.members = ring.members ∧
      (ring.insert publicIp privateIp joinCount tid).1.nodes = ring.nodes := by
  replace h : (ServerThread.mk publicIp privateIp tid 0).id ∈ ring.uniqueServers := h
  simp only [insert, if_pos h]
  split <;> exact ⟨rfl, rfl⟩

theorem insert_of_notMem {publicIp privateIp : Address} {joinCount : Int}
    (h : (ServerThread.mk publicIp privateIp tid 0).id ∉ ring.members) :
    ring.insert publicIp privateIp joinCount tid =
      (ring.addServer ⟨publicIp, privateIp, tid, 0⟩ joinCount, true) := by
  replace h : (ServerThread.mk publicIp privateIp tid 0).id ∉ ring.uniqueServers := h
  simp only [insert, if_neg h]

variable (ring)

theorem members_insert (publicIp privateIp : Address) (joinCount : Int) (tid : Nat) :
    (ring.insert publicIp privateIp joinCount tid).1.members =
      Insert.insert (ServerThread.mk publicIp privateIp tid 0).id ring.members := by
  by_cases h : (ServerThread.mk publicIp privateIp tid 0).id ∈ ring.members
  · rw [(insert_of_mem h).1, Set.insert_eq_of_mem h]
  · rw [insert_of_notMem h, members_addServer]

theorem owner_insert (publicIp privateIp : Address) (joinCount : Int)
    (tid : Nat) (x : R) (i : String) :
    (ring.insert publicIp privateIp joinCount tid).1.owner x = some i ↔ ring.owner x = some i ∨
        (ServerThread.mk publicIp privateIp tid 0).id ∉ ring.members ∧ ring.owner x = none ∧
          i = (ServerThread.mk publicIp privateIp tid 0).id ∧
          x ∈ footprint H (ServerThread.mk publicIp privateIp tid 0).id := by
  by_cases h : (ServerThread.mk publicIp privateIp tid 0).id ∈ ring.members
  · simp only [owner, (insert_of_mem h).2, h, not_true_eq_false, false_and, or_false]
  · simp only [insert_of_notMem h, owner_addServer, h, not_false_eq_true, true_and]

theorem members_remove (publicIp privateIp : Address) (tid : Nat) :
    (ring.remove publicIp privateIp tid).members =
      ring.members \ {(ServerThread.mk publicIp privateIp tid 0).id} := by
  ext i
  change i ∈ ring.uniqueServers.erase _ ↔ _
  rw [mem_erase, ne_eq, Std.compare_eq_iff_eq, eq_comm, and_comm]
  rfl

theorem getElem?_remove (publicIp privateIp : Address) (tid : Nat) :
    (ring.remove publicIp privateIp tid).nodes.nodes[x]? = some n ↔ ring.nodes.nodes[x]? = some n ∧
        x ∉ footprint H (ServerThread.mk publicIp privateIp tid 0).id := by
  have hfoot := exists_virtualNode_iff (H := H) ⟨publicIp, privateIp, tid, 0⟩ (x := x)
  unfold remove
  rw [getElem?_foldl_erase, ← hfoot]
  split <;> simp_all

theorem nodes_remove_eq_empty {publicIp privateIp : Address}
    (h : ring.nodes.nodes = ∅) : (ring.remove publicIp privateIp tid).nodes.nodes = ∅ := by
  refine ExtTreeMap.ext_getElem? fun x => Option.ext fun n => ?_
  rw [getElem?_remove, h, ExtTreeMap.getElem?_empty]
  simp

theorem owner_remove (publicIp privateIp : Address) (tid : Nat) (x : R) (i : String) :
    (ring.remove publicIp privateIp tid).owner x = some i ↔ ring.owner x = some i ∧
        x ∉ footprint H (ServerThread.mk publicIp privateIp tid 0).id := by
  simp only [owner_eq_some, getElem?_remove, and_right_comm, exists_and_right]

variable {ring}

end HashRing

open HashRing

/-! ## Histories of a ring -/

/-- A call of `insert` or `remove`. -/
inductive RingOp where
  | insert (publicIp privateIp : Address) (joinCount : Int) (tid : Nat)
  | remove (publicIp privateIp : Address) (tid : Nat)

namespace RingOp
variable {H : Hasher R}

/-- The id of the server that the call is about. -/
def server : RingOp → String
  | insert publicIp privateIp _ tid => (ServerThread.mk publicIp privateIp tid 0).id
  | remove publicIp privateIp tid => (ServerThread.mk publicIp privateIp tid 0).id

def apply (ring : HashRing H) : RingOp → HashRing H
  | insert publicIp privateIp joinCount tid => (ring.insert publicIp privateIp joinCount tid).1
  | remove publicIp privateIp tid => ring.remove publicIp privateIp tid

/-- The ring after a sequence of calls. -/
def run (H : Hasher R) (ops : List RingOp) : HashRing H := ops.foldl apply default

/-- The call inserts the server `i`. -/
def Inserts (i : String) : RingOp → Prop
  | insert publicIp privateIp _ tid => (ServerThread.mk publicIp privateIp tid 0).id = i
  | remove .. => False

/-- The call removes the server `i`. -/
def Removes (i : String) : RingOp → Prop
  | insert .. => False
  | remove publicIp privateIp tid => (ServerThread.mk publicIp privateIp tid 0).id = i

theorem mem_members_apply (op : RingOp) (ring : HashRing H) (i : String) :
    i ∈ (op.apply ring).members ↔ (i ∈ ring.members ∧ ¬ op.Removes i) ∨ op.Inserts i := by
  cases op with
  | insert =>
    simp only [apply, members_insert, Set.mem_insert_iff, Inserts, Removes,
      not_false_eq_true, and_true]
    rw [or_comm, eq_comm]
  | remove =>
    simp only [apply, members_remove, Set.mem_sdiff, Set.mem_singleton_iff, Inserts,
      Removes, or_false]
    rw [eq_comm]

variable {ops : List RingOp}

theorem mem_members_foldl {ring : HashRing H} (hops : ∀ op ∈ ops, ¬ op.Removes i) :
    i ∈ (ops.foldl apply ring).members ↔ i ∈ ring.members ∨ ∃ op ∈ ops, op.Inserts i := by
  induction ops generalizing ring with
  | nil => simp
  | cons op _ ih =>
    rw [foldl_cons, ih fun o ho => hops o (mem_cons_of_mem op ho), mem_members_apply,
      and_iff_left (hops op mem_cons_self), or_assoc]
    simp only [mem_cons, exists_eq_or_imp]

end RingOp

open RingOp

variable (U : Set String)

/-- The calls are about servers of `U` only. -/
def Over (ops : List RingOp) : Prop := ∀ op ∈ ops, op.server ∈ U

/-- No two servers of `U` have virtual nodes with one hash. -/
def NoCollision : Prop :=
  ∀ i ∈ U, ∀ j ∈ U, i ≠ j → ∀ x ∈ footprint H i, x ∉ footprint H j

/-- Any two rings that have the same members after calls about servers of `U` give
every slot and every key to the same server. -/
def MembersDetermineRing : Prop :=
  ∀ ops₁ ops₂, Over U ops₁ → Over U ops₂ → (run H ops₁).members = (run H ops₂).members →
    (∀ x, (run H ops₁).owner x = (run H ops₂).owner x) ∧
    ∀ key, ((run H ops₁).find key).map ServerThread.id = ((run H ops₂).find key).map ServerThread.id

/-- After any calls about servers of `U`, removing one of them leaves every
virtual node of every other server in place. -/
def RemovalSparesOthers : Prop :=
  ∀ ops publicIp privateIp tid, Over U ops → (ServerThread.mk publicIp privateIp tid 0).id ∈ U →
    ∀ (x : R) n, (run H ops).nodes.nodes[x]? = some n →
      n.id ≠ (ServerThread.mk publicIp privateIp tid 0).id →
      ((run H ops).remove publicIp privateIp tid).nodes.nodes[x]? = some n

section Histories
variable {H : Hasher R} {U : Set String} {ring : HashRing H}

section
variable (hU : NoCollision H U)
include hU

theorem placed_apply {op : RingOp} (hop : op.server ∈ U)
    (hmem : ring.members ⊆ U) (h : Placed (footprint H) ring.members ring.owner) :
    (op.apply ring).members ⊆ U ∧
      Placed (footprint H) (op.apply ring).members (op.apply ring).owner := by
  cases op with
  | insert publicIp privateIp _ tid =>
    simp only [apply, members_insert]
    refine ⟨Set.insert_subset hop hmem, ?_⟩
    by_cases hold : (ServerThread.mk publicIp privateIp tid 0).id ∈ ring.members
    · rw [Set.insert_eq_of_mem hold]
      intro x i
      rw [owner_insert, h]
      simp only [hold, not_true_eq_false, false_and, or_false]
    · refine h.claim (fun g hg => hU g (hmem hg) _ hop ?_) fun x i => ?_
      · rintro rfl
        exact hold hg
      · rw [owner_insert]
        simp only [hold, not_false_eq_true, true_and]
  | remove publicIp privateIp tid =>
    simp only [apply, members_remove]
    refine ⟨fun i hi => hmem hi.1, ?_⟩
    exact h.release (fun g hg hne => hU g (hmem hg) _ hop hne)
      fun x i => owner_remove ring publicIp privateIp tid x i

theorem placed_foldl (hops : Over U ops) (hmem : ring.members ⊆ U)
    (h : Placed (footprint H) ring.members ring.owner) :
    (ops.foldl apply ring).members ⊆ U ∧ Placed (footprint H) (ops.foldl apply ring).members
        (ops.foldl apply ring).owner :=
  List.foldlRecOn (motive := fun ring : HashRing H =>
      ring.members ⊆ U ∧ Placed (footprint H) ring.members ring.owner)
    ops _ ⟨hmem, h⟩ fun _ h op hop => placed_apply hU (hops op hop) h.1 h.2

theorem placed_run (hops : Over U ops) : (run H ops).members ⊆ U ∧
      Placed (footprint H) (run H ops).members (run H ops).owner := by
  refine placed_foldl hU hops ?_ fun x i => ?_
  · rw [members_default]
    exact Set.empty_subset U
  · simp [members_default, owner_default]

theorem members_determine_ring : MembersDetermineRing H U := by
  intro ops₁ ops₂ h₁ h₂ hmem
  have howner := (placed_run hU h₁).2.unique (hmem ▸ (placed_run hU h₂).2)
  exact ⟨howner, fun key => find_map_label howner _⟩

theorem removal_spares_others : RemovalSparesOthers H U := by
  intro ops publicIp privateIp tid hops hid x n hn hne
  refine (getElem?_remove _ publicIp privateIp tid).mpr ⟨hn, fun hx => ?_⟩
  have hnode := owner_mem (owner_eq_some.mpr ⟨n, hn, rfl⟩)
  have hdisj := hU n.id ((placed_run hU hops).1 hnode.1) _ hid hne
  exact hdisj _ hnode.2 hx

end

/-- A call that inserts the thread `n` for the first time. -/
def insertOf (n : ServerThread) : RingOp := .insert n.publicIp n.privateIp 0 n.tid

@[simp]
theorem insertOf_server (n : ServerThread) : (insertOf n).server = n.id := rfl

theorem owner_of_collision (m : ServerThread) (hn : x ∈ footprint H n.id) :
    (run H [insertOf n]).owner x = some n.id ∧
      (run H [insertOf n, insertOf m]).owner x = some n.id ∧
      (run H [insertOf n, insertOf m]).members = {n.id, m.id} := by
  have hfirst : (run H [insertOf n]).owner x = some n.id := by
    refine (owner_insert default n.publicIp n.privateIp 0 n.tid x n.id).mpr (Or.inr ?_)
    exact ⟨by simp [members_default], owner_default x, rfl, hn⟩
  refine ⟨hfirst, ?_, ?_⟩
  · exact (owner_insert _ m.publicIp m.privateIp 0 m.tid x n.id).mpr (Or.inl hfirst)
  · simp only [run, foldl_cons, foldl_nil, insertOf, apply, members_insert]
    rw [members_default, insert_empty_eq, Set.pair_comm]
    rfl

/-- **When membership determines the ring.**  For every hasher and all servers
`U`: the members determine which server every slot and every key belongs to,
whatever calls led to them, iff no two servers of `U` collide; and no removal takes
another server's virtual node iff no two servers of `U` collide. -/
theorem ring_determined_by_membership_iff (H : Hasher R) (U : Set String) :
    (MembersDetermineRing H U ↔ NoCollision H U) ∧ (RemovalSparesOthers H U ↔ NoCollision H U) := by
  have hnode : ∀ {i : String} {x : R}, x ∈ footprint H i → ∃ n : ServerThread, n.id = i :=
    fun ⟨n, hid, _⟩ => ⟨n, hid⟩
  refine ⟨⟨fun h i hi j hj hne => ?_, members_determine_ring⟩,
    ⟨fun h i hi j hj hne => ?_, removal_spares_others⟩⟩
  · -- in a common slot the order of the two joins decides
    intro x hxi hxj
    obtain ⟨n, rfl⟩ := hnode hxi
    obtain ⟨m, rfl⟩ := hnode hxj
    obtain ⟨-, hnm, hmem⟩ := owner_of_collision m hxi
    obtain ⟨-, hmn, hmem'⟩ := owner_of_collision n hxj
    have hover : ∀ a b : ServerThread, a.id ∈ U → b.id ∈ U →
        Over U [insertOf a, insertOf b] := fun a b ha hb => by
      simpa [Over] using ⟨ha, hb⟩
    have howner := (h _ _ (hover n m hi hj) (hover m n hj hi)
      (by rw [hmem, hmem', Set.pair_comm])).1 x
    rw [hnm, hmn] at howner
    exact hne (Option.some.inj howner)
  · -- removing the second, a member or not, takes the slot from the first
    intro x hxi hxj
    obtain ⟨n, rfl⟩ := hnode hxi
    obtain ⟨m, rfl⟩ := hnode hxj
    obtain ⟨v, hv, hid⟩ := owner_eq_some.mp (owner_of_collision m hxi).1
    have hkept := h [insertOf n] m.publicIp m.privateIp m.tid
      (by simpa [Over] using hi) hj x v hv
      (by rw [hid]; exact hne)
    exact ((getElem?_remove _ _ _ _).mp hkept).2 hxj

end Histories

end Ring

/-- The criterion at the global hasher of a hash that is constant. -/
theorem ring_determined_by_membership_constant :
    (MembersDetermineRing (globalHasher fun _ => 0) {"a:0", "b:0"} ↔
        NoCollision (globalHasher fun _ => 0) {"a:0", "b:0"}) ∧
      (RemovalSparesOthers (globalHasher fun _ => 0) {"a:0", "b:0"} ↔
        NoCollision (globalHasher fun _ => 0) {"a:0", "b:0"}) :=
  ring_determined_by_membership_iff (globalHasher fun _ => 0) {"a:0", "b:0"}

/-- **The ring depends on its history.**  Under a hash that sends every text to
`0`, the servers `a` and `b` share a slot: joining in the other order gives it to
the other server, and removing `b` takes the virtual node of `a`. -/
theorem ring_depends_on_history : (¬ ∀ strHash : String → UInt64,
      MembersDetermineRing (globalHasher strHash) Set.univ) ∧
    (¬ ∀ strHash : String → UInt64, RemovalSparesOthers (globalHasher strHash) Set.univ) := by
  let H := globalHasher fun _ => 0
  let a : ServerThread := ⟨"A", "a", 0, 0⟩
  let b : ServerThread := ⟨"B", "b", 0, 0⟩
  have hfoot : ∀ n : ServerThread, n.virtualNum = 0 → (0 : UInt32) ∈ footprint H n.id :=
    fun n h => ⟨n, rfl, by rw [h]; decide, rfl⟩
  have hne : a.id ≠ b.id := by decide
  have hover : ∀ ops, Over Set.univ ops := fun ops op _ => Set.mem_univ _
  obtain ⟨ha, hab, hmem⟩ := owner_of_collision b (hfoot a rfl)
  obtain ⟨-, hba, hmem'⟩ := owner_of_collision a (hfoot b rfl)
  constructor
  · intro h
    have howner := (h (fun _ => 0) [insertOf a, insertOf b] [insertOf b, insertOf a]
      (hover _) (hover _) (by rw [hmem, hmem', Set.pair_comm])).1 0
    rw [hab, hba] at howner
    exact hne (Option.some.inj howner)
  · intro h
    obtain ⟨v, hv, hid⟩ := HashRing.owner_eq_some.mp ha
    have hkept := h (fun _ => 0) [insertOf a] "B" "b" 0 (hover _) (Set.mem_univ _) 0 v hv
      (by rw [hid]; exact hne)
    exact ((HashRing.getElem?_remove _ _ _ _).mp hkept).2 (hfoot b rfl)

end Testbed.Anna
