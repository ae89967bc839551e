import Testbed.Anna.RingWalks
import Testbed.Anna.SmallClusters

/-! # What the walk promises

The two facts about `responsible_global` that the rest of the store counts on.  It
returns the servers in the order in which the clockwise walk from the key's hash first
meets them, as many as the factor says (`responsibleGlobal_eq_first_servers`), so a larger
factor only adds behind.  And a server that joins moves as little as possible: it takes
one place at most and pushes one server out, and once it is removed everything is as it
was (`responsibleGlobal_insert_remove`).
-/
namespace Testbed.Anna

open Std Lib
open HashRing List

/-! ## The order of the walk -/

/-- The virtual nodes clockwise from the hash of a key: those at or after it and then
those before it, by rising hash. -/
def HashRing.clockwise {R : Type} [Ord R] [TransOrd R] [LawfulEqOrd R] {H : Hasher R}
    (ring : HashRing H) (key : Key) : List ServerThread :=
  (ring.nodes.nodes.toList.filter (fun p => !(compare p.1 (H.key key) == .lt)) ++
    ring.nodes.nodes.toList.filter (fun p => compare p.1 (H.key key) == .lt)).map Prod.snd

theorem HashRing.turn_eq_clockwise {R : Type} [Ord R] [TransOrd R] [LawfulEqOrd R]
    {H : Hasher R} (ring : HashRing H) (key : Key) : ring.turn key = ring.clockwise key :=
  SlotMap.turn_eq_filter ring.nodes (H.key key)

section
variable {cfg : Config}

theorem firstOccurrences_serversFrom (key : Key) (ring : GlobalHashRing cfg) :
    FirstOccurrences ServerThread.id (ring.clockwise key) (serversFrom key ring) := by
  rw [← turn_eq_clockwise]
  exact firstOccurrences_firstVisits (ring.turn key)

theorem nodup_serversFrom (key : Key) (ring : GlobalHashRing cfg) :
    ((serversFrom key ring).map ServerThread.id).Nodup :=
  nodup_firstVisits nodup_nil

/-- **The walk around the global ring.**  When the virtual nodes belong to at least one
server and the factor is at most the number of servers, `responsible_global` returns as
many servers as the factor says, all different, in the order in which they first occur
clockwise from the key's hash; the servers for the next factor start with them.  On an
empty ring it returns nobody. -/
theorem responsibleGlobal_eq_first_servers (ring : GlobalHashRing cfg) (key : Key) :
    (1 ≤ ring.servers.card → ∀ r ≤ ring.servers.card, ∃ servers,
      responsibleGlobal key r ring = .ok servers ∧
      servers.length = r ∧
      (servers.map ServerThread.id).Nodup ∧
      FirstOccurrences ServerThread.id (ring.clockwise key) servers ∧
      ∀ more, responsibleGlobal key (r + 1) ring = .ok more → servers <+: more) ∧
    (ring.nodes.nodes = ∅ → ∀ r, responsibleGlobal key r ring = .ok []) := by
  constructor
  · intro _ r hr
    refine ⟨_, responsibleGlobal_of_fits (.inr hr) key, ?_, ?_, ?_, ?_⟩
    · rw [length_take, length_serversFrom, Nat.min_eq_left hr]
    · exact (nodup_serversFrom key ring).sublist ((take_sublist _ _).map _)
    · exact (firstOccurrences_serversFrom key ring).take r
    · intro _ hmore
      by_cases hfits : GlobalFits ring (r + 1)
      · rw [responsibleGlobal_of_fits hfits, Except.ok.injEq] at hmore
        rw [← hmore]
        exact take_prefix_take_left (Nat.le_succ r)
      · rw [responsibleGlobal_of_not_fits hfits] at hmore
        cases hmore
  · intro hempty r
    have hnone : serversFrom key ring = [] := serversFrom_eq_nil_iff.mpr hempty
    rw [responsibleGlobal_of_fits (.inl hempty), hnone, take_nil]

/-- The first server of a key in the ring of `a` and `b`. -/
theorem first_server_of_joinedRing :
    ∃ (cfg : Config) (ring : GlobalHashRing cfg), 2 ≤ ring.servers.card ∧
      ∃ servers, responsibleGlobal "k" 1 ring = .ok servers ∧ servers.length = 1 ∧
        FirstOccurrences ServerThread.id (ring.clockwise "k") servers := by
  obtain ⟨codecs, repCodec⟩ := exists_codecs
  let cfg := (pairServer codecs repCodec).toConfig
  have hcard : (joinedRing cfg).servers.card = 2 := by
    rw [← length_serversFrom "k", serversFrom, joinedRing_turn rfl]
    decide
  obtain ⟨servers, hservers, hlength, -, hfirst, -⟩ :=
    (responsibleGlobal_eq_first_servers (joinedRing cfg) "k").1 (by omega) 1 (by omega)
  exact ⟨cfg, joinedRing cfg, hcard.ge, servers, hservers, hlength, hfirst⟩

/-! ## A server joins and goes -/

variable {ring : GlobalHashRing cfg} {publicIp privateIp : Address} {joinCount : Int} {tid : Nat}

theorem getElem?_of_mem_serversFrom {key : Key} {n : ServerThread} (hn : n ∈ serversFrom key ring) :
    ring.nodes.nodes[(globalHasher cfg.strHash).thread n]? = some n := by
  have hfirst := (firstOccurrences_firstVisits (ring.turn key)).first n hn
  exact SlotMap.mem_turn.mp (mem_of_getElem? hfirst)

theorem mem_virtualNodes_of_insert {key : Key} {n : ServerThread}
    (hnew : (ServerThread.mk publicIp privateIp tid 0).id ∉ ring.members)
    (hn : n ∈ serversFrom key (ring.insert publicIp privateIp joinCount tid).1)
    (hid : n.id = (ServerThread.mk publicIp privateIp tid 0).id) :
    n ∈ virtualNodes publicIp privateIp tid := by
  have hslot := getElem?_of_mem_serversFrom hn
  rw [insert_of_notMem hnew, addServer, SlotMap.getElem?_foldl_insert,
    Option.or_eq_some_iff] at hslot
  rcases hslot with hold | ⟨-, hfind⟩
  · exact absurd (ring.live hold) (hid ▸ hnew)
  · exact mem_of_find?_eq_some hfind

theorem length_filter_serversFrom_le (key : Key) (ring : GlobalHashRing cfg) (i : String) :
    ((serversFrom key ring).filter fun n => !decide (n.id ≠ i)).length ≤ 1 := by
  have hids : ((serversFrom key ring).filter fun n => !decide (n.id ≠ i)).map ServerThread.id =
      List.replicate ((serversFrom key ring).filter fun n => !decide (n.id ≠ i)).length i := by
    refine eq_replicate_iff.mpr ⟨length_map _, fun j hj => ?_⟩
    obtain ⟨n, hn, rfl⟩ := mem_map.mp hj
    simpa using (mem_filter.mp hn).2
  refine (nodup_replicate (a := i)).mp ?_
  rw [← hids]
  exact (nodup_serversFrom key ring).sublist (filter_sublist.map _)

theorem nodes_insert_remove (joinCount : Int)
    (hnew : (ServerThread.mk publicIp privateIp tid 0).id ∉ ring.members)
    (hfree : ∀ x ∈ footprint (globalHasher cfg.strHash)
      (ServerThread.mk publicIp privateIp tid 0).id, ring.nodes.nodes[x]? = none) :
    ((ring.insert publicIp privateIp joinCount tid).1.remove publicIp privateIp tid).nodes =
      ring.nodes := by
  refine SlotMap.ext (ExtTreeMap.ext_getElem? fun x => Option.ext fun n => ?_)
  rw [getElem?_remove, insert_of_notMem hnew, addServer,
    SlotMap.getElem?_foldl_insert, Option.or_eq_some_iff]
  constructor
  · rintro ⟨hold | ⟨-, hfind⟩, hx⟩
    · exact hold
    · have hslot : (globalHasher cfg.strHash).thread n = x := by simpa using find?_some hfind
      refine absurd ?_ hx
      exact (exists_virtualNode_iff _).mp ⟨n, mem_of_find?_eq_some hfind, hslot⟩
  · intro hold
    refine ⟨.inl hold, fun hx => ?_⟩
    rw [hfree x hx] at hold
    cases hold

/-- **A joining server moves the minimum.**  A server that is new to the ring and
whose virtual nodes all find free slots changes the servers of a key in one place at
most: it is put in somewhere and the last server drops out.  Removing it restores
the servers. -/
theorem responsibleGlobal_insert_remove (joinCount : Int)
    (hnew : (ServerThread.mk publicIp privateIp tid 0).id ∉ ring.members)
    (hfree : ∀ x ∈ footprint (globalHasher cfg.strHash)
      (ServerThread.mk publicIp privateIp tid 0).id, ring.nodes.nodes[x]? = none)
    (key : Key) {r : Nat} (hr : r ≤ ring.servers.card) :
    ∃ old new, responsibleGlobal key r ring = .ok old ∧
      responsibleGlobal key r (ring.insert publicIp privateIp joinCount tid).1 = .ok new ∧
      (new = old ∨ ∃ i < r, ∃ s ∈ virtualNodes publicIp privateIp tid,
        new = (old.insertIdx i s).dropLast) ∧
      responsibleGlobal key r
        ((ring.insert publicIp privateIp joinCount tid).1.remove publicIp privateIp tid) =
        .ok old := by
  have hmore : GlobalFits (ring.insert publicIp privateIp joinCount tid).1 r :=
    .inr (hr.trans (card_servers_le_insert ring publicIp privateIp joinCount tid))
  have hold : serversFrom key ring = _ := serversFrom_insert_of_notMem hnew joinCount
  refine ⟨_, _, responsibleGlobal_of_fits (.inr hr) key, responsibleGlobal_of_fits hmore key,
    ?_, ?_⟩
  · rw [hold]
    have hlength : r ≤ (serversFrom key ring).length := by rwa [length_serversFrom]
    rw [hold] at hlength
    rcases take_eq_or_insertIdx_dropLast (length_filter_serversFrom_le key _ _) hlength with
      heq | ⟨i, hi, s, hid, hs, heq⟩
    · exact .inl heq
    · exact .inr ⟨i, hi, s, mem_virtualNodes_of_insert hnew hs (by simpa using hid), heq⟩
  · rw [← responsibleGlobal_of_fits (.inr hr) key, responsibleGlobal, responsibleGlobal,
      turn, turn, nodes_insert_remove joinCount hnew hfree]

/-- The server `a` joins `b` and goes again. -/
theorem a_joins_b_and_goes :
    ∃ (cfg : Config) (ring : GlobalHashRing cfg) (old new : List ServerThread),
      1 ≤ ring.servers.card ∧ responsibleGlobal "k" 1 ring = .ok old ∧
      responsibleGlobal "k" 1 (ring.insert "A" "a" 0 0).1 = .ok new ∧
      responsibleGlobal "k" 1 ((ring.insert "A" "a" 0 0).1.remove "A" "a" 0) = .ok old := by
  obtain ⟨codecs, repCodec⟩ := exists_codecs
  let cfg := (pairServer codecs repCodec).toConfig
  let ring : GlobalHashRing cfg := (insert default "B" "b" 0 0).1
  have hb : "b".toList = ['b'] := by decide
  have ha : "a".toList = ['a'] := by decide
  have hnew : (ServerThread.mk "A" "a" 0 0).id ∉ ring.members := by
    rw [members_insert, members_default]
    decide
  have hfree : ∀ x ∈ footprint (globalHasher cfg.strHash) (ServerThread.mk "A" "a" 0 0).id,
      ring.nodes.nodes[x]? = none := by
    rintro x ⟨n, hid, -, rfl⟩
    have hip : n.privateIp.toList = ['a'] := by rw [(ServerThread.id_inj.mp hid).1, ha]
    have hslot := globalHasher_initialHash n hip
    have hbslot := globalHasher_initialHash ⟨"B", "b", 0, 0⟩ hb
    have hnodes : ring.nodes = (default : SlotMap (globalHasher cfg.strHash).thread).insert _ :=
      nodes_insert_default 0 (oneSlot_global ⟨"B", "b", 0, 0⟩ hb)
    rw [hnodes, SlotMap.getElem?_insert, SlotMap.nodes_default, ExtTreeMap.getElem?_empty,
      Option.none_or]
    refine if_neg fun heq => ?_
    have hletters := hbslot.symm.trans (heq.trans hslot)
    exact absurd hletters (by decide)
  have hcard : 1 ≤ ring.servers.card := by
    rw [← length_serversFrom "k", serversFrom, bRing_turn rfl]
    decide
  obtain ⟨old, new, hold, hjoined, -, hgone⟩ :=
    responsibleGlobal_insert_remove 0 hnew hfree "k" hcard
  exact ⟨cfg, ring, old, new, hcard, hold, hjoined, hgone⟩

end

end Testbed.Anna
