import Testbed.Anna.GossipBatches
import Testbed.Anna.SmallClusters

/-! # Redistribution after a join

After a join the loop of `run` sends the keys of `join_gossip_map` away, to every
address at most `DATA_REDISTRIBUTE_THRESHOLD` at a time, and when the map is empty it
removes the keys of `join_remove_set`.  So `⌈m / DATA_REDISTRIBUTE_THRESHOLD⌉` turns
should do for `m` keys.

The keys that were sent are taken out of a copy of the set, and an address with more of
them stays as it is (`remaining_large`): the loop sends it the same keys for ever, and
removes none.  `redistribution_drains_iff` says when all is well: then one turn does.
-/
namespace Testbed.Anna

open Std (ExtTreeMap ExtTreeSet)
open Lib
open AddressKeysetMap List Std.ExtTreeMap

/-! ## The largest set of keys -/

namespace AddressKeysetMap

/-- The size of the largest key set. -/
def largest (m : AddressKeysetMap) : Nat :=
  m.toList.foldr (fun pair n => Nat.max pair.2.size n) 0

variable {m : AddressKeysetMap} {n : Nat}

theorem largest_le_iff : m.largest ≤ n ↔ ∀ pair ∈ m.toList, pair.2.size ≤ n := by
  unfold largest
  generalize m.toList = pairs
  induction pairs with
  | nil => exact iff_of_true (Nat.zero_le n) fun _ hpair => nomatch hpair
  | cons _ _ ih =>
    rw [foldr_cons, Nat.max_le, ih, forall_mem_cons]

theorem largest_empty : largest ∅ = 0 := rfl

end AddressKeysetMap

namespace ServerState
variable {srv : Server}

/-- `⌈m / DATA_REDISTRIBUTE_THRESHOLD⌉`, where `m` is the size of the largest key set. -/
def turnsNeeded (m : AddressKeysetMap) : Nat :=
  (m.largest + dataRedistributeThreshold - 1) / dataRedistributeThreshold

theorem turnsNeeded_pos_iff : 0 < turnsNeeded m ↔ 0 < m.largest := by
  unfold turnsNeeded dataRedistributeThreshold
  omega

/-- `n` turns of the loop without a message: the batches that are passed to
`send_gossip`, and the state at the end. -/
def redistributions : Nat → ServerState srv → Except Fault (List AddressKeysetMap × ServerState srv)
  | 0, s => .ok ([], s)
  | n + 1, s => do
    let t ← s.redistribute
    let (batches, s') ← redistributions n t
    return ((if s.joinGossipMap.isEmpty then [] else [joinBatch s.joinGossipMap]) ++ batches, s')

/-- After at most so many turns every key has been passed to `send_gossip` with every
address that it was for, and both containers are empty. -/
def Drains (s : ServerState srv) : Prop :=
  ∃ n ≤ turnsNeeded s.joinGossipMap, ∃ batches s', s.redistributions n = .ok (batches, s') ∧
    (∀ address key, s.joinGossipMap.Has address key → ∃ batch ∈ batches, batch.Has address key) ∧
    s'.joinGossipMap = ∅ ∧ s'.joinRemoveSet = ∅

/-! ## One turn -/

variable {s s' : ServerState srv} {batches : List AddressKeysetMap}

theorem removeJoined_eq_ok (h : s.removeJoined = .ok s') : s'.joinGossipMap = s.joinGossipMap ∧
      (s.joinGossipMap.isEmpty = true → s'.joinRemoveSet = ∅) := by
  unfold removeJoined at h
  split at h
  · obtain ⟨t, hremove, h⟩ := bind_eq_ok.mp h
    cases h
    refine ⟨?_, fun _ => rfl⟩
    refine foldlM_invariant (fun u => u.joinGossipMap = s.joinGossipMap)
      (fun key _ u u' hu hstep => ?_) rfl hremove
    obtain ⟨serializer, -, hstep⟩ := bind_eq_ok.mp hstep
    cases hstep
    exact hu
  · rename_i hsome
    cases h
    exact ⟨rfl, fun hempty => absurd hempty hsome⟩

theorem removeJoined_returns_iff : (∃ s', s.removeJoined = .ok s') ↔
      (s.joinGossipMap.isEmpty = true → ∀ key ∈ s.joinRemoveSet, s.Removable key) := by
  have hall : (∃ s', s.joinRemoveSet.toList.foldlM removeKey s = .ok s') ↔
      ∀ key ∈ s.joinRemoveSet.toList, s.Removable key :=
    foldlM_remove_returns_iff (fun t key => removeKey_returns_iff)
      (fun t t' key => removeKey_stored) (nodup_toList s.joinRemoveSet)
  simp only [ExtTreeSet.mem_toList] at hall
  unfold removeJoined
  by_cases hempty : s.joinGossipMap.isEmpty = true
  · rw [if_pos hempty, ← hall]
    constructor
    · rintro ⟨_, h⟩ -
      obtain ⟨t, hremove, -⟩ := bind_eq_ok.mp h
      exact ⟨t, hremove⟩
    · intro h
      obtain ⟨t, hremove⟩ := h hempty
      exact ⟨_, bind_eq_ok.mpr ⟨t, hremove, rfl⟩⟩
  · rw [if_neg hempty]
    exact iff_of_true ⟨s, rfl⟩ fun h => absurd h hempty

theorem redistribute_eq_ok (hsome : ¬ s.joinGossipMap.isEmpty = true)
    (h : s.redistribute = .ok s') :
    ∃ t, { s with joinGossipMap := remaining s.joinGossipMap }.sendGossip
        (joinBatch s.joinGossipMap) = .ok t ∧ t.removeJoined = .ok s' ∧
      t.joinGossipMap = remaining s.joinGossipMap ∧ t.joinRemoveSet = s.joinRemoveSet ∧
      t.storedKeyMap = s.storedKeyMap := by
  rw [redistribute, if_neg hsome] at h
  obtain ⟨t, hgossip, h⟩ := bind_eq_ok.mp h
  obtain ⟨u, _, ⟨_, -, rfl⟩, rfl, -⟩ := sendGossip_spec hgossip
  exact ⟨_, hgossip, h, rfl, rfl, rfl⟩

theorem redistribute_map (h : s.redistribute = .ok s') :
    s'.joinGossipMap = remaining s.joinGossipMap ∧
      (¬ s.joinGossipMap.isEmpty = true → s.joinGossipMap.FitsBatch → s'.joinRemoveSet = ∅) := by
  by_cases hsome : s.joinGossipMap.isEmpty = true
  · rw [redistribute, if_pos hsome] at h
    cases h
    refine ⟨?_, fun hne => absurd hsome hne⟩
    have hfits : (remaining s.joinGossipMap).isEmpty = true := by
      rw [isEmpty_iff.mp hsome]
      rfl
    rw [isEmpty_iff.mp hsome] at hfits ⊢
    exact (isEmpty_iff.mp hfits).symm
  · obtain ⟨t, -, hremove, hmap, -⟩ := redistribute_eq_ok hsome h
    obtain ⟨hsame, hcleared⟩ := removeJoined_eq_ok hremove
    refine ⟨hsame.trans hmap, fun _ hfits => hcleared ?_⟩
    rw [hmap]
    exact remaining_isEmpty_iff.mpr hfits

/-- **One turn** gets to its end just if all the serializers that it needs exist. -/
theorem redistribute_returns_iff (hsome : ¬ s.joinGossipMap.isEmpty = true) :
    (∃ s', s.redistribute = .ok s') ↔
      (∀ address key, (joinBatch s.joinGossipMap).Has address key → s.TypedKey key) ∧
      (s.joinGossipMap.FitsBatch → ∀ key ∈ s.joinRemoveSet, s.Removable key) := by
  have hgossip : (∃ t, { s with joinGossipMap := remaining s.joinGossipMap }.sendGossip
      (joinBatch s.joinGossipMap) = .ok t) ↔
        ∀ address key, (joinBatch s.joinGossipMap).Has address key → s.TypedKey key :=
    sendGossip_returns_iff
  have hremove : ∀ t : ServerState srv, t.joinGossipMap = remaining s.joinGossipMap →
      t.joinRemoveSet = s.joinRemoveSet → t.storedKeyMap = s.storedKeyMap →
      ((∃ s', t.removeJoined = .ok s') ↔
        (s.joinGossipMap.FitsBatch → ∀ key ∈ s.joinRemoveSet, s.Removable key)) := by
    intro t hmap hset hstored
    rw [removeJoined_returns_iff, hmap, hset, remaining_isEmpty_iff]
    unfold Removable
    rw [hstored]
  constructor
  · rintro ⟨s', h⟩
    obtain ⟨t, hsend, hrest, hmap, hset, hstored⟩ := redistribute_eq_ok hsome h
    exact ⟨hgossip.mp ⟨t, hsend⟩, (hremove t hmap hset hstored).mp ⟨s', hrest⟩⟩
  · rintro ⟨htyped, hremovable⟩
    obtain ⟨t, hsend⟩ := hgossip.mpr htyped
    obtain ⟨u, _, ⟨_, -, hu⟩, ht, -⟩ := sendGossip_spec hsend
    obtain ⟨s', hs'⟩ := (hremove t (by rw [ht, hu]; rfl) (by rw [ht, hu]; rfl)
      (by rw [ht, hu]; rfl)).mpr hremovable
    refine ⟨s', ?_⟩
    rw [redistribute, if_neg hsome]
    exact bind_eq_ok.mpr ⟨t, hsend, hs'⟩

/-! ## Any number of turns -/

theorem redistributions_succ (h : s.redistributions (n + 1) = .ok (batches, s')) :
    ∃ t rest, s.redistribute = .ok t ∧ t.redistributions n = .ok (rest, s') := by
  obtain ⟨t, hturn, h⟩ := bind_eq_ok.mp h
  obtain ⟨⟨rest, u⟩, hrest, h⟩ := bind_eq_ok.mp h
  cases h
  exact ⟨t, rest, hturn, hrest⟩

theorem redistributions_large {address : Address} {keys : ExtTreeSet Key}
    (hget : s.joinGossipMap[address]? = some keys)
    (hlarge : dataRedistributeThreshold < keys.size) (h : s.redistributions n = .ok (batches, s')) :
    s'.joinGossipMap[address]? = some keys := by
  induction n generalizing s batches with
  | zero =>
    cases h
    exact hget
  | succ _ ih =>
    obtain ⟨t, _, hturn, hrest⟩ := redistributions_succ h
    refine ih ?_ hrest
    rw [(redistribute_map hturn).1]
    exact remaining_large hget hlarge

/-- **When a redistribution drains**: there is nothing to send and nothing to remove;
or there is something to send, no address has more keys than are sent at once, and of
the keys to send those that are stored, and of the keys to remove all, are stored with
a type other than `NONE`. -/
theorem redistribution_drains_iff (s : ServerState srv) :
    s.Drains ↔ (s.joinGossipMap = ∅ ∧ s.joinRemoveSet = ∅) ∨
      (0 < s.joinGossipMap.largest ∧ s.joinGossipMap.largest ≤ dataRedistributeThreshold ∧
        (∀ address key, s.joinGossipMap.Has address key → s.TypedKey key) ∧
        ∀ key ∈ s.joinRemoveSet, s.Removable key) := by
  constructor
  · rintro ⟨n, _, _, _, hturns, -, hmap, hset⟩
    cases n with
    | zero =>
      cases hturns
      exact .inl ⟨hmap, hset⟩
    | succ =>
      have hpos : 0 < s.joinGossipMap.largest := turnsNeeded_pos_iff.mp (by omega)
      have hsome : ¬ s.joinGossipMap.isEmpty = true := by
        intro hempty
        rw [isEmpty_iff.mp hempty, largest_empty] at hpos
        exact absurd hpos (lt_irrefl 0)
      have hfits : s.joinGossipMap.FitsBatch := by
        rintro ⟨address, _⟩ hpair
        by_contra hlarge
        have hstays := redistributions_large
          (mem_toList_iff_getElem?_eq_some.mp hpair) (not_le.mp hlarge) hturns
        rw [hmap, getElem?_empty] at hstays
        cases hstays
      obtain ⟨t, _, hturn, -⟩ := redistributions_succ hturns
      obtain ⟨htyped, hremovable⟩ := (redistribute_returns_iff hsome).mp ⟨t, hturn⟩
      exact .inr ⟨hpos, largest_le_iff.mpr hfits,
        fun address key hhas => htyped address key (has_joinBatch_of_fits hfits hhas),
        hremovable hfits⟩
  · rintro (⟨hmap, hset⟩ | ⟨hpos, hle, htyped, hremovable⟩)
    · refine ⟨0, Nat.zero_le _, [], s, rfl, fun address key hhas => ?_, hmap, hset⟩
      rw [hmap] at hhas
      exact absurd hhas not_has_empty
    · have hfits := largest_le_iff.mp hle
      have hsome : ¬ s.joinGossipMap.isEmpty = true := by
        intro hempty
        rw [isEmpty_iff.mp hempty, largest_empty] at hpos
        exact absurd hpos (lt_irrefl 0)
      have hbatch : ∀ address key, (joinBatch s.joinGossipMap).Has address key →
          s.joinGossipMap.Has address key := by
        intro address key hhas
        obtain ⟨pair, hpair, rfl, hkey⟩ := has_joinBatch.mp hhas
        exact has_iff.mpr ⟨pair.2, hpair, ExtTreeSet.mem_toList.mp (mem_of_mem_take hkey)⟩
      obtain ⟨t, hturn⟩ := (redistribute_returns_iff hsome).mpr
        ⟨fun address key hhas => htyped address key (hbatch address key hhas), fun _ => hremovable⟩
      obtain ⟨hmap, hset⟩ := redistribute_map hturn
      refine ⟨1, turnsNeeded_pos_iff.mpr hpos, _, t,
        bind_eq_ok.mpr ⟨t, hturn, bind_eq_ok.mpr ⟨([], t), rfl, rfl⟩⟩, ?_, ?_, hset hsome hfits⟩
      · intro _ _ hhas
        rw [if_neg hsome]
        exact ⟨_, mem_cons_self, has_joinBatch_of_fits hfits hhas⟩
      · rw [hmap]
        exact isEmpty_iff.mp (remaining_isEmpty_iff.mpr hfits)

/-! ## One key too many -/

/-- `n` keys: the empty one, `"k"`, `"kk"` and so on. -/
def keysUpTo (n : Nat) : ExtTreeSet Key :=
  ExtTreeSet.ofList ((List.range n).map fun i => String.ofList (List.replicate i 'k'))

theorem size_keysUpTo (n : Nat) : (keysUpTo n).size = n := by
  rw [keysUpTo, ExtTreeSet.size_ofList, length_map, length_range]
  refine pairwise_map.mpr (pairwise_lt_range.imp fun {i j} hlt heq => ?_)
  have hlength := congrArg String.length (Std.compare_eq_iff_eq.mp heq)
  simp only [String.length_ofList, length_replicate] at hlength
  omega

/-- A joined thread is due 51 keys: after any number of turns it still is. -/
theorem fifty_one_keys_stay : ¬ ∀ (srv : Server) (s : ServerState srv), s.Drains := by
  obtain ⟨codecs, repCodec⟩ := exists_codecs
  intro hall
  let s := { soloState codecs repCodec ∅ with
    joinGossipMap := (∅ : AddressKeysetMap).insert "joined" (keysUpTo 51) }
  obtain ⟨n, -, _, _, hturns, -, hmap, -⟩ := hall _ s
  have hget : s.joinGossipMap["joined"]? = some (keysUpTo 51) := getElem?_insert_self
  have hlarge : dataRedistributeThreshold < (keysUpTo 51).size := by
    rw [size_keysUpTo]
    decide
  have hstays := redistributions_large hget hlarge hturns
  rw [hmap, getElem?_empty] at hstays
  cases hstays

end ServerState

end Testbed.Anna
