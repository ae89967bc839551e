import Testbed.Anna.Propagation
import Testbed.Anna.Redistribution
import Testbed.Anna.RingWalks

/-! # Removals that wait

A join puts the keys that it moves elsewhere into `join_remove_set`, and a later
redistribution removes them.  In between the thread goes on: a departure can give a
key back to the thread, and a replication change can give it back or remove it.  The
redistribution does not look again (`key_given_back_is_removed`).

Other joins only take keys away (`TierCovers.of_insert`), and so the keys that wait
are safe as long as no departure and no change of factors concerns them
(`removals_safe`).
-/
namespace Testbed.Anna

open Std Lib Std.ExtTreeMap Std.ExtTreeSet

namespace ServerState
variable {srv : Server}

/-! ## Where a key belongs -/

/-- The tier and the factors with which the thread looks for the replicas of a key in
its own tier. -/
def placement (s : ServerState srv) (key : Key) : Option (Tier × Nat × Nat) :=
  match isMetadata key with
  | .ok true => some (.memory, kMetadataReplicationFactor, srv.defaultLocalReplication)
  | .ok false => s.keyReplicationMap[key]?.map fun rep =>
    (srv.selfTier, rep.globalAt srv.selfTier, rep.localAt srv.selfTier)
  | .error _ => none

/-- The rings and the factors put the key on this thread. -/
def Assigned (s : ServerState srv) (key : Key) : Prop :=
  ∃ tier globalRep localRep, s.placement key = some (tier, globalRep, localRep) ∧
    TierCovers key globalRep localRep (s.globalHashRings tier) (s.localHashRings tier) srv.wt

variable {key : Key} {s s' : ServerState srv}

theorem exists_placement {lookup : Lookup}
    (hlookup : s.getResponsibleThreads key [srv.selfTier] = .ok lookup)
    (hsucceed : lookup.succeed = true) :
    ∃ tier globalRep localRep, s.placement key = some (tier, globalRep, localRep) ∧
      tierThreads key globalRep localRep (s.globalHashRings tier) (s.localHashRings tier) =
        .ok lookup.threads := by
  obtain ⟨metadata, hkey, h⟩ := bind_eq_ok.mp hlookup
  cases metadata with
  | true =>
    obtain ⟨threads, hthreads, h⟩ := bind_eq_ok.mp h
    cases h
    exact ⟨_, _, _, by rw [placement, hkey], hthreads⟩
  | false =>
    obtain ⟨_, hrep⟩ := exists_factors_of_succeed hkey hlookup hsucceed
    obtain ⟨_, hthreads, rfl⟩ := (getResponsibleThreads_eq_ok hkey hrep).mp hlookup
    rw [responsibleThreads_one] at hthreads
    exact ⟨_, _, _, by rw [placement, hkey, hrep]; rfl, hthreads⟩

theorem isIn_lookup_iff {lookup : Lookup}
    (hlookup : s.getResponsibleThreads key [srv.selfTier] = .ok lookup)
    (hsucceed : lookup.succeed = true) : srv.wt.isIn lookup.threads = true ↔ s.Assigned key := by
  obtain ⟨tier, globalRep, localRep, hplacement, hthreads⟩ := exists_placement hlookup hsucceed
  rw [isIn_tierThreads hthreads]
  constructor
  · exact fun hcovers => ⟨tier, globalRep, localRep, hplacement, hcovers⟩
  · rintro ⟨_, _, _, hplacement', hcovers⟩
    rw [hplacement] at hplacement'
    cases hplacement'
    exact hcovers

theorem Responsible.assigned (h : s.Responsible key) : s.Assigned key := by
  obtain ⟨_, hlookup, hsucceed, hin⟩ := h
  exact (isIn_lookup_iff hlookup hsucceed).mp hin

theorem assigned_congr (hrings : s'.toRingMaps = s.toRingMaps)
    (hfactors : s'.keyReplicationMap[key]? = s.keyReplicationMap[key]?) :
    s'.Assigned key ↔ s.Assigned key := by
  have hglobal := congrArg RingMaps.globalHashRings hrings
  have hlocal := congrArg RingMaps.localHashRings hrings
  unfold Assigned placement
  rw [hfactors, hglobal, hlocal]

/-- **Joins of other nodes give no key to this thread.** -/
theorem Assigned.of_join {node : NodeMessage} {joinCount : Int}
    (hother : srv.wt.privateIp ≠ node.privateIp ∨
      (ServerThread.mk node.publicIp node.privateIp 0 0).id ∈
        (s.globalHashRings node.tier).members) (h :
    (s.withNode node joinCount).Assigned key) : s.Assigned key := by
  obtain ⟨tier, globalRep, localRep, hplacement, hcovers⟩ := h
  refine ⟨tier, globalRep, localRep, hplacement, ?_⟩
  by_cases htier : tier = node.tier
  · subst htier
    simp only [withNode, setGlobalRing, Function.update_self] at hcovers
    exact hcovers.of_insert hother
  · simp only [withNode, setGlobalRing, Function.update_of_ne htier] at hcovers
    exact hcovers

/-! ## Safe removals -/

variable (s)

/-- The redistribution sends the rest of `join_gossip_map` and gets to the removals. -/
def GetsToRemovals : Prop :=
  ¬ s.joinGossipMap.isEmpty = true ∧
    ∃ t, { s with joinGossipMap := remaining s.joinGossipMap }.sendGossip
        (joinBatch s.joinGossipMap) = .ok t ∧ t.joinGossipMap.isEmpty = true

/-- Whenever the run comes to a redistribution that removes keys, all of them are
stored, with a serializer, and none of them belongs to this thread. -/
def SafeRemovals (events : List Event) : Prop :=
  ∀ pre post t, events = pre ++ .redistribute :: post → pre.foldlM step s = .ok t →
    t.GetsToRemovals → ∀ key ∈ t.joinRemoveSet, t.Removable key ∧ ¬ t.Responsible key

/-- What has to hold of a message so that it spares the keys that wait for removal.
* A join is not about this thread's own node, unless its ring has the node already.
* Without the departing node, the rings still put none of these keys on this thread.
* A replication change or response brings factors for none of these keys. -/
def Spares : Event → Prop
  | .nodeJoin serialized => ∀ node joinCount, parseJoin serialized = .ok (node, joinCount) →
    srv.wt.privateIp ≠ node.privateIp ∨
      (ServerThread.mk node.publicIp node.privateIp 0 0).id ∈ (s.globalHashRings node.tier).members
  | .nodeDepart serialized => ∀ node, parseDepart serialized = .ok node →
    ∀ key ∈ s.joinRemoveSet, ¬ (s.withoutNode node).Assigned key
  | .replicationChange updates => ∀ key ∈ s.joinRemoveSet, key ∉ updates.map (·.key)
  | .replicationResponse _ response => ∀ tuple rest, response.tuples = tuple :: rest →
    tuple.error = .noError ∨ tuple.error = .keyDne →
    getKeyFromMetadata tuple.key ∉ s.joinRemoveSet
  | _ => True

/-- The invariant: all keys that wait are stored, and none belongs to this thread. -/
structure Waiting : Prop where
  typed : s.StoredTyped
  stored : ∀ key ∈ s.joinRemoveSet, key ∈ s.storedKeyMap
  foreign : ∀ key ∈ s.joinRemoveSet, ¬ s.Assigned key

variable {s}

namespace Waiting
variable {s : ServerState srv}

theorem removable (h : s.Waiting) (hkey : key ∈ s.joinRemoveSet) : s.Removable key := by
  obtain ⟨property, hstored⟩ :=
    Option.isSome_iff_exists.mp (mem_iff_isSome_getElem?.mp (h.stored key hkey))
  exact ⟨property, hstored, h.typed key property hstored⟩

end Waiting

theorem StoredTyped.update (h : s.StoredTyped) (hupdate : s.Update s') :
    s'.StoredTyped ∧ ∀ key ∈ s.storedKeyMap, key ∈ s'.storedKeyMap := by
  cases hupdate with
  | aside _ hstored =>
    unfold StoredTyped
    rw [hstored]
    exact ⟨h, fun _ hk => hk⟩
  | read => exact ⟨h, fun _ hk => hk⟩
  | mark => exact ⟨h, fun _ hk => hk⟩
  | @merge _ key type payload _ hput =>
    obtain ⟨_, hentry, rfl⟩ := processPut_eq_ok hput
    refine ⟨fun key' property hproperty => ?_, fun key' hk => mem_insert.mpr (.inr hk)⟩
    rw [getElem?_insert] at hproperty
    split at hproperty
    · cases hproperty
      intro htype
      rw [srv.serializers.entry_eq_none.mpr htype] at hentry
      cases hentry
    · exact h key' property hproperty

theorem StoredTyped.updates (h : s.StoredTyped) (hupdates : s.Updates s') :
    s'.StoredTyped ∧ ∀ key ∈ s.storedKeyMap, key ∈ s'.storedKeyMap := by
  induction hupdates with
  | refl => exact ⟨h, fun _ hk => hk⟩
  | tail _ hupdate ih =>
    obtain ⟨htyped, hkeeps⟩ := ih.1.update hupdate
    exact ⟨htyped, fun key hk => hkeeps key (ih.2 key hk)⟩

theorem StoredTyped.of_erase (h : s.StoredTyped) (keys : List Key)
    (hstored : s'.storedKeyMap = keys.foldl ExtTreeMap.erase s.storedKeyMap) : s'.StoredTyped := by
  intro key property hproperty
  rw [hstored, getElem?_eraseAll] at hproperty
  split at hproperty
  · cases hproperty
  · exact h key property hproperty

namespace Waiting
variable {s s' : ServerState srv}

theorem touches (h : s.Waiting) (htouches : s.Touches s') : s'.Waiting := by
  obtain ⟨hrings, hfactors, hremove, -⟩ := htouches.frame
  obtain ⟨htyped, hkeeps⟩ := h.typed.updates htouches.updates
  refine ⟨htyped, fun key hk => ?_, fun key hk => ?_⟩
  · exact hkeeps key (h.stored key (hremove ▸ hk))
  · rw [assigned_congr hrings (by rw [hfactors])]
    exact h.foreign key (hremove ▸ hk)

theorem asks {changed : Key → Prop} (h : s.Waiting) (hasks : Asks changed s s')
    (hspared : ∀ key ∈ s.joinRemoveSet, ¬ changed key) : s'.Waiting := by
  obtain ⟨_, _, _, hs', -, hsame⟩ := hasks
  have hrings : s'.toRingMaps = s.toRingMaps := by rw [hs']
  have hset : s'.joinRemoveSet = s.joinRemoveSet := by rw [hs']
  have hfactors : ∀ key ∈ s.joinRemoveSet,
      s'.keyReplicationMap[key]? = s.keyReplicationMap[key]? := by
    intro key hk
    rw [hs']
    exact hsame key (hspared key hk)
  refine ⟨by rw [hs']; exact h.typed, by rw [hs']; exact h.stored, fun key hk => ?_⟩
  rw [hset] at hk
  rw [assigned_congr hrings (hfactors key hk)]
  exact h.foreign key hk

theorem removeChanged (h : s.Waiting) (hother : key ∉ s.joinRemoveSet)
    (hstep : s.removeChanged key = .ok s') : s'.Waiting ∧ s'.joinRemoveSet = s.joinRemoveSet := by
  have hstored := removeChanged_stored hstep
  obtain ⟨_, hremove, hstep⟩ := bind_eq_ok.mp hstep
  obtain ⟨_, _, -, rfl⟩ := removeKey_eq_ok hremove
  cases hstep
  refine ⟨⟨h.typed.of_erase [key] hstored, fun k hk => ?_, fun k hk hassigned => ?_⟩, rfl⟩
  · refine mem_erase.mpr ⟨?_, h.stored k hk⟩
    rw [ne_eq, Std.compare_eq_iff_eq]
    rintro rfl
    exact hother hk
  · exact h.foreign k hk ((assigned_congr rfl rfl).mp hassigned)

theorem joinKey (node : NodeMessage) (joinCount : Int) (h : s.Waiting)
    (hkey : key ∈ s.storedKeyMap) (hstep : joinKey node joinCount s key = .ok s') : s'.Waiting := by
  obtain ⟨lookup, hlookup, hstep⟩ := bind_eq_ok.mp hstep
  have hwaits := h.touches (Admits.afterLookup s lookup).1
  split at hstep
  · rename_i hsucceed
    split at hstep
    · cases hstep
      exact ⟨hwaits.typed, hwaits.stored, hwaits.foreign⟩
    · split at hstep
      · rename_i hout
        cases hstep
        have hcases : ∀ k ∈ s.joinRemoveSet.insert key, k = key ∨ k ∈ s.joinRemoveSet := by
          intro k hk
          rw [ExtTreeSet.mem_insert, Std.compare_eq_iff_eq] at hk
          exact hk.imp_left Eq.symm
        refine ⟨hwaits.typed, fun k hk => ?_, fun k hk => ?_⟩
        · rcases hcases k hk with rfl | hk
          · exact hkey
          · exact h.stored k hk
        · rcases hcases k hk with rfl | hk
          · exact mt (isIn_lookup_iff hlookup hsucceed).mpr hout.2
          · exact h.foreign k hk
      · cases hstep
        exact hwaits
  · cases hstep
    exact hwaits

variable {serialized : String}

theorem nodeJoin (h : s.Waiting) (hspares : s.Spares (.nodeJoin serialized))
    (hstep : s.nodeJoinHandler serialized = .ok s') : s'.Waiting := by
  obtain ⟨node, joinCount, t, hparse, hqueues, hremove, hloop⟩ := nodeJoinHandler_eq_ok hstep
  have hother := hspares node joinCount hparse
  have hwaits : t.Waiting ∧ t.storedKeyMap = s.storedKeyMap := by
    obtain ⟨_, _, _, _, rfl⟩ := hqueues
    refine ⟨⟨h.typed, fun key hk => h.stored key (hremove ▸ hk), fun key hk hassigned => ?_⟩, rfl⟩
    exact h.foreign key (hremove ▸ hk) (.of_join hother ((assigned_congr rfl rfl).mp hassigned))
  rcases hloop with rfl | ⟨-, hloop⟩
  · exact hwaits.1
  · refine (foldlM_invariant (fun u => u.Waiting ∧ u.storedKeyMap = s.storedKeyMap)
      (fun key hk u u' hu hstep => ?_) hwaits hloop).1
    refine ⟨hu.1.joinKey node joinCount (by rw [hu.2]; exact mem_keys.mp hk) hstep, ?_⟩
    obtain ⟨_, _, _, _, rfl⟩ := joinKey_queues hstep
    exact hu.2

theorem nodeDepart (h : s.Waiting) (hspares : s.Spares (.nodeDepart serialized))
    (hstep : s.nodeDepartHandler serialized = .ok s') : s'.Waiting := by
  obtain ⟨node, _, hparse, rfl⟩ := nodeDepartHandler_eq_ok hstep
  exact ⟨h.typed, h.stored, fun key hk =>
    mt (assigned_congr rfl rfl).mp (hspares node hparse key hk)⟩

theorem replicationChange {updates : List ReplicationFactor} (h : s.Waiting)
    (hspares : s.Spares (.replicationChange updates))
    (hstep : s.replicationChangeHandler updates = .ok s') : s'.Waiting := by
  obtain ⟨notices, _, handover, s₂, -, hfold, hsend, hremove⟩ :=
    replicationChangeHandler_eq_ok hstep
  obtain ⟨hasks, -, hunmentioned, -⟩ := changeKeys_spec hfold
  have hwaits : (s.send notices).Waiting := h.touches (.beside rfl)
  have hwaits₂ := (hwaits.asks hasks hspares).touches (sendGossip_touches hsend)
  have hset : s₂.joinRemoveSet = s.joinRemoveSet := by
    rw [(sendGossip_touches hsend).frame.2.2.1]
    obtain ⟨_, _, _, rfl, -⟩ := hasks
    rfl
  -- only keys of the message are removed
  have hother : ∀ key ∈ handover.removeSet.toList, key ∉ s.joinRemoveSet := by
    intro key hkey hwaiting
    have hnone := (hunmentioned key (hspares key hwaiting)).mp (ExtTreeSet.mem_toList.mp hkey)
    exact ExtTreeSet.not_mem_empty hnone
  refine (foldlM_invariant (fun t => t.Waiting ∧ t.joinRemoveSet = s.joinRemoveSet)
    (fun key hk t t' ht hstep => ?_) ⟨hwaits₂, hset⟩ hremove).1
  obtain ⟨hwaits', hset'⟩ := ht.1.removeChanged (ht.2 ▸ hother key hk) hstep
  exact ⟨hwaits', hset'.trans ht.2⟩

theorem redistribute (h : s.Waiting) (hstep : s.redistribute = .ok s') : s'.Waiting := by
  by_cases hsome : s.joinGossipMap.isEmpty = true
  · rw [ServerState.redistribute, if_pos hsome] at hstep
    cases hstep
    exact h
  · obtain ⟨t, hsend, hremove, -⟩ := redistribute_eq_ok hsome hstep
    have hrest : { s with joinGossipMap := remaining s.joinGossipMap }.Waiting :=
      ⟨h.typed, h.stored, fun key hk hassigned =>
        h.foreign key hk ((assigned_congr rfl rfl).mp hassigned)⟩
    have hwaits := hrest.touches (sendGossip_touches hsend)
    unfold removeJoined at hremove
    split at hremove
    · obtain ⟨u, hfold, hremove⟩ := bind_eq_ok.mp hremove
      cases hremove
      have hstored := foldlM_view (fun t => t.storedKeyMap) ExtTreeMap.erase
        (fun key _ t t' hstep => removeKey_stored hstep) hfold
      exact ⟨hwaits.typed.of_erase _ hstored, fun key hk => absurd hk ExtTreeSet.not_mem_empty,
        fun key hk => absurd hk ExtTreeSet.not_mem_empty⟩
    · cases hremove
      exact hwaits

theorem gossipRound (h : s.Waiting) (hstep : s.gossipRound = .ok s') : s'.Waiting := by
  unfold ServerState.gossipRound at hstep
  split at hstep
  · cases hstep
    exact h
  · obtain ⟨⟨_, _⟩, hfold, hstep⟩ := bind_eq_ok.mp hstep
    obtain ⟨_, hsend, hstep⟩ := bind_eq_ok.mp hstep
    cases hstep
    have hwaits := (h.asks (roundKeys_spec hfold).1 fun _ _ hno => hno).touches
      (sendGossip_touches hsend)
    exact ⟨hwaits.typed, hwaits.stored, fun key hk hassigned =>
      hwaits.foreign key hk ((assigned_congr rfl rfl).mp hassigned)⟩

theorem replicationResponse {now : Nat} {response : KeyResponse} (h : s.Waiting)
    (hspares : s.Spares (.replicationResponse now response))
    (hstep : s.replicationResponseHandler now response = .ok s') : s'.Waiting := by
  obtain ⟨tuple, rest, htuples, ⟨herror, hadmits⟩ | hadmits⟩ :=
    replicationResponseHandler_cases hstep
  · refine (h.asks (Asks.learnFactors s tuple) fun key hk hkey => ?_).touches hadmits.1
    exact hspares tuple rest htuples herror (hkey ▸ hk)
  · exact h.touches hadmits.1

/-- **One event** keeps the invariant. -/
theorem step {e : Event} (h : s.Waiting) (hspares : s.Spares e) (hstep : s.step e = .ok s') :
    s'.Waiting := by
  cases e with
  | userRequest => exact h.touches (userRequestHandler_admits hstep).1
  | gossip => exact h.touches (gossipHandler_admits hstep).1
  | replicationResponse => exact h.replicationResponse hspares hstep
  | replicationChange => exact h.replicationChange hspares hstep
  | nodeJoin => exact h.nodeJoin hspares hstep
  | nodeDepart => exact h.nodeDepart hspares hstep
  | gossipRound => exact h.gossipRound hstep
  | redistribute => exact h.redistribute hstep

end Waiting

end ServerState

open ServerState

/-- **Only keys that may be removed are removed**, in every run that starts with
nothing to remove and whose events all spare the keys that wait. -/
theorem removals_safe {srv : Server} {s : ServerState srv} {events : List Event}
    (htyped : s.StoredTyped) (hnone : s.joinRemoveSet = ∅)
    (hspares : ∀ pre e post t, events = pre ++ e :: post → pre.foldlM step s = .ok t → t.Spares e) :
    s.SafeRemovals events := by
  have hstart : s.Waiting := by
    refine ⟨htyped, fun key hk => ?_, fun key hk => ?_⟩ <;>
    · rw [hnone] at hk
      exact absurd hk ExtTreeSet.not_mem_empty
  intro _ post t heq hpre _ key hk
  have hwaits : t.Waiting := by
    refine foldlM_reachable (fun u => u.Waiting) (fun pre' e post' u u' heq' hu hwaits hstep => ?_)
      hstart hpre
    refine hwaits.step (hspares pre' e (post' ++ .redistribute :: post) u ?_ hu) hstep
    rw [heq, heq', List.append_assoc]
    rfl
  exact ⟨hwaits.removable hk, fun hresponsible => hwaits.foreign key hk hresponsible.assigned⟩

/-! ## A node that joins and departs -/

section
variable {D : Type} [Priority D] {codecs : ValueCodecs D}
  {repCodec : Codec ReplicationFactor} {s : ServerState (pairServer codecs repCodec)}

theorem pair_depart (hview : PairView s (joinedRing (pairServer codecs repCodec).toConfig)) :
    ∃ s', s.step (.nodeDepart "MEMORY:A:a") = .ok s' ∧
      PairView s' ((joinedRing (pairServer codecs repCodec).toConfig).remove "A" "a" 0) ∧
      s'.storedKeyMap = s.storedKeyMap ∧ s'.joinRemoveSet = s.joinRemoveSet ∧
      s'.joinGossipMap = s.joinGossipMap := by
  have hparse : parseDepart "MEMORY:A:a" = .ok ⟨.memory, "A", "a"⟩ := by decide
  let departed := (s.globalHashRings .memory).remove "A" "a" 0
  let notices := (otherWorkers (pairServer codecs repCodec)).map fun th =>
    (th.nodeDepartConnectAddress, Message.text "MEMORY:A:a")
  refine ⟨(s.setGlobalRing .memory departed).send notices,
    bind_eq_ok.mpr ⟨_, hparse, if_pos rfl⟩, ?_, rfl, rfl, rfl⟩
  rw [← hview.memoryRing]
  exact hview.setMemory departed notices

theorem pair_getsToRemovals {size : Nat}
    (hstored : s.storedKeyMap = (∅ : ExtTreeMap Key KeyProperty).insert "k" ⟨size, .lww⟩)
    (hgossip : s.joinGossipMap = AddressKeysetMap.insertKeyFor ∅ [⟨"A", "a", 0, 0⟩] "k") :
    s.GetsToRemovals := by
  have hnonempty : ¬ s.joinGossipMap.isEmpty = true := by
    rw [hgossip]
    decide
  have hdrained : (remaining s.joinGossipMap).isEmpty = true := by
    rw [hgossip]
    decide
  have htyped : { s with joinGossipMap := remaining s.joinGossipMap }.StoredTyped :=
    storedTyped_of_single hstored
  obtain ⟨t, hsend⟩ := sendGossip_returns htyped (joinBatch s.joinGossipMap)
  refine ⟨hnonempty, t, hsend, ?_⟩
  rw [(sendGossip_touches hsend).frame.2.2.2]
  exact hdrained

end

/-- The key that `a` has taken over may be removed. -/
theorem key_taken_over_is_removed :
    ∃ (srv : Server) (s : ServerState srv), s.StoredTyped ∧ s.joinRemoveSet = ∅ ∧
      (∃ s₂ s₃, s.step (.nodeJoin "MEMORY:A:a:0") = .ok s₂ ∧ s₂.GetsToRemovals ∧
        "k" ∈ s₂.joinRemoveSet ∧ s₂.step .redistribute = .ok s₃) ∧
      s.SafeRemovals [.nodeJoin "MEMORY:A:a:0", .redistribute] := by
  obtain ⟨codecs, repCodec⟩ := exists_codecs
  obtain ⟨s, -, -, hview, ⟨_, hstored⟩, -, hgossip, hremove, -⟩ := pairState_merges codecs repCodec
  obtain ⟨s₂, _, hjoin, hview₂, hstored₂, hremove₂, hgossip₂, -⟩ := pair_join hview hstored
  rw [hgossip] at hgossip₂
  rw [hremove] at hremove₂
  obtain ⟨s₃, -, hredistribute, -⟩ :=
    pair_redistributes hview₂ (hstored₂.trans hstored) hgossip₂ hremove₂
  have htyped := storedTyped_of_single hstored
  refine ⟨_, s, htyped, hremove, ⟨s₂, s₃, hjoin, pair_getsToRemovals (hstored₂.trans hstored)
    hgossip₂, ?_, hredistribute⟩, removals_safe htyped hremove ?_⟩
  · rw [hremove₂]
    exact mem_insert_self
  · rintro (_ | ⟨e, _ | ⟨_, _⟩⟩) _ _ t heq _
    · cases heq
      intro _ _ hparse
      have hnode : parseJoin "MEMORY:A:a:0" = .ok (⟨.memory, "A", "a"⟩, 0) := by decide
      cases hparse
      exact .inl (by decide : "b" ≠ "a")
    · cases heq
      trivial
    · simp at heq

/-- **A key that comes back is removed all the same.**  The memory node `a` takes the
key over from `b` and departs before the redistribution: `b` is its only replica in
the memory tier, and removes it. -/
theorem key_given_back_is_removed :
    ¬ ∀ (srv : Server) (s : ServerState srv) (events : List Event), s.StoredTyped →
      s.joinRemoveSet = ∅ → s.SafeRemovals events := by
  intro hall
  obtain ⟨codecs, repCodec⟩ := exists_codecs
  obtain ⟨s, -, -, hview, ⟨_, hstored⟩, -, hgossip, hremove, -⟩ := pairState_merges codecs repCodec
  obtain ⟨s₂, _, hjoin, hview₂, hstored₂, hremove₂, hgossip₂, -⟩ := pair_join hview hstored
  obtain ⟨s₃, hdepart, hview₃, hstored₃, hremove₃, hgossip₃⟩ := pair_depart hview₂
  rw [hgossip] at hgossip₂
  have hkey : "k" ∈ s₃.joinRemoveSet := by
    rw [hremove₃, hremove₂]
    exact mem_insert_self
  have hsafe := hall _ s [.nodeJoin "MEMORY:A:a:0", .nodeDepart "MEMORY:A:a", .redistribute]
    (storedTyped_of_single hstored) hremove [.nodeJoin "MEMORY:A:a:0", .nodeDepart "MEMORY:A:a"] []
    s₃ rfl (foldlM_cons_eq_ok.mpr ⟨s₂, hjoin, foldlM_cons_eq_ok.mpr ⟨s₃, hdepart, rfl⟩⟩)
    (pair_getsToRemovals (hstored₃.trans (hstored₂.trans hstored)) (hgossip₃.trans hgossip₂))
    "k" hkey
  have hin : (ServerThread.mk "B" "b" 0 0).isIn [⟨"B", "b", 0, 0⟩] = true := by decide
  exact hsafe.2 ⟨_, hview₃.lookup_memory (departedRing_turn rfl), rfl, hin⟩

end Testbed.Anna
