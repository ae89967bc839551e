import Testbed.Anna.ExactlyOnce
import Testbed.Anna.Propagation

/-! # Keys with known factors

A thread stores a key, or marks it as changed, only after a lookup of the key has succeeded, and
it never forgets factors.  So no loop over the keys that it has meets one without factors: the
branches that log `Missing key replication factor` are never taken.
-/
namespace Testbed.Anna

open Std Lib ExtTreeSet

namespace ServerState
variable {srv : Server}

/-- The thread knows the keys that it keeps. -/
def FactorsKnown (s : ServerState srv) : Prop := ∀ key, s.Kept key → s.Known key

variable {σ : Type} {body : σ → Key → Except Fault σ} {stateOf : σ → ServerState srv}
  {tiers : List Tier} {keys : List Key} {start : σ}

/-- Some turn of a loop over keys looks its key up and does not find the factors. -/
def Misses (body : σ → Key → Except Fault σ) (stateOf : σ → ServerState srv) (tiers : List Tier)
    (keys : List Key) (start : σ) : Prop :=
  ∃ done key todo t lookup, keys = done ++ key :: todo ∧ done.foldlM body start = .ok t ∧
    (stateOf t).getResponsibleThreads key tiers = .ok lookup ∧ lookup.succeed = false

/-- **A missing factor is logged**, whatever was sent before the loop.  A replication change looks a
stored key up before and after it takes the new factors. -/
inductive LogsMissing (s : ServerState srv) : Prop where
  | gossipRound (h : Misses roundKey Prod.fst kAllTiers s.localChangeset.toList (s, ∅))
  | nodeJoin {node : NodeMessage} {joinCount : Int} {notices : List (Address × Message)}
    (h : Misses (joinKey node joinCount) id [srv.selfTier] s.storedKeyMap.keys
      ((s.withNode node joinCount).send notices))
  | selfDepart {notices : List (Address × Message)}
    (h : Misses departKey Prod.fst kAllTiers s.storedKeyMap.keys
      ((s.withoutNode srv.node).send notices, ∅))
  | replicationChange {notices : List (Address × Message)} {done : List ReplicationFactor}
    {t u : ServerState srv} {handover : Handover} {keyRep : ReplicationFactor}
    {orig lookup : Lookup} (hdone : done.foldlM changeKey (s.send notices, {}) = .ok (t, handover))
    (hstored : keyRep.key ∈ t.storedKeyMap)
    (hu : u = t ∨ u = (t.afterLookup orig).updateFactors keyRep)
    (hlookup : u.getResponsibleThreads keyRep.key kAllTiers = .ok lookup)
    (hmissing : lookup.succeed = false)

variable {s s' : ServerState srv} {key : Key} {lookup : Lookup}

/-! ## What the events keep -/

namespace FactorsKnown

theorem mono (h : s.FactorsKnown) (hkept : ∀ k, s'.Kept k → s.Kept k)
    (hfactors : ∀ k ∈ s.keyReplicationMap, k ∈ s'.keyReplicationMap) : s'.FactorsKnown :=
  fun k hk => (h k (hkept k hk)).imp_right (hfactors k)

theorem asks {changed : Key → Prop} (h : s.FactorsKnown) (hasks : Asks changed s s') :
    s'.FactorsKnown := by
  obtain ⟨_, _, _, rfl, hmem, -⟩ := hasks
  exact h.mono (fun _ hk => hk) hmem

theorem admits (h : s.FactorsKnown) (hadmits : s.Admits s') : s'.FactorsKnown :=
  fun key hkey => hadmits.known.mpr ((hadmits.2 key hkey).elim (h key) id)

theorem sendGossip {batch : AddressKeysetMap} (h : s.FactorsKnown)
    (hsend : s.sendGossip batch = .ok s') : s'.FactorsKnown := by
  obtain ⟨t, _, ⟨_, -, rfl⟩, rfl, -⟩ := sendGossip_spec hsend
  exact h

theorem removeKey (h : s.FactorsKnown) (hremove : s.removeKey key = .ok s') : s'.FactorsKnown := by
  obtain ⟨_, _, -, rfl⟩ := removeKey_eq_ok hremove
  exact h.mono (fun k hk => hk.imp_left fun hk => (ExtTreeMap.mem_erase.mp hk).2) fun _ hk => hk

theorem redistribute (h : s.FactorsKnown) (hstep : s.redistribute = .ok s') : s'.FactorsKnown := by
  unfold ServerState.redistribute at hstep
  split at hstep
  · cases hstep
    exact h
  · obtain ⟨s₁, hsend, hstep⟩ := bind_eq_ok.mp hstep
    have hsent := sendGossip (s := { s with
      joinGossipMap := (removeAddresses s.joinGossipMap).foldl ExtTreeMap.erase s.joinGossipMap })
      h hsend
    unfold removeJoined at hstep
    split at hstep
    · obtain ⟨s₂, hremove, hstep⟩ := bind_eq_ok.mp hstep
      cases hstep
      have hremoved :=
        foldlM_invariant FactorsKnown (fun _ _ _ _ ht hkey => ht.removeKey hkey) hsent hremove
      exact hremoved
    · cases hstep
      exact hsent

theorem removeChanged (h : s.FactorsKnown) (hstep : s.removeChanged key = .ok s') :
    s'.FactorsKnown := by
  obtain ⟨_, hremove, hstep⟩ := bind_eq_ok.mp hstep
  cases hstep
  exact (h.removeKey hremove).mono
    (fun k hk => hk.imp_right fun hk => (mem_erase.mp hk).2) fun _ hk => hk

/-- **Every event** keeps the keys known. -/
theorem step {e : Event} (h : s.FactorsKnown) (hstep : s.step e = .ok s') : s'.FactorsKnown := by
  cases e with
  | userRequest => exact h.admits (userRequestHandler_admits hstep)
  | gossip => exact h.admits (gossipHandler_admits hstep)
  | replicationResponse =>
    obtain ⟨tuple, _, -, ⟨-, hadmits⟩ | hadmits⟩ := replicationResponseHandler_cases hstep
    · exact (h.asks (Asks.learnFactors s tuple)).admits hadmits
    · exact h.admits hadmits
  | replicationChange =>
    obtain ⟨notices, s₁, _, s₂, -, hfold, hsend, hremove⟩ := replicationChangeHandler_eq_ok hstep
    have hasked := asks (s := s.send notices) h (changeKeys_spec hfold).1
    exact foldlM_invariant FactorsKnown (fun _ _ _ _ ht hkey => ht.removeChanged hkey)
      (hasked.sendGossip hsend) hremove
  | nodeJoin =>
    obtain ⟨node, _, -, _, _, _, _, rfl⟩ := nodeJoinHandler_queues hstep
    exact h
  | nodeDepart =>
    obtain ⟨_, _, -, rfl⟩ := nodeDepartHandler_eq_ok hstep
    exact h
  | gossipRound =>
    change s.gossipRound = .ok s' at hstep
    unfold gossipRound at hstep
    split at hstep
    · cases hstep
      exact h
    · obtain ⟨⟨_, _⟩, hfold, hstep⟩ := bind_eq_ok.mp hstep
      obtain ⟨_, hsend, hstep⟩ := bind_eq_ok.mp hstep
      cases hstep
      exact ((h.asks (roundKeys_spec hfold).1).sendGossip hsend).mono
        (fun k hk => hk.imp_right fun hk => absurd hk not_mem_empty) fun _ hk => hk
  | redistribute => exact h.redistribute hstep

end FactorsKnown

/-! ## Loops over the keys -/

/-- A loop that forgets no factors misses nothing. -/
theorem not_misses (hstep : ∀ key t t', body t key = .ok t' → ∀ k, (stateOf t).Known k →
    (stateOf t').Known k) (hkeys : ∀ key ∈ keys, (stateOf start).Known key) :
    ¬ Misses body stateOf tiers keys start := by
  rintro ⟨done, key, _, t, _, rfl, hdone, hlookup, hmissing⟩
  have hknown :=
    foldlM_invariant (fun t => (stateOf t).Known key) (fun k _ t t' ht hk => hstep k t t' hk key ht)
      (hkeys key (List.mem_append_right done List.mem_cons_self)) hdone
  rw [hknown.succeed hlookup] at hmissing
  cases hmissing

theorem FactorsKnown.not_logsMissing (h : s.FactorsKnown) : ¬ s.LogsMissing := by
  intro hlogs
  have hstored : ∀ key ∈ s.storedKeyMap.keys, s.Known key :=
    fun key hkey => h key (Or.inl (ExtTreeMap.mem_keys.mp hkey))
  cases hlogs with
  | gossipRound hmisses =>
    refine not_misses (fun key t t' hkey k hk => ?_) (fun key hkey => ?_) hmisses
    · exact hk.imp_right (roundKey_spec hkey).1.known
    · exact h key (Or.inr (mem_toList.mp hkey))
  | nodeJoin hmisses =>
    refine not_misses (fun key t t' hkey k hk => ?_) hstored hmisses
    obtain ⟨_, _, _, _, rfl⟩ := joinKey_queues hkey
    exact hk
  | selfDepart hmisses =>
    refine not_misses (fun key t t' hkey k hk => ?_) hstored hmisses
    obtain ⟨lookup, -, hkey⟩ := bind_eq_ok.mp hkey
    cases hkey
    exact hk
  | @replicationChange notices done t u _ keyRep orig lookup hdone hkey hu hlookup hmissing =>
    have hknown :=
      FactorsKnown.asks (s := s.send notices) h (changeKeys_spec hdone).1 _ (Or.inl hkey)
    have hknown : u.Known keyRep.key := by
      rcases hu with rfl | rfl
      · exact hknown
      · exact hknown.imp_right (Asks.updateFactors (t.afterLookup orig) keyRep).known
    rw [hknown.succeed hlookup] at hmissing
    cases hmissing

end ServerState

/-- **Stored keys have known factors**: a run that starts with empty maps gets only to states in
which every key of `stored_key_map` or `local_changeset` is a metadata key or has factors, and in
which no loop logs a missing factor. -/
theorem factors_always_known {srv : Server} {s s' : ServerState srv} {events : List Event}
    (hstored : s.storedKeyMap = ∅) (hchanged : s.localChangeset = ∅)
    (hrun : events.foldlM ServerState.step s = .ok s') :
    (∀ key, key ∈ s'.storedKeyMap ∨ key ∈ s'.localChangeset →
      isMetadata key = .ok true ∨ key ∈ s'.keyReplicationMap) ∧ ¬ s'.LogsMissing := by
  have hstart : s.FactorsKnown := by
    rintro _ (hkey | hkey)
    · rw [hstored] at hkey
      exact absurd hkey ExtTreeMap.not_mem_empty
    · rw [hchanged] at hkey
      exact absurd hkey not_mem_empty
  have hknown :=
    foldlM_invariant ServerState.FactorsKnown (fun _ _ _ _ ht hstep => ht.step hstep) hstart hrun
  exact ⟨hknown, hknown.not_logsMissing⟩

/-- A memory node on its own defers a GET and then answers it. -/
theorem factors_known_solo : ∃ (srv : Server) (s s' : ServerState srv) (response : KeyResponse),
      [Event.userRequest 0 getOfK, .replicationResponse 1 response].foldlM ServerState.step s =
        .ok s' ∧ s'.FactorsKnown ∧ ¬ s'.LogsMissing := by
  obtain ⟨codecs, repCodec⟩ := exists_codecs
  obtain ⟨s', hrun⟩ := soloState_defers codecs repCodec
  exact ⟨_, _, s', _, hrun, factors_always_known rfl rfl hrun⟩

end Testbed.Anna
