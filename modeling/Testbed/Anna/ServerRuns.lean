import Testbed.Anna.GossipBatches

/-! # Runs of a server thread

The loop of `run` in `server.cpp` hands each message to its handler and now and
then gossips and redistributes; a run is a list of such `Event`s.

Most of what the handlers do loses no data: `Update` lists these elementary
changes, and the handlers that do nothing else are sequences of them
(`step_updates`).  What remains are the clearing of `local_changeset` after a round
and the removal of keys, in a replication change and in a redistribution.
-/
namespace Testbed.Anna

open Std Lib

/-- One part of a turn of the loop: a message for a handler, or one of the two
parts that need none. -/
inductive Event where
  | userRequest (now : Nat) (request : KeyRequest)
  | gossip (gossip : KeyRequest)
  | replicationResponse (now : Nat) (response : KeyResponse)
  | replicationChange (updates : List ReplicationFactor)
  | nodeJoin (serialized : String)
  | nodeDepart (serialized : String)
  | gossipRound
  | redistribute

/-- The event is neither a round of gossip nor one that can remove keys. -/
def Event.Keeps : Event → Prop
  | .gossipRound | .redistribute | .replicationChange _ => False
  | _ => True

namespace ServerState
variable {srv : Server}

/-- Process an event. -/
def step (s : ServerState srv) : Event → Except Fault (ServerState srv)
  | .userRequest now request => s.userRequestHandler now request
  | .gossip gossip => s.gossipHandler gossip
  | .replicationResponse now response => s.replicationResponseHandler now response
  | .replicationChange updates => s.replicationChangeHandler updates
  | .nodeJoin serialized => s.nodeJoinHandler serialized
  | .nodeDepart serialized => s.nodeDepartHandler serialized
  | .gossipRound => s.gossipRound
  | .redistribute => s.redistribute

/-! ## Changes that lose no data -/

/-- An elementary change that loses no data and leaves alone what decides where keys
belong: the rings, the factors, and the keys that wait for redistribution. -/
inductive Touch (s : ServerState srv) : ServerState srv → Prop where
  | beside {s' : ServerState srv} (h : s' = { s with
      seed := s'.seed, accessCount := s'.accessCount, pendingRequests := s'.pendingRequests,
      pendingGossip := s'.pendingGossip, keyAccessTracker := s'.keyAccessTracker,
      keyToCacheIps := s'.keyToCacheIps, sent := s'.sent }) : Touch s s'
  | read {store : srv.Store} (hread : srv.serializers.Reads s.store store) :
    Touch s { s with store }
  | merge {s' : ServerState srv} {key : Key} {type : LatticeType} {payload : String}
    (htype : s.typeMismatch key type = false) (hput : s.processPut key type payload = .ok s') :
    Touch s s'
  | mark (key : Key) : Touch s (s.markChanged key)

/-- Any number of them. -/
def Touches : ServerState srv → ServerState srv → Prop := Relation.ReflTransGen Touch

/-- An elementary change that loses no data.  `aside` covers all that concerns
neither stored values nor the keys changed; replication factors are only ever
added. -/
inductive Update (s : ServerState srv) : ServerState srv → Prop where
  | aside {s' : ServerState srv} (hstore : s'.store = s.store)
    (hstored : s'.storedKeyMap = s.storedKeyMap) (hchanged : s'.localChangeset = s.localChangeset)
    (hknown : ∀ key ∈ s.keyReplicationMap, key ∈ s'.keyReplicationMap) : Update s s'
  | read {store : srv.Store} (hread : srv.serializers.Reads s.store store) :
    Update s { s with store }
  | merge {s' : ServerState srv} {key : Key} {type : LatticeType} {payload : String}
    (htype : s.typeMismatch key type = false) (hput : s.processPut key type payload = .ok s') :
    Update s s'
  | mark (key : Key) : Update s (s.markChanged key)

/-- Any number of them. -/
def Updates : ServerState srv → ServerState srv → Prop := Relation.ReflTransGen Update

variable {s s' : ServerState srv} {now : Nat} {key : Key}

namespace Updates

variable {s'' : ServerState srv}

theorem trans (h : s.Updates s') (h' : s'.Updates s'') :
    s.Updates s'' := Relation.ReflTransGen.trans h h'

theorem single (h : s.Update s') : s.Updates s' :=
  Relation.ReflTransGen.single h

theorem aside (hstore : s'.store = s.store) (hstored : s'.storedKeyMap = s.storedKeyMap)
    (hchanged : s'.localChangeset = s.localChangeset)
    (hknown : s'.keyReplicationMap = s.keyReplicationMap) : s.Updates s' :=
  single (.aside hstore hstored hchanged fun _ h => hknown ▸ h)

end Updates

variable {type : LatticeType}

theorem processPut_eq_ok {payload : String} (h : s.processPut key type payload = .ok s') :
    ∃ serializer, srv.serializers.entry type = some serializer ∧ s' = { s with
        store := (serializer.put s.store key payload).2
        storedKeyMap :=
          s.storedKeyMap.insert key ⟨(serializer.put s.store key payload).1, type⟩ } := by
  obtain ⟨serializer, hat, h⟩ := bind_eq_ok.mp h
  cases h
  exact ⟨serializer, SerializerMap.at_eq_ok.mp hat, rfl⟩

namespace Touches

theorem refl (s : ServerState srv) : s.Touches s := Relation.ReflTransGen.refl

theorem trans (h : s.Touches s') (h' : s'.Touches s'') :
    s.Touches s'' := Relation.ReflTransGen.trans h h'

theorem single (h : s.Touch s') : s.Touches s' :=
  Relation.ReflTransGen.single h

theorem beside (h : s' = { s with
    seed := s'.seed, accessCount := s'.accessCount, pendingRequests := s'.pendingRequests,
    pendingGossip := s'.pendingGossip, keyAccessTracker := s'.keyAccessTracker,
    keyToCacheIps := s'.keyToCacheIps, sent := s'.sent }) : s.Touches s' :=
  single (.beside h)

theorem of_readTo (h : s.ReadTo s') : s.Touches s' := by
  obtain ⟨_, hreads, rfl⟩ := h
  exact single (.read hreads)

theorem updates (h : s.Touches s') : s.Updates s' := by
  refine Relation.ReflTransGen.mono ?_ _ _ h
  intro t _ ht
  cases ht with
  | beside h =>
    rw [h]
    exact .aside rfl rfl rfl fun _ hk => hk
  | read hread => exact .read hread
  | merge htype hput => exact .merge htype hput
  | mark key => exact .mark key

theorem frame (h : s.Touches s') :
    s'.toRingMaps = s.toRingMaps ∧ s'.keyReplicationMap = s.keyReplicationMap ∧
      s'.joinRemoveSet = s.joinRemoveSet ∧ s'.joinGossipMap = s.joinGossipMap := by
  induction h with
  | refl => exact ⟨rfl, rfl, rfl, rfl⟩
  | tail _ ht ih =>
    cases ht with
    | beside h =>
      rw [h]
      exact ih
    | read => exact ih
    | merge _ hput =>
      obtain ⟨_, -, rfl⟩ := processPut_eq_ok hput
      exact ih
    | mark => exact ih

end Touches

theorem sendGossip_touches {batch : AddressKeysetMap} (h : s.sendGossip batch = .ok s') :
    s.Touches s' := by
  obtain ⟨_, _, hread, rfl, -⟩ := sendGossip_spec h
  exact (Touches.of_readTo hread).trans (.beside rfl)

/-! ## Requests -/

theorem Works.touches (h : s.Works key s') : s.Touches s' := by
  induction h with
  | idle => exact .refl s
  | read hat =>
    exact .single (.read (Relation.ReflTransGen.single
      ⟨_, _, key, SerializerMap.at_eq_ok.mp hat, rfl⟩))
  | merge hmatch hput => exact .single (.merge hmatch hput)
  | mark _ ih => exact ih.trans (.single (.mark key))
  | track _ _ ih => exact ih.trans (.beside rfl)

/-- The key is a metadata key, or its factors are there. -/
def Known (s : ServerState srv) (key : Key) : Prop :=
  isMetadata key = .ok true ∨ key ∈ s.keyReplicationMap

/-- The key is in `stored_key_map` or in `local_changeset`. -/
def Kept (s : ServerState srv) (key : Key) : Prop := key ∈ s.storedKeyMap ∨ key ∈ s.localChangeset

/-- No data is lost, and keys come in only if they are known. -/
def Admits (s s' : ServerState srv) : Prop :=
  s.Touches s' ∧ ∀ key, s'.Kept key → s.Kept key ∨ s.Known key

theorem known_of_succeed {tiers : List Tier} {lookup : Lookup}
    (hlookup : s.getResponsibleThreads key tiers = .ok lookup)
    (hsucceed : lookup.succeed = true) : s.Known key := by
  obtain ⟨metadata, hmetadata, -⟩ := bind_eq_ok.mp hlookup
  cases metadata with
  | true => exact .inl hmetadata
  | false =>
    obtain ⟨_, hrep⟩ := exists_factors_of_succeed hmetadata hlookup hsucceed
    exact .inr (ExtTreeMap.mem_iff_isSome_getElem?.mpr (by rw [hrep]; rfl))

/-- Work on a key brings in this key only. -/
theorem Works.kept (h : s.Works key s') {k : Key} (hk : s'.Kept k) : k = key ∨ s.Kept k := by
  induction h with
  | idle => exact .inr hk
  | read => exact .inr hk
  | merge _ hput =>
    obtain ⟨_, -, rfl⟩ := processPut_eq_ok hput
    rcases hk with hk | hk
    · exact (ExtTreeMap.mem_insert.mp hk).imp (fun h => (Std.compare_eq_iff_eq.mp h).symm) Or.inl
    · exact .inr (.inr hk)
  | mark _ ih =>
    rcases hk with hk | hk
    · exact ih (.inl hk)
    · exact (ExtTreeSet.mem_insert.mp hk).elim
        (fun heq => .inl (Std.compare_eq_iff_eq.mp heq).symm) fun hk => ih (.inr hk)
  | track _ _ ih => exact ih hk

namespace Admits

theorem known (h : s.Admits s') : s'.Known key ↔ s.Known key := by
  rw [Known, Known, h.1.frame.2.1]

theorem refl (s : ServerState srv) : s.Admits s := ⟨.refl s, fun _ => Or.inl⟩

theorem trans (h : s.Admits s') (h' : s'.Admits s'') : s.Admits s'' :=
  ⟨h.1.trans h'.1, fun key hkey => (h'.2 key hkey).elim (h.2 key) (Or.inr ∘ h.known.mp)⟩

theorem beside (h : s' = { s with
    seed := s'.seed, accessCount := s'.accessCount, pendingRequests := s'.pendingRequests,
    pendingGossip := s'.pendingGossip, keyAccessTracker := s'.keyAccessTracker,
    keyToCacheIps := s'.keyToCacheIps, sent := s'.sent }) : s.Admits s' :=
  ⟨.beside h, fun key hkey => .inl (by rw [h] at hkey; exact hkey)⟩

theorem works (hknown : s.Known key) (h : s.Works key s') : s.Admits s' := by
  refine ⟨h.touches, fun k hk => ?_⟩
  rcases h.kept hk with rfl | hk
  · exact .inr hknown
  · exact .inl hk

theorem afterLookup (s : ServerState srv) (lookup : Lookup) : s.Admits (s.afterLookup lookup) :=
  .beside rfl

theorem issue (h : s.issueReplicationFactorRequest key = .ok s') : s.Admits s' := by
  obtain ⟨⟨_, _⟩, -, h⟩ := bind_eq_ok.mp h
  cases h
  exact .beside rfl

theorem waits {P Q R : Prop} {lookup : Lookup} (h : P ∧ s' = s.afterLookup lookup ∨
    Q ∧ R ∧ (s.afterLookup lookup).issueReplicationFactorRequest key = .ok s') : s.Admits s' := by
  rcases h with ⟨-, rfl⟩ | ⟨-, -, hissue⟩
  · exact .afterLookup s lookup
  · exact (afterLookup s lookup).trans (.issue hissue)

theorem foldlM_fst {α β : Type} {f : ServerState srv × β → α → Except Fault (ServerState srv × β)}
    {l : List α} {acc acc' : ServerState srv × β}
    (hstep : ∀ a t t', f t a = .ok t' → t.1.Admits t'.1) (h : l.foldlM f acc = .ok acc') :
    acc.1.Admits acc'.1 :=
  foldlM_invariant (fun t => acc.1.Admits t.1) (fun a _ t t' ht ha => ht.trans (hstep a t t' ha))
    (refl acc.1) h

end Admits

variable {tuple : KeyTuple} {request : KeyRequest} {answered : List KeyTuple}

theorem userRequestTuple_admits {answered' : List KeyTuple}
    (h : userRequestTuple now request (s, answered) tuple = .ok (s', answered')) :
    s.Admits s' := by
  obtain ⟨lookup, hlookup, ⟨hsucceed, -, _, hserve, -⟩ | ⟨-, -, -, rfl, -⟩ | ⟨_, rfl, -, hs₁⟩⟩ :=
    userRequestTuple_cases h
  · have hknown := known_of_succeed hlookup hsucceed
    exact (Admits.afterLookup s lookup).trans (.works hknown (userServe_works hserve).1)
  · exact .afterLookup s lookup
  · exact (Admits.waits hs₁).trans (.beside rfl)

theorem userRequest_rest {pre post : List KeyTuple} {t : ServerState srv}
    (h : s.userRequestHandler now request = .ok s') (htuples : request.tuples = pre ++ post)
    (hpre : pre.foldlM (userRequestTuple now request) (s, []) = .ok (t, answered)) :
    t.Admits s' := by
  obtain ⟨⟨s₁, _⟩, hfold, h⟩ := bind_eq_ok.mp h
  rw [htuples] at hfold
  obtain ⟨_, hpre', hpost⟩ := foldlM_append_eq_ok.mp hfold
  rw [hpre] at hpre'
  cases hpre'
  have hadmits := Admits.foldlM_fst (fun tuple t t' ht => userRequestTuple_admits ht) hpost
  dsimp only at h
  split at h <;> cases h
  · exact hadmits.trans (.beside rfl)
  · exact hadmits

theorem userRequestHandler_admits (h : s.userRequestHandler now request = .ok s') : s.Admits s' :=
  userRequest_rest h (List.nil_append _).symm rfl

/-! ## Replication responses -/

variable {request : PendingRequest}

theorem completeRequest_admits {responsible : Bool} (hknown : s.Known key)
    (h : completeRequest now key responsible s request = .ok s') : s.Admits s' := by
  obtain ⟨-, -, rfl⟩ | ⟨-, -, hsilent⟩ | ⟨-, -, _, _, hprocess, rfl⟩ | ⟨-, -, rfl⟩ :=
    completeRequest_cases h
  · exact .beside rfl
  · exact .works hknown (pendingSilent_works hsilent)
  · exact (Admits.works hknown (pendingProcess_works hprocess).1).trans (.beside rfl)
  · exact .refl _

theorem Admits.foldlM {α : Type} {f : ServerState srv → α → Except Fault (ServerState srv)}
    {l : List α} (hknown : s.Known key)
    (hstep : ∀ a t t', t.Known key → f t a = .ok t' → t.Admits t') (h : l.foldlM f s = .ok s') :
    s.Admits s' :=
  foldlM_invariant s.Admits
    (fun a _ t t' ht ha => ht.trans (hstep a t t' (ht.known.mpr hknown) ha)) (refl s) h

theorem completeRequests_admits (h : s.completeRequests now key = .ok s') : s.Admits s' := by
  unfold completeRequests at h
  split at h
  · cases h
    exact .refl s
  · obtain ⟨lookup, hlookup, h⟩ := bind_eq_ok.mp h
    obtain ⟨s₁, hall, h⟩ := bind_eq_ok.mp h
    cases h
    refine (Admits.afterLookup s lookup).trans (Admits.trans ?_ (.beside (s := s₁) rfl))
    unfold completeAll at hall
    split at hall
    · rename_i hsucceed
      have hknown := known_of_succeed hlookup hsucceed
      exact .foldlM hknown (fun request t t' ht hstep => completeRequest_admits ht hstep) hall
    · cases hall
      exact .refl _

theorem completeGossip_admits (h : s.completeGossip key = .ok s') : s.Admits s' := by
  unfold completeGossip at h
  split at h
  · cases h
    exact .refl s
  · obtain ⟨lookup, hlookup, h⟩ := bind_eq_ok.mp h
    obtain ⟨s₁, hall, h⟩ := bind_eq_ok.mp h
    cases h
    refine (Admits.afterLookup s lookup).trans (Admits.trans ?_ (.beside (s := s₁) rfl))
    unfold completeGossipAll at hall
    split at hall
    · rename_i hsucceed
      have hknown := known_of_succeed hlookup hsucceed
      split at hall
      · exact .foldlM hknown
          (fun gossip t t' ht hitem => .works ht (completeGossipItem_works hitem)) hall
      · cases hall
        exact .beside rfl
    · cases hall
      exact .refl _

variable {response : KeyResponse}

/-- A response brings factors, and then the pending requests for the key are
completed; or it asks again; or it does nothing. -/
theorem replicationResponseHandler_cases (h : s.replicationResponseHandler now response = .ok s') :
    ∃ tuple rest, response.tuples = tuple :: rest ∧
      (((tuple.error = .noError ∨ tuple.error = .keyDne) ∧ (s.learnFactors tuple).Admits s') ∨
        s.Admits s') := by
  unfold replicationResponseHandler at h
  split at h
  · cases h
  · rename_i tuple rest htuples
    have hlearned : (s.learnFactors tuple).completePending now (getKeyFromMetadata tuple.key) =
        .ok s' → (s.learnFactors tuple).Admits s' := by
      intro h
      obtain ⟨s₁, hrequests, hgossip⟩ := bind_eq_ok.mp h
      exact (completeRequests_admits hrequests).trans (completeGossip_admits hgossip)
    refine ⟨tuple, rest, htuples, ?_⟩
    split at h
    · rename_i herror
      exact .inl ⟨.inl herror, hlearned h⟩
    · rename_i herror
      exact .inl ⟨.inr herror, hlearned h⟩
    · exact .inr (.issue h)
    · cases h
      exact .inr (.refl s)

theorem replicationResponseHandler_updates
    (h : s.replicationResponseHandler now response = .ok s') : s.Updates s' := by
  obtain ⟨tuple, _, -, ⟨-, hadmits⟩ | hadmits⟩ := replicationResponseHandler_cases h
  · refine Updates.trans ?_ hadmits.1.updates
    obtain ⟨_, _, _, hs₁, hknown, -⟩ := Asks.learnFactors s tuple
    rw [hs₁]
    exact .single (.aside rfl rfl rfl hknown)
  · exact hadmits.1.updates

/-! ## Gossip -/

theorem gossipPut_works (h : s.gossipPut tuple = .ok s') : s.Works tuple.key s' := by
  unfold gossipPut at h
  split at h
  · rename_i property hstored
    split at h
    · cases h
      exact .idle
    · rename_i htype
      refine .merge ?_ h
      simp only [typeMismatch, hstored, not_not.mp htype, ne_eq, not_true_eq_false, decide_false,
        Bool.and_false]
  · rename_i hstored
    refine .merge ?_ h
    simp [typeMismatch, hstored]

/-- **The ways of gossip**: this thread takes it, it forwards gossip about metadata keys of
other threads, or the gossip waits. -/
theorem gossipTuple_cases {m m' : ExtTreeMap Address KeyRequest}
    (h : gossipTuple (s, m) tuple = .ok (s', m')) :
    ∃ lookup, s.getResponsibleThreads tuple.key [srv.selfTier] = .ok lookup ∧
      ((lookup.succeed = true ∧ srv.wt.isIn lookup.threads = true ∧
          (s.afterLookup lookup).gossipPut tuple = .ok s') ∨
        (lookup.succeed = true ∧ srv.wt.isIn lookup.threads = false ∧
          isMetadata tuple.key = .ok true ∧ s' = s.afterLookup lookup) ∨
        (∃ s₁, s' = s₁.pushGossip tuple.key ⟨tuple.latticeType, tuple.payload⟩ ∧
          (lookup.succeed = false ∧ s₁ = s.afterLookup lookup ∨
            lookup.succeed = true ∧ srv.wt.isIn lookup.threads = false ∧
              (s.afterLookup lookup).issueReplicationFactorRequest tuple.key = .ok s₁))) := by
  obtain ⟨lookup, hlookup, h⟩ := bind_eq_ok.mp h
  refine ⟨lookup, hlookup, ?_⟩
  split at h
  · rename_i hsucceed
    split at h
    · rename_i hin
      obtain ⟨s₁, hput, h⟩ := bind_eq_ok.mp h
      cases h
      exact .inl ⟨hsucceed, hin, hput⟩
    · rename_i hin
      have hnotIn := Bool.eq_false_iff.mpr hin
      obtain ⟨metadata, hmetadata, h⟩ := bind_eq_ok.mp h
      cases metadata with
      | true =>
        cases h
        exact .inr (.inl ⟨hsucceed, hnotIn, hmetadata, rfl⟩)
      | false =>
        obtain ⟨s₁, hissue, h⟩ := bind_eq_ok.mp h
        cases h
        exact .inr (.inr ⟨s₁, rfl, .inr ⟨hsucceed, hnotIn, hissue⟩⟩)
  · rename_i hsucceed
    cases h
    exact .inr (.inr ⟨_, rfl, .inl ⟨Bool.eq_false_iff.mpr hsucceed, rfl⟩⟩)

theorem gossipTuple_admits {m m' : ExtTreeMap Address KeyRequest}
    (h : gossipTuple (s, m) tuple = .ok (s', m')) : s.Admits s' := by
  obtain ⟨lookup, hlookup, ⟨hsucceed, -, hput⟩ | ⟨-, -, -, rfl⟩ | ⟨_, rfl, hs₁⟩⟩ :=
    gossipTuple_cases h
  · have hknown := known_of_succeed hlookup hsucceed
    exact (Admits.afterLookup s lookup).trans (.works hknown (gossipPut_works hput))
  · exact .afterLookup s lookup
  · exact (Admits.waits hs₁).trans (.beside rfl)

theorem gossipHandler_admits {gossip : KeyRequest} (h : s.gossipHandler gossip = .ok s') :
    s.Admits s' := by
  obtain ⟨⟨s₁, m⟩, hfold, h⟩ := bind_eq_ok.mp h
  cases h
  have htuples := Admits.foldlM_fst (fun tuple t t' ht => gossipTuple_admits ht) hfold
  exact htuples.trans (.beside rfl)

/-- **All other events lose nothing.** -/
theorem step_updates {e : Event} (h : s.step e = .ok s') (he : e.Keeps) : s.Updates s' := by
  cases e with
  | userRequest => exact (userRequestHandler_admits h).1.updates
  | gossip => exact (gossipHandler_admits h).1.updates
  | replicationResponse => exact replicationResponseHandler_updates h
  | nodeJoin =>
    obtain ⟨node, _, -, _, _, _, _, rfl⟩ := nodeJoinHandler_queues h
    exact .aside rfl rfl rfl rfl
  | nodeDepart =>
    obtain ⟨_, _, -, rfl⟩ := nodeDepartHandler_eq_ok h
    exact .aside rfl rfl rfl rfl
  | replicationChange => exact he.elim
  | gossipRound => exact he.elim
  | redistribute => exact he.elim

end ServerState

end Testbed.Anna
