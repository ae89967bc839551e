import Testbed.Anna.ServerRuns
import Testbed.Anna.SmallClusters

/-! # Accepted PUTs reach the other replicas

A PUT that a thread merges is to reach all other replicas: its key stays in
`local_changeset` and in the store until the thread has sent a value that includes
the payload to every other thread that is responsible for the key, in any tier.

What is `Held` stays held through every `Update`.  A round of gossip, a replication
change and a redistribution may end it, and then they have delivered the value, if
they are `Careful`: `accepted_put_propagates` says so for whole runs.  The
redistribution after a join is not always: it sends the keys to its own tier only,
and then removes them (`accepted_put_lost`).
-/
namespace Testbed.Anna

open Std Lib List

/-- What a PUT writes. -/
structure Write where
  key : Key
  type : LatticeType
  payload : String

/-- The store's value of the key includes the payload: it was merged into the key,
and since then values have only been read, merged, or removed under other keys. -/
inductive Carries {σ : Type} (serializers : SerializerMap σ) (w : Write) : σ → Prop where
  | merged {store : σ} {serializer : Serializer σ}
    (hentry : serializers.entry w.type = some serializer) :
    Carries serializers w (serializer.put store w.key w.payload).2
  | read {store store' : σ} (h : Carries serializers w store)
    (hread : serializers.Read store store') : Carries serializers w store'
  | put {store : σ} {type : LatticeType} {serializer : Serializer σ} {key : Key} {payload : String}
    (h : Carries serializers w store) (hentry : serializers.entry type = some serializer)
    (htype : key = w.key → type = w.type) :
    Carries serializers w (serializer.put store key payload).2
  | remove {store : σ} {type : LatticeType} {serializer : Serializer σ} {key : Key}
    (h : Carries serializers w store) (hentry : serializers.entry type = some serializer)
    (hkey : key ≠ w.key) : Carries serializers w (serializer.remove store key)

theorem Carries.reads {σ : Type} {serializers : SerializerMap σ} {w : Write} {store store' : σ}
    (h : Carries serializers w store) (hreads : serializers.Reads store store') :
    Carries serializers w store' := by
  induction hreads with
  | refl => exact h
  | tail _ hread ih => exact ih.read hread

/-- The tuple has a value for the key that includes the payload. -/
def Includes {σ : Type} (serializers : SerializerMap σ) (w : Write) (tuple : KeyTuple) : Prop :=
  tuple.key = w.key ∧ tuple.latticeType = w.type ∧
    ∃ serializer store, serializers.entry w.type = some serializer ∧ Carries serializers w store ∧
      (serializer.get store w.key).1 = (tuple.payload, .noError)

namespace ServerState
variable {srv : Server} {w : Write}

/-- In the step from `s` to `s'`, a value that includes the payload is sent to the
thread. -/
def SendsTo (s s' : ServerState srv) (w : Write) (thread : ServerThread) : Prop :=
  ∃ messages request tuple, s'.sent = s.sent ++ messages ∧
    (thread.gossipConnectAddress, Message.keyRequest request) ∈ messages ∧
    request.type = .put ∧ tuple ∈ request.tuples ∧ Includes srv.serializers w tuple

/-- In that step it is sent to every other thread that is responsible for the key. -/
def Delivers (s s' : ServerState srv) (w : Write) : Prop :=
  ∃ lookup, s'.getResponsibleThreads w.key kAllTiers = .ok lookup ∧ lookup.succeed = true ∧
    ∀ thread ∈ lookup.threads, thread.id ≠ srv.wt.id → s.SendsTo s' w thread

variable (s : ServerState srv)

/-- The run has a step from `u` to `u'`. -/
def HasStep (events : List Event) (u u' : ServerState srv) : Prop :=
  ∃ pre e post, events = pre ++ e :: post ∧ pre.foldlM step s = .ok u ∧ u.step e = .ok u'

/-- In the run, a value that includes the payload has been sent to every other thread
that was responsible for the key after one of the steps. -/
def Propagates (events : List Event) (w : Write) : Prop :=
  ∃ u u' lookup, s.HasStep events u u' ∧ u'.getResponsibleThreads w.key kAllTiers = .ok lookup ∧
    lookup.succeed = true ∧
    ∀ thread ∈ lookup.threads, thread.id ≠ srv.wt.id →
      ∃ v v', s.HasStep events v v' ∧ v.SendsTo v' w thread

/-- The call of `user_request_handler` ends in `s'`, and on the way, in the step to
`t`, merges a tuple that writes `w`. -/
def MergesPut (now : Nat) (request : KeyRequest) (w : Write) (t s' : ServerState srv) : Prop :=
  request.type = .put ∧ s.userRequestHandler now request = .ok s' ∧
    ∃ pre tuple post t₀ answered answered', request.tuples = pre ++ tuple :: post ∧
      (⟨tuple.key, tuple.latticeType, tuple.payload⟩ : Write) = w ∧
      pre.foldlM (userRequestTuple now request) (s, []) = .ok (t₀, answered) ∧
      userRequestTuple now request (t₀, answered) tuple = .ok (t, answered') ∧
      t₀.Responsible w.key ∧ w.type ≠ .none ∧ t₀.typeMismatch w.key w.type = false

/-- What has to hold before an event that could lose the write.
* A round of gossip can read the value.
* A replication change that mentions the key does so once, and can read the value.
* A redistribution that will remove the key can read the value, and the key waits to
  be sent to every other thread that is responsible for it in any tier. -/
def Careful (w : Write) : Event → Prop
  | .gossipRound => s.ReadableKey w.key
  | .replicationChange updates =>
    w.key ∈ updates.map (·.key) → (updates.map (·.key)).count w.key = 1 ∧ s.ReadableKey w.key
  | .redistribute =>
    w.key ∈ s.joinRemoveSet → s.joinGossipMap.FitsBatch →
    s.ReadableKey w.key ∧ ∃ lookup, s.getResponsibleThreads w.key kAllTiers = .ok lookup ∧
        ∀ thread ∈ lookup.threads, thread.id ≠ srv.wt.id →
          s.joinGossipMap.Has thread.gossipConnectAddress w.key
  | _ => True

/-! ## Writes that are held -/

/-- The write is still to be gossiped, and its value is there. -/
structure Held (w : Write) : Prop where
  typed : w.type ≠ .none
  changed : w.key ∈ s.localChangeset
  stored : ∃ property, s.storedKeyMap[w.key]? = some property ∧ property.type = w.type
  known : w.key ∈ s.keyReplicationMap
  carries : Carries srv.serializers w s.store

variable {s' : ServerState srv} {key : Key} {s : ServerState srv}

theorem removeKey_eq_ok (h : s.removeKey key = .ok s') :
    ∃ type serializer, srv.serializers.entry type = some serializer ∧ s' = { s with
        store := serializer.remove s.store key
        storedKeyMap := s.storedKeyMap.erase key } := by
  obtain ⟨serializer, hat, h⟩ := bind_eq_ok.mp h
  cases h
  exact ⟨_, serializer, SerializerMap.at_eq_ok.mp hat, rfl⟩

theorem Held.update (hheld : s.Held w) (h : s.Update s') : s'.Held w := by
  cases h with
  | aside hstore hstored hchanged hknown =>
    exact ⟨hheld.typed, hchanged ▸ hheld.changed, hstored ▸ hheld.stored,
      hknown _ hheld.known, hstore ▸ hheld.carries⟩
  | read hreads =>
    exact ⟨hheld.typed, hheld.changed, hheld.stored, hheld.known, hheld.carries.reads hreads⟩
  | @merge _ key type payload htype hput =>
    obtain ⟨property, hproperty, hstored⟩ := hheld.stored
    have hsame : key = w.key → type = w.type := by
      rintro rfl
      simp only [typeMismatch, hproperty, hstored, Bool.and_eq_false_iff, decide_eq_false_iff_not,
        not_not] at htype
      exact (htype.resolve_left hheld.typed).symm
    obtain ⟨_, hentry, rfl⟩ := processPut_eq_ok hput
    refine ⟨hheld.typed, hheld.changed, ?_, hheld.known, hheld.carries.put hentry hsame⟩
    by_cases hkey : key = w.key
    · rw [← hkey, ← hsame hkey]
      exact ⟨_, ExtTreeMap.getElem?_insert_self, rfl⟩
    · refine ⟨property, ?_, hstored⟩
      simp only [ExtTreeMap.getElem?_insert, Std.compare_eq_iff_eq, hkey, if_false, hproperty]
  | mark =>
    exact ⟨hheld.typed, ExtTreeSet.mem_insert.mpr (.inr hheld.changed), hheld.stored,
      hheld.known, hheld.carries⟩

theorem Held.updates (hheld : s.Held w) (h : s.Updates s') : s'.Held w := by
  induction h with
  | refl => exact hheld
  | tail _ hstep ih => exact ih.update hstep

theorem Held.removeKey (hheld : s.Held w) (h : s.removeKey key = .ok s') (hne : key ≠ w.key) :
    s'.Held w := by
  obtain ⟨_, _, hentry, rfl⟩ := removeKey_eq_ok h
  obtain ⟨property, hproperty, hstored⟩ := hheld.stored
  refine ⟨hheld.typed, hheld.changed, ⟨property, ?_, hstored⟩, hheld.known,
    hheld.carries.remove hentry hne⟩
  simp only [ExtTreeMap.getElem?_erase, Std.compare_eq_iff_eq, hne, if_false, hproperty]

theorem Held.includes {tuple : KeyTuple} (hheld : s.Held w) (hof : s.ReadOf w.key tuple) :
    Includes srv.serializers w tuple := by
  obtain ⟨_, serializer, store, hproperty, hentry, hreads, hget, hkey, htype⟩ := hof
  obtain ⟨_, hproperty', hstored⟩ := hheld.stored
  rw [hproperty] at hproperty'
  cases hproperty'
  exact ⟨hkey, htype.trans hstored, serializer, store, hstored ▸ hentry,
    hheld.carries.reads hreads, hget⟩

variable {t : ServerState srv}

theorem MergesPut.held {now : Nat} {request : KeyRequest} (h : s.MergesPut now request w t s')
    (hkey : isMetadata w.key = .ok false) : s'.Held w := by
  obtain ⟨hput, hcall, pre, tuple, _, _, _, answered', htuples, rfl, hpre, hstep, hresp,
    htype, hstored⟩ := h
  have hdone : (pre ++ [tuple]).foldlM (userRequestTuple now request) (s, []) =
      .ok (t, answered') :=
    foldlM_append_eq_ok.mpr ⟨_, hpre, foldlM_cons_eq_ok.mpr ⟨_, hstep, rfl⟩⟩
  refine Held.updates ?_ (userRequest_rest hcall (by rw [htuples, append_cons]) hdone).1.updates
  obtain ⟨_, hlookup, ⟨hsucceed, -, _, hserve, -⟩ | ⟨-, hin, -⟩ | ⟨_, -, -, hwait⟩⟩ :=
    userRequestTuple_cases hstep
  · obtain ⟨_, hrep⟩ := exists_factors_of_succeed hkey hlookup hsucceed
    rw [hput] at hserve
    obtain ⟨⟨_, _⟩, hprocess, hserve⟩ := bind_eq_ok.mp hserve
    cases hserve
    obtain ⟨_, hresult, -⟩ := userPut_result hprocess
    cases hresult with
    | untyped hnone => exact absurd hnone htype
    | mismatch _ hmis => exact absurd (hstored.symm.trans hmis) (by decide)
    | merged _ _ hmerge =>
      obtain ⟨_, hentry, rfl⟩ := processPut_eq_ok hmerge
      refine ⟨htype, ExtTreeSet.mem_insert.mpr (.inl Std.ReflCmp.compare_self),
        ⟨_, ExtTreeMap.getElem?_insert_self, rfl⟩, ?_, .merged hentry⟩
      exact ExtTreeMap.mem_iff_isSome_getElem?.mpr (Option.isSome_of_eq_some hrep)
  · exact absurd hresp (not_responsible hlookup hin)
  · obtain ⟨_, hlookup', hsucceed', hin'⟩ := hresp
    rw [hlookup] at hlookup'
    cases hlookup'
    rcases hwait with ⟨hfail, -⟩ | ⟨-, hin, -⟩
    · rw [hfail] at hsucceed'
      cases hsucceed'
    · rw [hin] at hin'
      cases hin'

/-! ## The three events that can end it -/

theorem Delivers.of_sends (before : List (Address × Message))
    {messages : List (Address × Message)} {threads : List ServerThread} (hheld : t.Held w)
    (hreplicas : s'.Replicas w.key threads) (hsent : s'.sent = s.sent ++ before ++ messages)
    (hsends : ∀ thread ∈ threads, thread.id ≠ srv.wt.id →
      t.SendsKey messages thread.gossipConnectAddress w.key) : s.Delivers s' w := by
  refine ⟨_, hreplicas.lookup, rfl, fun thread hthread hne => ?_⟩
  obtain ⟨request, tuple, hmem, htype, htuple, hof⟩ := hsends thread hthread hne
  exact ⟨before ++ messages, request, tuple, by rw [hsent, append_assoc],
    mem_append_right _ hmem, htype, htuple, hheld.includes hof⟩

theorem Held.asks {changed : Key → Prop} (hheld : s.Held w) (h : Asks changed s s') :
    s'.Held w := by
  obtain ⟨_, _, _, rfl, hmem, -⟩ := h
  exact ⟨hheld.typed, hheld.changed, hheld.stored, hmem _ hheld.known, hheld.carries⟩

theorem gossipRound_delivers (hkey : isMetadata w.key = .ok false) (hheld : s.Held w)
    (hread : s.ReadableKey w.key) (h : s.gossipRound = .ok s') : s.Delivers s' w := by
  unfold gossipRound at h
  split at h
  · rename_i hempty
    have hmem := hheld.changed
    rw [ExtTreeSet.isEmpty_iff.mp hempty] at hmem
    exact absurd hmem ExtTreeSet.not_mem_empty
  · obtain ⟨⟨_, _⟩, hfold, h⟩ := bind_eq_ok.mp h
    obtain ⟨_, hsend, h⟩ := bind_eq_ok.mp h
    cases h
    obtain ⟨hasks, -, hround⟩ := roundKeys_spec hfold
    obtain ⟨_, hreplicas, hhas⟩ :=
      hround w.key (ExtTreeSet.mem_toList.mpr hheld.changed) hkey hheld.known
    obtain ⟨t, _, ⟨_, -, rfl⟩, rfl, -, hsends⟩ := sendGossip_spec hsend
    have hheld₁ := hheld.asks hasks
    have hread₁ := hasks.readableKey hread
    obtain ⟨_, _, asked, rfl, -⟩ := hasks
    exact Delivers.of_sends asked hheld₁ hreplicas rfl
      fun thread hthread hne => hsends _ _ (hhas thread hthread hne) hread₁

/-- `s'` is `s` after removals. -/
def Removes (s s' : ServerState srv) : Prop :=
  ∃ store storedKeyMap localChangeset joinRemoveSet,
    s' = { s with store, storedKeyMap, localChangeset, joinRemoveSet }

variable {f : ServerState srv → Key → Except Fault (ServerState srv)}

theorem Removes.foldlM {keys : List Key} (hstep : ∀ key t t', f t key = .ok t' → t.Removes t')
    (h : keys.foldlM f s = .ok s') : s.Removes s' := by
  refine foldlM_invariant s.Removes (fun key _ t t' ht hkey => ?_) ⟨_, _, _, _, rfl⟩ h
  obtain ⟨_, _, _, _, rfl⟩ := ht
  obtain ⟨_, _, _, _, rfl⟩ := hstep key _ t' hkey
  exact ⟨_, _, _, _, rfl⟩

theorem removeKey_removes (h : s.removeKey key = .ok s') : s.Removes s' := by
  obtain ⟨_, _, -, rfl⟩ := removeKey_eq_ok h
  exact ⟨_, _, _, _, rfl⟩

theorem removeChanged_removes (h : s.removeChanged key = .ok s') : s.Removes s' := by
  obtain ⟨_, hremove, h⟩ := bind_eq_ok.mp h
  cases h
  obtain ⟨_, _, _, _, rfl⟩ := removeKey_removes hremove
  exact ⟨_, _, _, _, rfl⟩

theorem Held.removeChanged (hheld : s.Held w) (h : s.removeChanged key = .ok s')
    (hne : key ≠ w.key) : s'.Held w := by
  obtain ⟨_, hremove, h⟩ := bind_eq_ok.mp h
  cases h
  have hheld₁ := hheld.removeKey hremove hne
  refine ⟨hheld₁.typed, ?_, hheld₁.stored, hheld₁.known, hheld₁.carries⟩
  refine ExtTreeSet.mem_erase.mpr ⟨?_, hheld₁.changed⟩
  rwa [ne_eq, Std.compare_eq_iff_eq]

theorem Held.foldlM {keys : List Key} (hheld : s.Held w)
    (hstep : ∀ {t t' : ServerState srv} {key : Key}, t.Held w → f t key = .ok t' → key ≠ w.key →
      t'.Held w) (h : keys.foldlM f s = .ok s') (hkeys : w.key ∉ keys) : s'.Held w :=
  foldlM_invariant (fun t => t.Held w) (fun _ hmem _ _ ht hkey =>
    hstep ht hkey fun heq => hkeys (heq ▸ hmem)) hheld h

theorem replicationChange_delivers {updates : List ReplicationFactor}
    (hkey : isMetadata w.key = .ok false) (hheld : s.Held w)
    (hcareful : s.Careful w (.replicationChange updates))
    (h : s.replicationChangeHandler updates = .ok s') : s'.Held w ∨ s.Delivers s' w := by
  obtain ⟨notices, _, handover, _, -, hfold, hsend, hremove⟩ := replicationChangeHandler_eq_ok h
  -- the notices of thread 0 to the other workers come first
  have hnotices : Asks (· ∈ updates.map (·.key)) s (s.send notices) :=
    ⟨_, _, _, rfl, fun _ hk => hk, fun _ _ => rfl⟩
  obtain ⟨hasks, -, hunmentioned, hremoved⟩ := changeKeys_spec hfold
  have hasks := hnotices.trans hasks
  by_cases hmem : w.key ∈ handover.removeSet
  · right
    have hmention : w.key ∈ updates.map (·.key) := by
      by_contra hno
      exact absurd ((hunmentioned _ hno).mp hmem) ExtTreeSet.not_mem_empty
    obtain ⟨hcount, hread⟩ := hcareful hmention
    obtain ⟨_, hreplicas, hhas⟩ :=
      hremoved w.key hkey (hnotices.known hheld.known) hcount ExtTreeSet.not_mem_empty hmem
    obtain ⟨t, _, ⟨_, -, rfl⟩, rfl, -, hsends⟩ := sendGossip_spec hsend
    have hheld₁ := hheld.asks hasks
    have hread₁ := hasks.readableKey hread
    obtain ⟨_, _, _, _, rfl⟩ := Removes.foldlM (fun _ _ _ => removeChanged_removes) hremove
    obtain ⟨_, _, asked, rfl, -⟩ := hasks
    exact Delivers.of_sends asked hheld₁ hreplicas rfl
      fun thread hthread _ => hsends _ _ (hhas thread hthread) hread₁
  · left
    have hheld₂ := (hheld.asks hasks).updates (sendGossip_touches hsend).updates
    exact hheld₂.foldlM Held.removeChanged hremove (mt ExtTreeSet.mem_toList.mp hmem)

theorem redistribute_delivers (hkey : isMetadata w.key = .ok false) (hheld : s.Held w)
    (hcareful : s.Careful w .redistribute) (h : s.redistribute = .ok s') :
    s'.Held w ∨ s.Delivers s' w := by
  unfold redistribute at h
  split at h
  · cases h
    exact .inl hheld
  · obtain ⟨s₁, hsend, h⟩ := bind_eq_ok.mp h
    have hheld₁ : s₁.Held w := by
      refine hheld.updates (Updates.trans ?_ (sendGossip_touches hsend).updates)
      exact .aside rfl rfl rfl rfl
    obtain ⟨t, messages, ⟨store, -, rfl⟩, rfl, -, hsends⟩ := sendGossip_spec hsend
    unfold removeJoined at h
    split at h
    · rename_i hempty
      obtain ⟨_, hremove, h⟩ := bind_eq_ok.mp h
      cases h
      by_cases hmem : w.key ∈ s.joinRemoveSet
      · right
        have hfits := remaining_isEmpty_iff.mp hempty
        obtain ⟨hread, _, hlookup, hhas⟩ := hcareful hmem hfits
        obtain ⟨hreplicas, -⟩ := replicas_of_lookup hkey hheld.known hlookup
        obtain ⟨_, _, _, _, rfl⟩ := Removes.foldlM (fun _ _ _ => removeKey_removes) hremove
        exact Delivers.of_sends [] hheld hreplicas (by rw [append_nil]; rfl)
          fun thread hthread hne =>
            hsends _ _ (has_joinBatch_of_fits hfits (hhas thread hthread hne)) hread
      · left
        have hheld₂ := hheld₁.foldlM Held.removeKey hremove (mt ExtTreeSet.mem_toList.mp hmem)
        exact ⟨hheld₂.typed, hheld₂.changed, hheld₂.stored, hheld₂.known, hheld₂.carries⟩
    · cases h
      exact .inl hheld₁

/-- **One event**: a held write stays held, or is delivered. -/
theorem Held.step {e : Event} (hkey : isMetadata w.key = .ok false) (hheld : s.Held w)
    (hcareful : s.Careful w e) (h : s.step e = .ok s') : s'.Held w ∨ s.Delivers s' w := by
  cases e with
  | gossipRound => exact .inr (gossipRound_delivers hkey hheld hcareful h)
  | replicationChange => exact replicationChange_delivers hkey hheld hcareful h
  | redistribute => exact redistribute_delivers hkey hheld hcareful h
  | userRequest | gossip | replicationResponse | nodeJoin | nodeDepart =>
    exact .inl (hheld.updates (step_updates h trivial))

end ServerState

open ServerState

/-- **Accepted PUTs reach the other replicas.**  After a PUT of a data key was
merged, and after any run in which every event is careful about it, the key is still
in `local_changeset` and stored, or a value that includes the payload has been sent
to every other thread that was responsible for the key, in any tier. -/
theorem accepted_put_propagates {srv : Server} {s t s₁ s₂ : ServerState srv} {now : Nat}
    {request : KeyRequest} {w : Write} {events : List Event}
    (hmerge : s.MergesPut now request w t s₁) (hkey : isMetadata w.key = .ok false)
    (hrun : events.foldlM step s₁ = .ok s₂)
    (hcareful : ∀ pre e post u, events = pre ++ e :: post → pre.foldlM step s₁ = .ok u →
      u.Careful w e) :
    (w.key ∈ s₂.localChangeset ∧ w.key ∈ s₂.storedKeyMap) ∨ s₁.Propagates events w := by
  have hstep : ∀ pre e post u u', events = pre ++ e :: post → pre.foldlM step s₁ = .ok u →
      u.step e = .ok u' → u.Held w → u'.Held w ∨ u.Delivers u' w :=
    fun pre e post u u' heq hpre hstep hheld =>
      hheld.step hkey (hcareful pre e post u heq hpre) hstep
  rcases foldlM_until (fun u => u.Held w) (fun u _ u' => u.Delivers u' w) hstep
    (hmerge.held hkey) hrun with hheld | ⟨pre, e, post, u, u', heq, hpre, he, hdelivers⟩
  · obtain ⟨_, hproperty, -⟩ := hheld.stored
    exact .inl ⟨hheld.changed,
      ExtTreeMap.mem_iff_isSome_getElem?.mpr (Option.isSome_of_eq_some hproperty)⟩
  · have hin : s₁.HasStep events u u' := ⟨pre, e, post, heq, hpre, he⟩
    obtain ⟨lookup, hlookup, hsucceed, hsends⟩ := hdelivers
    exact .inr ⟨u, u', lookup, hin, hlookup, hsucceed,
      fun thread hthread hne => ⟨u, u', hin, hsends thread hthread hne⟩⟩

/-! ## Two short runs -/

theorem mergesPut_single {srv : Server} {s : ServerState srv} (now : Nat) (tuple : KeyTuple)
    {lookup : Lookup} {serializer : Serializer srv.Store}
    (hlookup : s.getResponsibleThreads tuple.key [srv.selfTier] = .ok lookup)
    (hsucceed : lookup.succeed = true) (hin : srv.wt.isIn lookup.threads = true)
    (hstored : s.typeMismatch tuple.key tuple.latticeType = false)
    (hentry : srv.serializers.entry tuple.latticeType = some serializer) :
    ∃ s₁, s.MergesPut now { type := .put, tuples := [tuple] }
        ⟨tuple.key, tuple.latticeType, tuple.payload⟩ s₁ s₁ ∧
      s₁ = { s with
        seed := lookup.seed
        sent := s.sent ++ lookup.sent
        accessCount := s₁.accessCount
        keyAccessTracker := s₁.keyAccessTracker
        localChangeset := s.localChangeset.insert tuple.key
        store := (serializer.put s.store tuple.key tuple.payload).2
        storedKeyMap := s.storedKeyMap.insert tuple.key
          ⟨(serializer.put s.store tuple.key tuple.payload).1, tuple.latticeType⟩ } := by
  have htype : tuple.latticeType ≠ .none := fun hnone => by
    rw [srv.serializers.entry_eq_none.mpr hnone] at hentry
    cases hentry
  have hprocess : (s.afterLookup lookup).processPut tuple.key tuple.latticeType tuple.payload =
      .ok _ := bind_eq_ok.mpr ⟨serializer, SerializerMap.at_eq_ok.mpr hentry, rfl⟩
  have hput : (s.afterLookup lookup).userPut tuple = .ok _ :=
    userPut_of_accepted htype hstored hprocess
  have hstep : userRequestTuple now { type := .put, tuples := [tuple] } (s, []) tuple =
      .ok (_, [] ++ [_]) :=
    userRequestTuple_of_serve hlookup hsucceed hin (bind_eq_ok.mpr ⟨_, hput, rfl⟩)
  exact ⟨_, ⟨rfl, bind_eq_ok.mpr ⟨_, foldlM_cons_eq_ok.mpr ⟨_, hstep, rfl⟩, rfl⟩, [], tuple, [], s,
    [], _, rfl, rfl, rfl, hstep, ⟨lookup, hlookup, hsucceed, hin⟩, htype, hstored⟩, rfl⟩

theorem hasStep_two {srv : Server} {s s₁ s₂ u u' : ServerState srv} {e₁ e₂ : Event}
    (h₁ : s.step e₁ = .ok s₁) (h₂ : s₁.step e₂ = .ok s₂) (h : s.HasStep [e₁, e₂] u u') :
    (u = s ∧ u' = s₁) ∨ (u = s₁ ∧ u' = s₂) := by
  obtain ⟨_ | ⟨e, _ | ⟨_, _⟩⟩, _, _, heq, hpre, he⟩ := h
  · cases heq
    cases hpre
    exact .inl ⟨rfl, Except.ok.inj (he.symm.trans h₁)⟩
  · cases heq
    have hu := Except.ok.inj (hpre.symm.trans (foldlM_cons_eq_ok.mpr ⟨s₁, h₁, rfl⟩))
    subst hu
    exact .inr ⟨rfl, Except.ok.inj (he.symm.trans h₂)⟩
  · simp at heq

section Pair
variable {D : Type} [Priority D] (codecs : ValueCodecs D) (repCodec : Codec ReplicationFactor)

/-- A first value for `"k"`. -/
def firstWrite : Write := ⟨"k", .lww, codecs.lww.serializeAsString ⟨0, "v"⟩⟩

/-- The request that writes it. -/
def firstRequest : KeyRequest :=
  { type := .put
    tuples := [{ key := "k", latticeType := .lww, payload := (firstWrite codecs).payload }] }

theorem pairState_merges :
    ∃ s₁, (pairState codecs repCodec).MergesPut 0 (firstRequest codecs) (firstWrite codecs) s₁ s₁ ∧
      s₁.ReadableKey "k" ∧ PairView s₁ (HashRing.insert default "B" "b" 0 0).1 ∧
      (∃ size, s₁.storedKeyMap = (∅ : ExtTreeMap Key KeyProperty).insert "k" ⟨size, .lww⟩) ∧
      s₁.localChangeset = (∅ : ExtTreeSet Key).insert "k" ∧
      s₁.joinGossipMap = ∅ ∧ s₁.joinRemoveSet = ∅ ∧ s₁.keyToCacheIps = ∅ := by
  have hview := pairState_view codecs repCodec
  have hin : (ServerThread.mk "B" "b" 0 0).isIn [⟨"B", "b", 0, 0⟩] = true := by decide
  obtain ⟨serializer, hentry⟩ : ∃ serializer, memoryEntry codecs .lww = some serializer := ⟨_, rfl⟩
  have hread := memoryEntry_lww_readable hentry (default : MemoryStore D) "k"
    (firstWrite codecs).payload
  rw [firstWrite, codecs.lww.parse_serialize] at hread
  have hvalue : (LWWPairLattice.doMerge (KVStore.value (⊥ : KVStore TimestampValuePair) "k")
    (toLww ⟨0, "v"⟩)).value ≠ "" := by decide
  obtain ⟨s₁, hmerge, hs₁⟩ := mergesPut_single 0
    { key := "k", latticeType := .lww, payload := (firstWrite codecs).payload }
    (hview.lookup_memory (bRing_turn rfl)) rfl hin rfl hentry
  refine ⟨s₁, hmerge, ?_, ?_, ?_⟩
  · rw [hs₁]
    exact ⟨_, serializer, ExtTreeMap.getElem?_insert_self, hentry, hread.mpr hvalue⟩
  · rw [hs₁]
    exact ⟨hview.memoryRing, hview.diskRing, hview.localRings, hview.factors⟩
  · rw [hs₁]
    exact ⟨⟨_, rfl⟩, rfl, rfl, rfl, rfl⟩

variable {codecs repCodec} {s : ServerState (pairServer codecs repCodec)}

theorem storedTyped_of_single
    (hstored : s.storedKeyMap = (∅ : ExtTreeMap Key KeyProperty).insert "k" ⟨size, .lww⟩) :
    s.StoredTyped := by
  intro _ _ h
  rw [hstored, ExtTreeMap.getElem?_insert] at h
  split at h
  · cases h
    nofun
  · simp at h

theorem pair_gossips (hview : PairView s (HashRing.insert default "B" "b" 0 0).1)
    (hstored : s.storedKeyMap = (∅ : ExtTreeMap Key KeyProperty).insert "k" ⟨size, .lww⟩)
    (hchanged : s.localChangeset = (∅ : ExtTreeSet Key).insert "k") :
    ∃ s₂, s.step .gossipRound = .ok s₂ ∧ s₂.localChangeset = ∅ := by
  have hkeys : s.localChangeset.toList = ["k"] := by
    rw [hchanged]
    decide
  have hnonempty : ¬ s.localChangeset.isEmpty = true := by
    rw [hchanged]
    decide
  obtain ⟨⟨s₁, batch⟩, hround⟩ : ∃ acc, roundKey (s, ∅) "k" = .ok acc :=
    ⟨_, bind_eq_ok.mpr ⟨_, hview.lookup_all (bRing_turn rfl), rfl⟩⟩
  have hfold : s.localChangeset.toList.foldlM roundKey (s, ∅) = .ok (s₁, batch) := by
    rw [hkeys]
    exact foldlM_cons_eq_ok.mpr ⟨_, hround, rfl⟩
  obtain ⟨⟨_, _, _, hs₁, -⟩, -⟩ := roundKey_spec hround
  have htyped : s₁.StoredTyped := hs₁ ▸ storedTyped_of_single hstored
  obtain ⟨s₂, hsend⟩ := sendGossip_returns htyped batch
  exact ⟨_, (if_neg hnonempty).trans
    (bind_eq_ok.mpr ⟨_, hfold, bind_eq_ok.mpr ⟨s₂, hsend, rfl⟩⟩), rfl⟩

variable {memory : GlobalHashRing (pairServer codecs repCodec).toConfig}

theorem PairView.setMemory (h : PairView s memory)
    (memory' : GlobalHashRing (pairServer codecs repCodec).toConfig)
    (messages : List (Address × Message)) :
    PairView ((s.setGlobalRing .memory memory').send messages) memory' := by
  refine ⟨?_, ?_, h.localRings, h.factors⟩
  · change Function.update s.globalHashRings .memory memory' .memory = _
    exact Function.update_self ..
  · change Function.update s.globalHashRings .memory memory' .disk = _
    exact h.diskRing

theorem pair_join (hview : PairView s (HashRing.insert default "B" "b" 0 0).1)
    (hstored : s.storedKeyMap = (∅ : ExtTreeMap Key KeyProperty).insert "k" ⟨size, .lww⟩) :
    ∃ s₂ messages, s.step (.nodeJoin "MEMORY:A:a:0") = .ok s₂ ∧
      PairView s₂ (joinedRing (pairServer codecs repCodec).toConfig) ∧
      s₂.storedKeyMap = s.storedKeyMap ∧ s₂.joinRemoveSet = s.joinRemoveSet.insert "k" ∧
      s₂.joinGossipMap = s.joinGossipMap.insertKeyFor [⟨"A", "a", 0, 0⟩] "k" ∧
      s₂.sent = s.sent ++ messages ∧ ∀ message ∈ messages, ∃ text, message.2 = .text text := by
  have hparse : parseJoin "MEMORY:A:a:0" = .ok (⟨.memory, "A", "a"⟩, 0) := by decide
  have hnew : (ServerThread.mk "A" "a" 0 0).id ∉ (s.globalHashRings .memory).members := by
    rw [hview.memoryRing, HashRing.members_insert, HashRing.members_default]
    decide
  have hinsert : (s.globalHashRings .memory).insert "A" "a" 0 0 =
      (joinedRing (pairServer codecs repCodec).toConfig, true) := by
    refine Prod.ext ?_ (by rw [HashRing.insert_of_notMem hnew])
    rw [hview.memoryRing]
    rfl
  have hkeys : s.storedKeyMap.keys = ["k"] := by
    rw [hstored]
    rfl
  have hin : (ServerThread.mk "B" "b" 0 0).isIn [⟨"A", "a", 0, 0⟩] = false := by decide
  have hview₂ := hview.setMemory (joinedRing (pairServer codecs repCodec).toConfig)
    ((s.setGlobalRing .memory (joinedRing _)).joinNotices "MEMORY:A:a:0" ⟨.memory, "A", "a"⟩)
  have htaken := joinKey_taken ⟨.memory, "A", "a"⟩
    (hview₂.lookup_memory (joinedRing_turn rfl)) rfl hin
  have hcall := nodeJoinHandler_new hparse rfl rfl hinsert
  rw [hkeys] at hcall
  refine ⟨_, _, hcall.trans (foldlM_cons_eq_ok.mpr ⟨_, htaken, rfl⟩), ?_, rfl, rfl, rfl,
    append_nil _, fun message => joinNotices_text⟩
  exact ⟨hview₂.memoryRing, hview₂.diskRing, hview₂.localRings, hview₂.factors⟩

theorem pair_redistributes (hview : PairView s memory)
    (hstored : s.storedKeyMap = (∅ : ExtTreeMap Key KeyProperty).insert "k" ⟨size, .lww⟩)
    (hgossip : s.joinGossipMap = AddressKeysetMap.insertKeyFor ∅ [⟨"A", "a", 0, 0⟩] "k")
    (hremove : s.joinRemoveSet = (∅ : ExtTreeSet Key).insert "k") :
    ∃ s₃ messages, s.step .redistribute = .ok s₃ ∧ PairView s₃ memory ∧ "k" ∉ s₃.storedKeyMap ∧
      s₃.sent = s.sent ++ messages ∧ messages.map Prod.fst = ["tcp://a:6250"] := by
  have htyped := storedTyped_of_single hstored
  have hproperty : s.storedKeyMap["k"]? = some ⟨size, .lww⟩ := by
    rw [hstored, ExtTreeMap.getElem?_insert_self]
  have hdrained : ((removeAddresses s.joinGossipMap).foldl ExtTreeMap.erase
      s.joinGossipMap).isEmpty = true := by
    rw [hgossip]
    decide
  let s₁ : ServerState (pairServer codecs repCodec) :=
    { s with
      joinGossipMap := (removeAddresses s.joinGossipMap).foldl ExtTreeMap.erase s.joinGossipMap }
  obtain ⟨s₂, hsend⟩ := sendGossip_returns (s := s₁) htyped (joinBatch s.joinGossipMap)
  obtain ⟨t, messages, ⟨store, -, rfl⟩, hs₂, haddr, -⟩ := sendGossip_spec hsend
  have hproperty₂ : s₂.storedKeyMap["k"]? = some ⟨size, .lww⟩ := by
    rw [hs₂]
    exact hproperty
  obtain ⟨store', hremoved⟩ := removeKey_returns hproperty₂ nofun
  have hkeys : s₂.joinRemoveSet.toList = ["k"] := by
    rw [hs₂]
    change s.joinRemoveSet.toList = ["k"]
    rw [hremove]
    decide
  have hcall : s₂.removeJoined = .ok { s₂ with
      store := store', storedKeyMap := s₂.storedKeyMap.erase "k", joinRemoveSet := ∅ } := by
    unfold removeJoined
    rw [if_pos (by rw [hs₂]; exact hdrained), hkeys]
    exact bind_eq_ok.mpr ⟨_, foldlM_cons_eq_ok.mpr ⟨_, hremoved, rfl⟩, rfl⟩
  have hnonempty : ¬ s.joinGossipMap.isEmpty = true := by
    rw [hgossip]
    decide
  refine ⟨_, messages, (if_neg hnonempty).trans (bind_eq_ok.mpr ⟨s₂, hsend, hcall⟩), ?_, ?_, ?_, ?_⟩
  · rw [hs₂]
    exact ⟨hview.memoryRing, hview.diskRing, hview.localRings, hview.factors⟩
  · change "k" ∉ s₂.storedKeyMap.erase "k"
    simp
  · rw [hs₂]
    rfl
  · rw [haddr, hgossip]
    decide

variable (codecs repCodec)

theorem pair_loses_write : ∃ s₁ s₃ : ServerState (pairServer codecs repCodec),
      (pairState codecs repCodec).MergesPut 0 (firstRequest codecs) (firstWrite codecs) s₁ s₁ ∧
      s₁.ReadableKey "k" ∧
      [Event.nodeJoin "MEMORY:A:a:0", .redistribute].foldlM step s₁ = .ok s₃ ∧
      "k" ∉ s₃.storedKeyMap ∧
      ¬ s₁.Propagates [.nodeJoin "MEMORY:A:a:0", .redistribute] (firstWrite codecs) := by
  obtain ⟨s₁, hmerge, hread, hview₁, ⟨_, hstored₁⟩, -, hgossip₁, hremove₁, -⟩ :=
    pairState_merges codecs repCodec
  obtain ⟨s₂, _, hjoin, hview₂, hstored₂, hremove₂, hgossip₂, hsent₂, htexts⟩ :=
    pair_join hview₁ hstored₁
  rw [hgossip₁] at hgossip₂
  rw [hremove₁] at hremove₂
  obtain ⟨s₃, _, hredistribute, hview₃, hgone, hsent₃, haddr⟩ :=
    pair_redistributes hview₂ (hstored₂.trans hstored₁) hgossip₂ hremove₂
  refine ⟨s₁, s₃, hmerge, hread, ?_, hgone, ?_⟩
  · exact foldlM_cons_eq_ok.mpr ⟨s₂, hjoin, foldlM_cons_eq_ok.mpr ⟨s₃, hredistribute, rfl⟩⟩
  -- the only steps are those to `s₂` and to `s₃`, and neither sends anything to `d`
  rintro ⟨u, u', lookup, hstep, hlookup, -, hsends⟩
  have hview : PairView u' (joinedRing (pairServer codecs repCodec).toConfig) := by
    rcases hasStep_two hjoin hredistribute hstep with ⟨-, rfl⟩ | ⟨-, rfl⟩
    · exact hview₂
    · exact hview₃
  have hd : (⟨"D", "d", 0, 0⟩ : ServerThread) ∈ lookup.threads := by
    have hall := hview.lookup_all (joinedRing_turn rfl)
    rw [Except.ok.inj (hlookup.symm.trans hall)]
    exact mem_cons_of_mem _ (mem_singleton_self _)
  have hne : (ServerThread.mk "D" "d" 0 0).id ≠ (ServerThread.mk "B" "b" 0 0).id := by decide
  have hother : (ServerThread.mk "D" "d" 0 0).gossipConnectAddress ∉ ["tcp://a:6250"] := by decide
  obtain ⟨v, _, hstep', _, _, _, hsent, hmem, -⟩ := hsends _ hd hne
  rcases hasStep_two hjoin hredistribute hstep' with ⟨rfl, rfl⟩ | ⟨rfl, rfl⟩
  · obtain rfl := append_cancel_left (hsent₂.symm.trans hsent)
    obtain ⟨_, htext⟩ := htexts _ hmem
    cases htext
  · obtain rfl := append_cancel_left (hsent₃.symm.trans hsent)
    have haddr' := mem_map_of_mem (f := Prod.fst) hmem
    rw [haddr] at haddr'
    exact hother haddr'

end Pair

/-- In the round after an accepted PUT, `b` sends its value to `d`. -/
theorem accepted_put_gossiped :
    ∃ (srv : Server) (s t s₁ s₂ : ServerState srv) (now : Nat) (request : KeyRequest) (w : Write),
      s.MergesPut now request w t s₁ ∧ [Event.gossipRound].foldlM step s₁ = .ok s₂ ∧
      s₁.Propagates [.gossipRound] w := by
  obtain ⟨codecs, repCodec⟩ := exists_codecs
  obtain ⟨s₁, hmerge, hread, hview, ⟨_, hstored⟩, hchanged, -⟩ := pairState_merges codecs repCodec
  obtain ⟨s₂, hround, hcleared⟩ := pair_gossips hview hstored hchanged
  have hkey : isMetadata "k" = .ok false := by decide
  have hrun : [Event.gossipRound].foldlM step s₁ = .ok s₂ := foldlM_cons_eq_ok.mpr ⟨s₂, hround, rfl⟩
  refine ⟨_, _, s₁, s₁, s₂, _, _, _, hmerge, hrun, ?_⟩
  refine (accepted_put_propagates hmerge hkey hrun ?_).resolve_left fun hheld => ?_
  · rintro (_ | ⟨e, _⟩) _ _ u heq hpre
    · cases heq
      cases hpre
      exact hread
    · simp at heq
  · rw [hcleared] at hheld
    exact ExtTreeSet.not_mem_empty hheld.1

/-- **The redistribution after a join can lose a write.**  It sends the keys that a
new node takes over to the tier of this thread only, and removes them although
other tiers have not seen them yet. -/
theorem accepted_put_lost :
    ¬ ∀ (srv : Server) (s t s₁ s₂ : ServerState srv) (now : Nat) (request : KeyRequest) (w : Write)
      (events : List Event),
      s.MergesPut now request w t s₁ → t.ReadableKey w.key → isMetadata w.key = .ok false →
      events.foldlM step s₁ = .ok s₂ →
      (w.key ∈ s₂.localChangeset ∧ w.key ∈ s₂.storedKeyMap) ∨ s₁.Propagates events w := by
  intro h
  obtain ⟨codecs, repCodec⟩ := exists_codecs
  obtain ⟨_, _, hmerge, hread, hrun, hgone, hlost⟩ := pair_loses_write codecs repCodec
  have hkey : isMetadata "k" = .ok false := by decide
  rcases h _ _ _ _ _ _ _ _ _ hmerge hread hkey hrun with hheld | hpropagates
  · exact hgone hheld.2
  · exact hlost hpropagates

end Testbed.Anna
