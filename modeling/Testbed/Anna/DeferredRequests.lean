import Testbed.Anna.DiskSerializers
import Testbed.Anna.ServerRuns
import Testbed.Anna.SmallClusters

/-! # Deferred requests

A request for a key with unknown replication factors waits until the factors come;
then `replication_response_handler` treats it with code of its own.  The result is
the one that `user_request_handler` would have given with the factors at hand
(`deferred_eq_direct_iff`), provided that the factors can be asked for.

That is where the two ways differ: the factors can be asked for just if the memory
tier serves metadata (`MetadataServed`), and a disk node may well be alone.
-/
namespace Testbed.Anna

open Std Lib ExtTreeMap

/-! ## The data that a request is about -/

/-- The message answers a request. -/
def Message.isResponse : Message → Bool
  | .keyResponse _ => true
  | _ => false

/-- What can be seen of the treatment of a request for a key. -/
structure Observed (srv : Server) where
  store : srv.Store
  property : Option KeyProperty
  localChangeset : ExtTreeSet Key
  responses : List (Address × Message)

/-- `key_replication_map[key]` after the entries of `R` were set. -/
def ReplicationFactor.toKeyReplication (R : ReplicationFactor) : KeyReplication :=
  R.localValues.foldl KeyReplication.setLocal
    (R.globalValues.foldl KeyReplication.setGlobal default)

namespace ServerState
variable {srv : Server}

def observe (key : Key) (s : ServerState srv) : Observed srv where
  store := s.store
  property := s.storedKeyMap[key]?
  localChangeset := s.localChangeset
  responses := s.sent.filter (·.2.isResponse)

variable (s : ServerState srv)

/-- The state in which the factors of the key are known. -/
def withFactors (key : Key) (R : ReplicationFactor) : ServerState srv :=
  { s with keyReplicationMap := s.keyReplicationMap.insert key R.toKeyReplication }

/-- The state with the stored data of another one. -/
def withData (t s : ServerState srv) : ServerState srv :=
  { t with
    store := s.store
    storedKeyMap := s.storedKeyMap
    localChangeset := s.localChangeset }

theorem userGet_withData (t s : ServerState srv) (key : Key) :
    (t.withData s).userGet key = (s.userGet key).map fun r => (t.withData r.1, r.2) := by
  have hstored : (t.withData s).storedKeyMap = s.storedKeyMap := rfl
  unfold userGet
  rw [hstored]
  cases s.storedKeyMap[key]? with
  | none => rfl
  | some property =>
    dsimp only
    by_cases htype : property.type = .none
    · rw [if_pos htype, if_pos htype]
      rfl
    · rw [if_neg htype, if_neg htype]
      unfold processGet
      cases srv.serializers.at property.type <;> rfl

theorem userPut_withData (t s : ServerState srv) (tuple : KeyTuple) :
    (t.withData s).userPut tuple = (s.userPut tuple).map fun r => (t.withData r.1, r.2) := by
  have hmismatch : (t.withData s).typeMismatch tuple.key tuple.latticeType =
      s.typeMismatch tuple.key tuple.latticeType := rfl
  unfold userPut
  rw [hmismatch]
  by_cases htype : tuple.latticeType = .none
  · rw [if_pos htype, if_pos htype]
    rfl
  · rw [if_neg htype, if_neg htype]
    by_cases hstored : s.typeMismatch tuple.key tuple.latticeType = true
    · rw [if_pos hstored, if_pos hstored]
      rfl
    · rw [if_neg hstored, if_neg hstored]
      unfold processPut
      cases srv.serializers.at tuple.latticeType <;> rfl

theorem userProcess_withData (t s : ServerState srv) (type : RequestType) (tuple : KeyTuple) :
    (t.withData s).userProcess type tuple =
      (s.userProcess type tuple).map fun r => (t.withData r.1, r.2) := by
  cases type with
  | get => exact userGet_withData t s tuple.key
  | put => exact userPut_withData t s tuple
  | rtUnspecified => rfl

theorem userProcess_returns (type : RequestType) (tuple : KeyTuple) :
    ∃ s' tp, s.userProcess type tuple = .ok (s', tp) := by
  cases type with
  | get =>
    change ∃ s' tp, s.userGet tuple.key = .ok (s', tp)
    unfold userGet
    split
    · exact ⟨_, _, rfl⟩
    · rename_i property hproperty
      by_cases htype : property.type = .none
      · rw [if_pos htype]
        exact ⟨_, _, rfl⟩
      · obtain ⟨serializer, hserializer⟩ := exists_serializer srv htype
        rw [if_neg htype, processGet, hserializer]
        exact ⟨_, _, rfl⟩
  | put =>
    change ∃ s' tp, s.userPut tuple = .ok (s', tp)
    unfold userPut
    by_cases htype : tuple.latticeType = .none
    · rw [if_pos htype]
      exact ⟨_, _, rfl⟩
    · rw [if_neg htype]
      obtain ⟨_, hserializer⟩ := exists_serializer srv htype
      split
      · exact ⟨_, _, rfl⟩
      · rw [processPut, hserializer]
        exact ⟨_, _, rfl⟩
  | rtUnspecified => exact ⟨_, _, rfl⟩

theorem pendingProcess_eq_userProcess {request : KeyRequest}
    (tuple : KeyTuple) (htype : request.type = .get ∨ request.type = .put) :
    s.pendingProcess tuple.key (pendingOf request tuple) = s.userProcess request.type tuple := by
  unfold pendingProcess userProcess pendingOf
  rcases htype with htype | htype
  · rw [htype]
    rfl
  · rw [htype]
    rfl

/-! ## The two ways -/

/-- A request for one key whose factors are unknown, and the response that brings
them. -/
structure Deferral (key : Key) (request : KeyRequest) (tuple : KeyTuple)
    (R : ReplicationFactor) (response : KeyResponse) : Prop where
  data : isMetadata key = .ok false
  unknown : s.keyReplicationMap[key]? = none
  noRequest : s.pendingRequests.getD key [] = []
  noGossip : s.pendingGossip.getD key [] = []
  single : request.tuples = [tuple]
  tupleKey : tuple.key = key
  type : request.type = .get ∨ request.type = .put
  address : request.responseAddress ≠ ""
  noCache : tuple.addressCacheSize = 0
  brings : ∃ factors rest, response.tuples = factors :: rest ∧
    factors.key = getMetadataKey key ∧ factors.error = .noError ∧
    replicationPayload srv factors.payload = R
  lists : ∀ tier ∈ kAllTiers, (∃ n, (tier, n) ∈ R.globalValues) ∧ ∃ n, (tier, n) ∈ R.localValues
  responsible : (s.withFactors key R).Responsible key

/-- The request waits, and is answered when the factors come. -/
def deferred (now : Nat) (request : KeyRequest) (now' : Nat)
    (response : KeyResponse) : Except Fault (ServerState srv) := do
  let s ← s.userRequestHandler now request
  s.replicationResponseHandler now' response

/-- The state in which the request waits, once the factors have been asked for. -/
def waitingFor (request : KeyRequest) (tuple : KeyTuple)
    (asked : (Address × Message) × UInt32) : ServerState srv :=
  (s.afterLookup ⟨[], false, asked.2, [asked.1]⟩).pushRequest tuple.key (pendingOf request tuple)

variable {s s' : ServerState srv} {key : Key} {request : KeyRequest} {tuple tp : KeyTuple}
  {R : ReplicationFactor}

theorem getResponsibleThreads_unknown (tiers : List Tier) (hkey : isMetadata key = .ok false)
    (hnone : s.keyReplicationMap[key]? = none) :
    s.getResponsibleThreads key tiers =
      (Anna.issueReplicationFactorRequest srv.wt.replicationResponseConnectAddress key
        s.toRingMaps s.seed).map fun asked => ⟨[], false, asked.2, [asked.1]⟩ := by
  rw [getResponsibleThreads, hkey]
  change Anna.getResponsibleThreads _ key false _ _ _ _ = _
  rw [Anna.getResponsibleThreads, hnone]
  cases Anna.issueReplicationFactorRequest srv.wt.replicationResponseConnectAddress key
    s.toRingMaps s.seed <;> rfl

namespace Deferral
variable {s : ServerState srv} {key : Key} {request : KeyRequest} {tuple : KeyTuple}
  {R : ReplicationFactor} {response : KeyResponse}

theorem userRequestHandler_eq (h : Deferral s key request tuple R response) (now : Nat) :
    s.userRequestHandler now request =
      (Anna.issueReplicationFactorRequest srv.wt.replicationResponseConnectAddress key
        s.toRingMaps s.seed).map (s.waitingFor request tuple) := by
  have hlookup := getResponsibleThreads_unknown [srv.selfTier] h.data h.unknown
  rw [← h.tupleKey] at hlookup ⊢
  rw [userRequestHandler, h.single, List.foldlM_cons]
  unfold userRequestTuple
  dsimp only
  rw [hlookup]
  cases Anna.issueReplicationFactorRequest srv.wt.replicationResponseConnectAddress tuple.key
    s.toRingMaps s.seed <;> rfl

end Deferral

theorem insert_insert_self (m : ExtTreeMap Key KeyReplication) (key : Key)
    (rep rep' : KeyReplication) : (m.insert key rep).insert key rep' = m.insert key rep' := by
  refine ext_getElem? fun k => ?_
  simp only [getElem?_insert]
  split <;> rfl

theorem foldl_insert_eq (f : KeyReplication → Tier × Nat → KeyReplication)
    {entries : List (Tier × Nat)} (hne : entries ≠ []) (m : ExtTreeMap Key KeyReplication) :
    entries.foldl (fun m entry => m.insert key (f (m.getD key default) entry)) m =
      m.insert key (entries.foldl f (m.getD key default)) := by
  induction entries generalizing m with
  | nil => exact absurd rfl hne
  | cons _ entries ih =>
    rw [List.foldl_cons]
    rcases eq_or_ne entries [] with rfl | hentries
    · rfl
    · rw [ih hentries, getD_insert_self, insert_insert_self]
      rfl

theorem learnFactors_eq {factors : KeyTuple} (hunknown : s.keyReplicationMap[key]? = none)
    (hkey : factors.key = getMetadataKey key) (herror : factors.error = .noError)
    (hpayload : replicationPayload srv factors.payload = R) (hglobal : R.globalValues ≠ [])
    (hlocal : R.localValues ≠ []) : s.learnFactors factors = s.withFactors key R := by
  have hdefault : s.keyReplicationMap.getD key default = default := by
    rw [getD_eq_getD_getElem?, hunknown]
    rfl
  unfold learnFactors withFactors
  rw [if_pos herror, hkey, getKeyFromMetadata_getMetadataKey, hpayload]
  unfold setLocalFactors setGlobalFactors
  dsimp only
  rw [foldl_insert_eq _ hglobal, foldl_insert_eq _ hlocal, getD_insert_self, hdefault,
    insert_insert_self]
  rfl

theorem responses_append_ask {ask : Address × Message}
    (hask : ∃ request, ask.2 = .keyRequest request) (sent messages : List (Address × Message)) :
    ((sent ++ [ask]) ++ messages).filter (·.2.isResponse) =
      (sent ++ messages).filter (·.2.isResponse) := by
  obtain ⟨_, hrequest⟩ := hask
  simp [hrequest, Message.isResponse]

/-- The factors of the key are known, and they give it to this thread. -/
structure Serves (s : ServerState srv) (key : Key) (threads : List ServerThread) : Prop where
  lookup : s.getResponsibleThreads key [srv.selfTier] = .ok ⟨threads, true, s.seed, []⟩
  isIn : srv.wt.isIn threads = true

variable {t : ServerState srv} {threads : List ServerThread}

theorem Serves.congr (hkey : isMetadata key = .ok false)
    (h : Serves (s.withFactors key R) key threads) (hrings : t.toRingMaps = s.toRingMaps)
    (hfactors : t.keyReplicationMap[key]? = some R.toKeyReplication) : Serves t key threads := by
  obtain ⟨threads', hthreads, heq⟩ :=
    (getResponsibleThreads_eq_ok hkey getElem?_insert_self).mp h.lookup
  obtain rfl : threads = threads' := congrArg Lookup.threads heq
  refine ⟨(getResponsibleThreads_eq_ok hkey hfactors).mpr ⟨threads, ?_, rfl⟩, h.isIn⟩
  rw [hrings]
  exact hthreads

theorem Serves.userRequestHandler_eq (h : Serves (t.withData s) tuple.key threads) (now : Nat)
    (hsingle : request.tuples = [tuple]) (haddress : request.responseAddress ≠ "")
    (hcache : tuple.addressCacheSize = 0)
    (hprocess : s.userProcess request.type tuple = .ok (s', tp)) :
    (t.withData s).userRequestHandler now request =
      .ok (((t.withData s').trackAccess tuple.key now).send
        [(request.responseAddress, .keyResponse (userResponse request [tp]))]) := by
  have hserve : (t.withData s).userServe now request.type threads tuple =
      .ok ((t.withData s').trackAccess tuple.key now, tp) := by
    rw [userServe, userProcess_withData, hprocess]
    simp only [bind, Except.bind, Except.map, hcache, gt_iff_lt, Nat.lt_irrefl, false_and, if_false]
    rfl
  rw [userRequestHandler, hsingle, List.foldlM_cons]
  have htuple : userRequestTuple now request (t.withData s, []) tuple =
      .ok ((t.withData s').trackAccess tuple.key now, [] ++ [tp]) :=
    userRequestTuple_of_serve h.lookup rfl h.isIn (by rw [afterLookup_known]; exact hserve)
  rw [htuple]
  change (if _ ∧ _ then _ else _) = _
  rw [if_pos ⟨List.cons_ne_nil _ _, haddress⟩]
  rfl

theorem Serves.completeRequests_eq (h : Serves (t.withData s) tuple.key threads) (now : Nat)
    (hwaits : t.pendingRequests[tuple.key]? = some [pendingOf request tuple])
    (htype : request.type = .get ∨ request.type = .put) (haddress : request.responseAddress ≠ "")
    (hprocess : s.userProcess request.type tuple = .ok (s', tp)) :
    (t.withData s).completeRequests now tuple.key =
      .ok { ((t.withData s').trackAccess tuple.key now).send
          [(request.responseAddress, .keyResponse (userResponse request [tp]))] with
        pendingRequests := t.pendingRequests.erase tuple.key } := by
  have hserve : (t.withData s).pendingProcess tuple.key (pendingOf request tuple) =
      .ok (t.withData s', tp) := by
    rw [pendingProcess_eq_userProcess _ _ htype, userProcess_withData, hprocess]
    rfl
  have hcomplete : completeRequest now tuple.key true (t.withData s) (pendingOf request tuple) =
      .ok (((t.withData s').trackAccess tuple.key now).send
        [pendingResponse (pendingOf request tuple) tp]) := by
    have haddr : (pendingOf request tuple).addr ≠ "" := haddress
    unfold completeRequest
    simp only [haddr, not_true_eq_false, false_and, if_false, and_false, ne_eq,
      not_false_eq_true, and_self, if_true, hserve]
    rfl
  have hpending : (t.withData s).pendingRequests = t.pendingRequests := rfl
  unfold completeRequests
  rw [hpending, hwaits]
  refine bind_eq_ok.mpr ⟨_, h.lookup, ?_⟩
  rw [afterLookup_known, completeAll, if_pos rfl, h.isIn, List.foldlM_cons, hcomplete]
  rfl

theorem Serves.completeGossip_observe (h : Serves s key threads)
    (hgossip : s.pendingGossip.getD key [] = []) :
    ∃ s', s.completeGossip key = .ok s' ∧ s'.observe key = s.observe key := by
  rw [getD_eq_getD_getElem?] at hgossip
  unfold completeGossip
  cases hitems : s.pendingGossip[key]? with
  | none => exact ⟨s, rfl, rfl⟩
  | some =>
    rw [hitems, Option.getD_some] at hgossip
    subst hgossip
    refine ⟨{ s with pendingGossip := s.pendingGossip.erase key }, ?_, rfl⟩
    refine bind_eq_ok.mpr ⟨_, h.lookup, ?_⟩
    rw [afterLookup_known, completeGossipAll, if_pos rfl, if_pos h.isIn]
    rfl

namespace Deferral
variable {s : ServerState srv} {key : Key} {request : KeyRequest} {tuple : KeyTuple}
  {R : ReplicationFactor} {response : KeyResponse}

section
variable (h : Deferral s key request tuple R response)
include h

theorem serves : ∃ threads, Serves (s.withFactors key R) key threads := by
  obtain ⟨_, hlookup, -, hin⟩ := h.responsible
  obtain ⟨threads, -, rfl⟩ := (getResponsibleThreads_eq_ok h.data getElem?_insert_self).mp hlookup
  exact ⟨threads, hlookup, hin⟩

theorem replicationResponseHandler_eq (now : Nat) (asked : (Address × Message) × UInt32) :
    (s.waitingFor request tuple asked).replicationResponseHandler now response =
      ((s.waitingFor request tuple asked).withFactors key R).completePending now key := by
  obtain ⟨factors, _, hresponse, hkey, herror, hpayload⟩ := h.brings
  obtain ⟨⟨n, hglobal⟩, _, hlocal⟩ := h.lists .memory (by decide)
  have hlearn : (s.waitingFor request tuple asked).learnFactors factors =
      (s.waitingFor request tuple asked).withFactors key R :=
    learnFactors_eq h.unknown hkey herror hpayload (List.ne_nil_of_mem hglobal)
      (List.ne_nil_of_mem hlocal)
  rw [replicationResponseHandler, hresponse]
  simp only [herror]
  rw [hlearn, hkey, getKeyFromMetadata_getMetadataKey]

/-- **Both ways give the same**, once the factors have been asked for. -/
theorem agree (now now' : Nat) {asked : (Address × Message) × UInt32}
    (hasked : Anna.issueReplicationFactorRequest srv.wt.replicationResponseConnectAddress key
      s.toRingMaps s.seed = .ok asked) :
    ∃ s₁ s₂, s.deferred now request now' response = .ok s₁ ∧
      (s.withFactors key R).userRequestHandler now request = .ok s₂ ∧
      s₁.observe key = s₂.observe key := by
  obtain ⟨threads, hserves⟩ := h.serves
  obtain ⟨s', tp, hprocess⟩ := userProcess_returns s request.type tuple
  have htupleKey := h.tupleKey
  subst htupleKey
  let w := (s.waitingFor request tuple asked).withFactors tuple.key R
  have hw : Serves w tuple.key threads := hserves.congr h.data rfl getElem?_insert_self
  have hwaits : w.pendingRequests[tuple.key]? = some [pendingOf request tuple] := by
    change (s.pendingRequests.insert tuple.key
      (s.pendingRequests.getD tuple.key [] ++ [pendingOf request tuple]))[tuple.key]? = _
    rw [getElem?_insert_self, h.noRequest]
    rfl
  have hcomplete := Serves.completeRequests_eq (t := w) (s := s) hw now' hwaits h.type h.address
    hprocess
  have hdirect := Serves.userRequestHandler_eq (t := s.withFactors tuple.key R) (s := s) hserves now
    h.single h.address h.noCache hprocess
  let c : ServerState srv :=
    { ((w.withData s').trackAccess tuple.key now').send
        [(request.responseAddress, .keyResponse (userResponse request [tp]))] with
      pendingRequests := w.pendingRequests.erase tuple.key }
  have hc : Serves c tuple.key threads := hserves.congr h.data rfl getElem?_insert_self
  obtain ⟨s₁, hgossip, hobserve⟩ := hc.completeGossip_observe h.noGossip
  refine ⟨s₁, _, bind_eq_ok.mpr ⟨s.waitingFor request tuple asked, ?_, ?_⟩, hdirect,
    hobserve.trans ?_⟩
  · rw [h.userRequestHandler_eq, hasked]
    rfl
  · rw [h.replicationResponseHandler_eq]
    exact bind_eq_ok.mpr ⟨c, hcomplete, hgossip⟩
  · -- the messages differ in the request for the factors only
    have hask := (issue_isGet hasked).imp fun _ hget => hget.1
    exact congrArg (Observed.mk _ _ _) (responses_append_ask hask s.sent _)

theorem direct_returns (now : Nat) :
    ∃ s₂, (s.withFactors key R).userRequestHandler now request = .ok s₂ := by
  obtain ⟨_, hserves⟩ := h.serves
  obtain ⟨_, _, hprocess⟩ := userProcess_returns s request.type tuple
  have htupleKey := h.tupleKey
  subst htupleKey
  exact ⟨_, Serves.userRequestHandler_eq (t := s.withFactors tuple.key R) (s := s) hserves now
    h.single h.address h.noCache hprocess⟩

theorem metadataServed_of_returns {now now' : Nat}
    {s₁ : ServerState srv} (hdeferred : s.deferred now request now' response = .ok s₁) :
    MetadataServed s.toRingMaps := by
  rw [← issue_returns_iff srv.wt.replicationResponseConnectAddress key s.toRingMaps s.seed]
  obtain ⟨w, hwaits, -⟩ := bind_eq_ok.mp hdeferred
  rw [h.userRequestHandler_eq] at hwaits
  cases hissue : Anna.issueReplicationFactorRequest srv.wt.replicationResponseConnectAddress key
      s.toRingMaps s.seed with
  | error =>
    rw [hissue] at hwaits
    cases hwaits
  | ok asked => exact ⟨asked.1, asked.2, rfl⟩

end

end Deferral

end ServerState

/-- **Deferred equals direct** just if the memory tier can keep metadata.  The direct
way always returns.  The deferred one returns with the same store, the same entry in
`stored_key_map`, the same `local_changeset` and the same response, if the factors can
be asked for; otherwise it does not return. -/
theorem deferred_eq_direct_iff {srv : Server} {s : ServerState srv} {key : Key}
    {request : KeyRequest} {tuple : KeyTuple} {R : ReplicationFactor} {response : KeyResponse}
    (h : s.Deferral key request tuple R response) (now now' : Nat) :
    (∃ s₂, (s.withFactors key R).userRequestHandler now request = .ok s₂) ∧
      ((∃ s₁ s₂, s.deferred now request now' response = .ok s₁ ∧
          (s.withFactors key R).userRequestHandler now request = .ok s₂ ∧
          s₁.observe key = s₂.observe key) ↔
        MetadataServed s.toRingMaps) := by
  refine ⟨h.direct_returns now, ?_, fun hserved => ?_⟩
  · rintro ⟨_, _, hdeferred, -, -⟩
    exact h.metadataServed_of_returns hdeferred
  · obtain ⟨_, _, hasked⟩ := (issue_returns_iff
      srv.wt.replicationResponseConnectAddress key s.toRingMaps s.seed).mpr hserved
    exact h.agree now now' hasked

/-! ## Two nodes on their own -/

section
variable {D : Type} [Priority D] (codecs : ValueCodecs D) (repCodec : Codec ReplicationFactor)

/-- A GET of the key `"k"`. -/
def getOfK : KeyRequest :=
  { type := .get, responseAddress := "c", requestId := "1", tuples := [{ key := "k" }] }

/-- One replica of `"k"` in each tier. -/
def oneOfK : ReplicationFactor :=
  { key := "k"
    globalValues := [(.memory, 1), (.disk, 1)]
    localValues := [(.memory, 1), (.disk, 1)] }

/-- The response that says so. -/
def responseOfK : KeyResponse :=
  { tuples := [{
      key := getMetadataKey "k"
      latticeType := .lww
      payload := codecs.lww.serializeAsString ⟨0, repCodec.serializeAsString oneOfK⟩ }] }

/-- The only node, of the disk tier: the ring of the memory tier is empty. -/
def loneDisk : ServerState (diskServer codecs repCodec (fun _ => 0) ⟨"A", "a", 0, 0⟩) :=
  { ServerState.initial (diskServer codecs repCodec (fun _ => 0) ⟨"A", "a", 0, 0⟩)
      (∅ : Files) 0 with
    globalHashRings :=
      Function.update (fun _ => default) .disk (HashRing.insert default "A" "a" 0 0).1
    localHashRings := fun _ => (HashRing.insert default "A" "a" 0 0).1 }

theorem deferral_of_responsible {srv : Server} {s : ServerState srv}
    (hlww : srv.lwwValue = codecs.lww) (hfactors : srv.replicationFactor = repCodec)
    (hunknown : s.keyReplicationMap["k"]? = none) (hrequests : s.pendingRequests = ∅)
    (hgossip : s.pendingGossip = ∅) (hresponsible : (s.withFactors "k" oneOfK).Responsible "k") :
    s.Deferral "k" getOfK { key := "k" } oneOfK (responseOfK codecs repCodec) where
  data := by decide
  unknown := hunknown
  noRequest := by rw [hrequests]; exact getD_empty
  noGossip := by rw [hgossip]; exact getD_empty
  single := rfl
  tupleKey := rfl
  type := Or.inl rfl
  address := by decide
  noCache := rfl
  brings := by
    refine ⟨_, _, rfl, rfl, rfl, ?_⟩
    simp only [ServerState.replicationPayload, hlww, hfactors, Codec.parse_serialize]
  lists tier htier := by
    cases tier with
    | memory | disk => exact ⟨⟨1, by decide⟩, 1, by decide⟩
    | _ => exact absurd htier (by decide)
  responsible := hresponsible

theorem soloState_deferral : (soloState codecs repCodec ∅).Deferral "k" getOfK { key := "k" } oneOfK
      (responseOfK codecs repCodec) := by
  have hin : (ServerThread.mk "A" "a" 0 0).isIn [⟨"A", "a", 0, 0⟩] = true := by decide
  refine deferral_of_responsible codecs repCodec rfl rfl getElem?_empty rfl rfl
    ⟨⟨[⟨"A", "a", 0, 0⟩], true, 0, []⟩, ?_, rfl, hin⟩
  exact soloState_lookup codecs repCodec (by decide) getElem?_insert_self rfl rfl

theorem loneDisk_deferral : (loneDisk codecs repCodec).Deferral "k" getOfK { key := "k" } oneOfK
      (responseOfK codecs repCodec) := by
  have hin : (ServerThread.mk "A" "a" 0 0).isIn [⟨"A", "a", 0, 0⟩] = true := by decide
  have hthreads : tierThreads "k" 1 1 ((loneDisk codecs repCodec).globalHashRings .disk)
      ((loneDisk codecs repCodec).localHashRings .disk) = .ok [⟨"A", "a", 0, 0⟩] :=
    tierThreads_one (HashRing.turn_insert_default 0 (fun _ => rfl) "k")
      (HashRing.turn_insert_default 0 (fun _ => rfl) "k")
  refine deferral_of_responsible codecs repCodec rfl rfl getElem?_empty rfl rfl
    ⟨⟨[⟨"A", "a", 0, 0⟩], true, 0, []⟩, ?_, rfl, hin⟩
  exact ServerState.getResponsibleThreads_one (by decide) getElem?_insert_self rfl rfl hthreads

end

/-- A memory node on its own answers a deferred GET as it would have at once. -/
theorem deferred_eq_direct_solo :
    ∃ (srv : Server) (s s₁ s₂ : ServerState srv) (response : KeyResponse),
      s.Deferral "k" getOfK { key := "k" } oneOfK response ∧
      s.deferred 0 getOfK 1 response = .ok s₁ ∧
      (s.withFactors "k" oneOfK).userRequestHandler 0 getOfK = .ok s₂ ∧
      s₁.observe "k" = s₂.observe "k" := by
  obtain ⟨codecs, repCodec⟩ := exists_codecs
  have hdeferral := soloState_deferral codecs repCodec
  obtain ⟨s₁, s₂, h⟩ := (deferred_eq_direct_iff hdeferral 0 1).2.mpr
    (soloState_metadataServed codecs repCodec ∅)
  exact ⟨_, _, s₁, s₂, _, hdeferral, h⟩

/-- A disk node on its own cannot ask for the factors: it divides by zero. -/
theorem deferred_request_crashes :
    ¬ ∀ (srv : Server) (s : ServerState srv) (key : Key) (request : KeyRequest) (tuple : KeyTuple)
      (R : ReplicationFactor) (response : KeyResponse) (now now' : Nat),
      s.Deferral key request tuple R response →
      ∃ s₁ s₂, s.deferred now request now' response = .ok s₁ ∧
        (s.withFactors key R).userRequestHandler now request = .ok s₂ ∧
        s₁.observe key = s₂.observe key := by
  intro h
  obtain ⟨codecs, repCodec⟩ := exists_codecs
  have hdeferral := loneDisk_deferral codecs repCodec
  obtain ⟨_, -, hdeferred, -⟩ := h _ _ _ _ _ _ _ 0 1 hdeferral
  exact (hdeferral.metadataServed_of_returns hdeferred).server rfl

end Testbed.Anna
