import Testbed.Anna.Server

/-! # Requests of users

`user_request_handler.cpp` and `replication_response_handler.cpp`.  A thread
answers the tuples of a request for the keys it is responsible for.  A tuple whose
key has no known replication factors, or whose key the known factors give to
another thread, waits in `pending_requests` until the factors arrive; then
`replication_response_handler` answers it.

The two handlers repeat the treatment of GET and PUT, and so do the definitions
here.  What a call can do is listed in `userRequestTuple_cases` and
`completeRequest_cases`.
-/
namespace Testbed.Anna

open Std Lib

namespace ServerState
variable {srv : Server} (s : ServerState srv)

/-- The key is stored with a type, and the type is not `type`. -/
def typeMismatch (key : Key) (type : LatticeType) : Bool :=
  match s.storedKeyMap[key]? with
  | none => false
  | some property => property.type ≠ .none && property.type ≠ type

/-- `local_changeset.insert(key)`. -/
def markChanged (key : Key) : ServerState srv :=
  { s with localChangeset := s.localChangeset.insert key }

/-- The factors that the thread knows make it responsible for the key. -/
def Responsible (key : Key) : Prop :=
  ∃ lookup, s.getResponsibleThreads key [srv.selfTier] = .ok lookup ∧
    lookup.succeed = true ∧ srv.wt.isIn lookup.threads = true

variable {s s' : ServerState srv} {key : Key} {tuple tp : KeyTuple} {request : PendingRequest}
  {type : LatticeType} {now : Nat}

theorem not_responsible {lookup : Lookup}
    (hlookup : s.getResponsibleThreads key [srv.selfTier] = .ok lookup)
    (hin : srv.wt.isIn lookup.threads = false) : ¬ s.Responsible key := by
  rintro ⟨_, hlookup', -, hin'⟩
  rw [hlookup] at hlookup'
  cases hlookup'
  rw [hin] at hin'
  cases hin'

/-! ## `user_request_handler` -/

variable (s)

/-- A GET that this thread answers: the state and the response tuple. -/
def userGet (key : Key) : Except Fault (ServerState srv × KeyTuple) :=
  let tp : KeyTuple := { key }
  match s.storedKeyMap[key]? with
  | none => return (s, { tp with error := .keyDne })
  | some property =>
    if property.type = .none then return (s, { tp with error := .keyDne })
    else do
      let (res, s) ← s.processGet key property.type
      return (s, { tp with latticeType := property.type, payload := res.1, error := res.2 })

/-- A PUT that this thread answers.  The two errors are only logged. -/
def userPut (tuple : KeyTuple) : Except Fault (ServerState srv × KeyTuple) :=
  let tp : KeyTuple := { key := tuple.key }
  if tuple.latticeType = .none then
    return (s, tp)
  else if s.typeMismatch tuple.key tuple.latticeType then
    return (s, tp)
  else do
    let s ← s.processPut tuple.key tuple.latticeType tuple.payload
    return (s.markChanged tuple.key, { tp with latticeType := tuple.latticeType })

/-- The branches by request type; an unknown one is only logged. -/
def userProcess (type : RequestType) (tuple : KeyTuple) :
    Except Fault (ServerState srv × KeyTuple) :=
  match type with
  | .get => s.userGet tuple.key
  | .put => s.userPut tuple
  | .rtUnspecified => return (s, { key := tuple.key })

/-- A tuple for a key of this thread. -/
def userServe (now : Nat) (type : RequestType) (threads : List ServerThread)
    (tuple : KeyTuple) : Except Fault (ServerState srv × KeyTuple) := do
  let (s, tp) ← s.userProcess type tuple
  let tp := if tuple.addressCacheSize > 0 ∧ tuple.addressCacheSize ≠ threads.length then
    { tp with invalidate := true } else tp
  return (s.trackAccess tuple.key now, tp)

variable {s}

/-- The entry under which a tuple waits. -/
def pendingOf (request : KeyRequest) (tuple : KeyTuple) : PendingRequest :=
  ⟨request.type, tuple.latticeType, tuple.payload, request.responseAddress, request.requestId⟩

/-- The body of the loop over the tuples; the tuples answered so far are carried
along. -/
def userRequestTuple (now : Nat) (request : KeyRequest)
    (acc : ServerState srv × List KeyTuple) (tuple : KeyTuple) :
    Except Fault (ServerState srv × List KeyTuple) := do
  let (s, answered) := acc
  let lookup ← s.getResponsibleThreads tuple.key [srv.selfTier]
  let s := s.afterLookup lookup
  if lookup.succeed then
    if srv.wt.isIn lookup.threads then
      let (s, tp) ← s.userServe now request.type lookup.threads tuple
      return (s, answered ++ [tp])
    else if ← isMetadata tuple.key then
      -- this node is not responsible for this metadata key
      let tp : KeyTuple :=
        { key := tuple.key, latticeType := tuple.latticeType, error := .wrongThread }
      return (s, answered ++ [tp])
    else
      let s ← s.issueReplicationFactorRequest tuple.key
      return (s.pushRequest tuple.key (pendingOf request tuple), answered)
  else return (s.pushRequest tuple.key (pendingOf request tuple), answered)

/-- The response to a request. -/
def userResponse (request : KeyRequest) (answered : List KeyTuple) : KeyResponse :=
  { type := request.type, tuples := answered, responseId := request.requestId }

def userRequestHandler (s : ServerState srv) (now : Nat) (request : KeyRequest) :
    Except Fault (ServerState srv) := do
  let (s, answered) ← request.tuples.foldlM (userRequestTuple now request) (s, [])
  if answered ≠ [] ∧ request.responseAddress ≠ "" then
    return s.send [(request.responseAddress, .keyResponse (userResponse request answered))]
  else return s

/-! ## `replication_response_handler` -/

/-- `key_replication_map[key].global_replication_[tier] = value` for each entry. -/
def setGlobalFactors (s : ServerState srv) (key : Key) (entries : List (Tier × Nat)) :
    ServerState srv :=
  { s with
    keyReplicationMap := entries.foldl
      (fun m entry => m.insert key ((m.getD key default).setGlobal entry)) s.keyReplicationMap }

/-- `key_replication_map[key].local_replication_[tier] = value` for each entry. -/
def setLocalFactors (s : ServerState srv) (key : Key) (entries : List (Tier × Nat)) :
    ServerState srv :=
  { s with
    keyReplicationMap := entries.foldl
      (fun m entry => m.insert key ((m.getD key default).setLocal entry)) s.keyReplicationMap }

/-- `init_replication`: the loop sets the two factors of one tier after the other. -/
def initReplication (s : ServerState srv) (key : Key) : ServerState srv :=
  kAllTiers.foldl (fun s tier =>
    (s.setGlobalFactors key [(tier, srv.defaultReplication tier)]).setLocalFactors key
      [(tier, srv.defaultLocalReplication)]) s

/-- A waiting GET with a response address. -/
def pendingGet (s : ServerState srv) (key : Key) : Except Fault (ServerState srv × KeyTuple) :=
  let tp : KeyTuple := { key }
  match s.storedKeyMap[key]? with
  | none => return (s, { tp with error := .keyDne })
  | some property =>
    if property.type = .none then return (s, { tp with error := .keyDne })
    else do
      let (res, s) ← s.processGet key property.type
      return (s, { tp with latticeType := property.type, payload := res.1, error := res.2 })

/-- Any other waiting request with a response address; the two errors are only
logged. -/
def pendingPut (s : ServerState srv) (key : Key) (request : PendingRequest) :
    Except Fault (ServerState srv × KeyTuple) :=
  let tp : KeyTuple := { key }
  if request.latticeType = .none then
    return (s, tp)
  else if s.typeMismatch key request.latticeType then
    return (s, tp)
  else do
    let s ← s.processPut key request.latticeType request.payload
    return (s.markChanged key, { tp with latticeType := request.latticeType })

/-- A waiting request with a response address. -/
def pendingProcess (s : ServerState srv) (key : Key) (request : PendingRequest) :
    Except Fault (ServerState srv × KeyTuple) :=
  match request.type with
  | .get => s.pendingGet key
  | _ => s.pendingPut key request

/-- A waiting request without a response address; only PUTs should be. -/
def pendingSilent (s : ServerState srv) (now : Nat) (key : Key) (request : PendingRequest) :
    Except Fault (ServerState srv) :=
  if request.type = .put then
    if request.latticeType = .none then
      return s
    else if s.typeMismatch key request.latticeType then
      return s
    else do
      let s ← s.processPut key request.latticeType request.payload
      return (s.trackAccess key now).markChanged key
  else return s

/-- The response to a waiting request.  An empty id is not set, which is the
same. -/
def pendingResponse (request : PendingRequest) (tp : KeyTuple) : Address × Message :=
  (request.addr, .keyResponse
    { type := request.type, tuples := [tp], responseId := request.responseId })

/-- The body of the loop over the requests that wait for a key. -/
def completeRequest (now : Nat) (key : Key) (responsible : Bool) (s : ServerState srv)
    (request : PendingRequest) : Except Fault (ServerState srv) := do
  if ¬ responsible ∧ request.addr ≠ "" then
    return s.send [pendingResponse request { key, error := .wrongThread }]
  else if responsible ∧ request.addr = "" then
    s.pendingSilent now key request
  else if responsible ∧ request.addr ≠ "" then
    let (s, tp) ← s.pendingProcess key request
    return (s.trackAccess key now).send [pendingResponse request tp]
  else return s

/-- The loop over the requests that wait for a key, once the lookup is made.  That
the factors are missing is only logged. -/
def completeAll (s : ServerState srv) (now : Nat) (key : Key) (lookup : Lookup)
    (requests : List PendingRequest) : Except Fault (ServerState srv) :=
  if lookup.succeed then
    requests.foldlM (completeRequest now key (srv.wt.isIn lookup.threads)) s
  else return s

/-- The part of the handler about waiting requests. -/
def completeRequests (s : ServerState srv) (now : Nat) (key : Key) :
    Except Fault (ServerState srv) :=
  match s.pendingRequests[key]? with
  | none => return s
  | some requests => do
    let lookup ← s.getResponsibleThreads key [srv.selfTier]
    let s ← (s.afterLookup lookup).completeAll now key lookup requests
    return { s with pendingRequests := s.pendingRequests.erase key }

/-- The body of the loop over the gossip that waits for a key. -/
def completeGossipItem (key : Key) (s : ServerState srv) (gossip : PendingGossip) :
    Except Fault (ServerState srv) :=
  if s.typeMismatch key gossip.latticeType then return s
  else s.processPut key gossip.latticeType gossip.payload

/-- Forward the gossip to the threads that are responsible. -/
def forwardGossip (key : Key) (threads : List ServerThread) (items : List PendingGossip) :
    List (Address × Message) :=
  let gossipMap : ExtTreeMap Address KeyRequest := threads.foldl (fun m thread =>
    let address := thread.gossipConnectAddress
    let request := { m.getD address {} with type := .put }
    m.insert address
      (items.foldl (fun r gossip => preparePutTuple r key gossip.latticeType gossip.payload)
        request)) ∅
  gossipMap.toList.map fun p => (p.1, .keyRequest p.2)

/-- Merge or forward the gossip that waits for a key, once the lookup is made. -/
def completeGossipAll (s : ServerState srv) (key : Key) (lookup : Lookup)
    (items : List PendingGossip) : Except Fault (ServerState srv) :=
  if lookup.succeed then
    if srv.wt.isIn lookup.threads then items.foldlM (completeGossipItem key) s
    else return s.send (forwardGossip key lookup.threads items)
  else return s

/-- The part of the handler about waiting gossip. -/
def completeGossip (s : ServerState srv) (key : Key) : Except Fault (ServerState srv) :=
  match s.pendingGossip[key]? with
  | none => return s
  | some items => do
    let lookup ← s.getResponsibleThreads key [srv.selfTier]
    let s ← (s.afterLookup lookup).completeGossipAll key lookup items
    return { s with pendingGossip := s.pendingGossip.erase key }

/-- Both parts. -/
def completePending (s : ServerState srv) (now : Nat) (key : Key) :
    Except Fault (ServerState srv) := do
  let s ← s.completeRequests now key
  s.completeGossip key

/-- The factors that a payload carries: a `ReplicationFactor` inside an
`LWWValue`. -/
def replicationPayload (srv : Server) (payload : String) : ReplicationFactor :=
  (srv.replicationFactor.parseFromString (srv.lwwValue.parseFromString payload).1.value).1

/-- The factors that a response carries, or the default ones when the thread that
was asked has none stored. -/
def learnFactors (s : ServerState srv) (tuple : KeyTuple) : ServerState srv :=
  let key := getKeyFromMetadata tuple.key
  if tuple.error = .noError then
    let repData := replicationPayload srv tuple.payload
    (s.setGlobalFactors key repData.globalValues).setLocalFactors key repData.localValues
  else s.initReplication key

/-- `replication_response_handler`.  There should only be one tuple; an unexpected
error is only logged. -/
def replicationResponseHandler (s : ServerState srv) (now : Nat) (response : KeyResponse) :
    Except Fault (ServerState srv) :=
  match response.tuples with
  | [] => .error .outOfRange
  | tuple :: _ =>
    match tuple.error with
    | .noError | .keyDne =>
      (s.learnFactors tuple).completePending now (getKeyFromMetadata tuple.key)
    | .wrongThread => s.issueReplicationFactorRequest (getKeyFromMetadata tuple.key)
    | _ => return s

/-! ## What a tuple can lead to -/

/-- What a PUT does in either handler: the state after it, and the lattice type
that the response tuple names. -/
inductive PutResult (s : ServerState srv) (key : Key) (type : LatticeType) (payload : String) :
    ServerState srv → LatticeType → Prop where
  | untyped (htype : type = .none) : PutResult s key type payload s .none
  | mismatch (htype : type ≠ .none) (hstored : s.typeMismatch key type = true) :
    PutResult s key type payload s .none
  | merged {s₁ : ServerState srv} (htype : type ≠ .none)
    (hstored : s.typeMismatch key type = false) (hput : s.processPut key type payload = .ok s₁) :
    PutResult s key type payload (s₁.markChanged key) type

theorem userPut_result (h : s.userPut tuple = .ok (s', tp)) :
    ∃ reported, PutResult s tuple.key tuple.latticeType tuple.payload s' reported ∧
      tp = { key := tuple.key, latticeType := reported } := by
  unfold userPut at h
  split at h
  · rename_i htype
    cases h
    exact ⟨_, .untyped htype, rfl⟩
  · rename_i htype
    split at h
    · rename_i hstored
      cases h
      exact ⟨_, .mismatch htype hstored, rfl⟩
    · rename_i hstored
      obtain ⟨_, hput, h⟩ := bind_eq_ok.mp h
      cases h
      exact ⟨_, .merged htype (by simpa using hstored) hput, rfl⟩

theorem userPut_of_accepted {s₁ : ServerState srv} (htype : tuple.latticeType ≠ .none)
    (hstored : s.typeMismatch tuple.key tuple.latticeType = false)
    (hput : s.processPut tuple.key tuple.latticeType tuple.payload = .ok s₁) :
    s.userPut tuple =
      .ok (s₁.markChanged tuple.key, { key := tuple.key, latticeType := tuple.latticeType }) := by
  unfold userPut
  rw [if_neg htype, if_neg (by rw [hstored]; decide), hput]
  rfl

theorem pendingPut_result (h : s.pendingPut key request = .ok (s', tp)) :
    ∃ reported, PutResult s key request.latticeType request.payload s' reported ∧
      tp = { key, latticeType := reported } := by
  let tuple : KeyTuple :=
    { key, latticeType := request.latticeType, payload := request.payload }
  have hsame : s.pendingPut key request = s.userPut tuple := rfl
  exact userPut_result (hsame ▸ h)

theorem pendingResponse_inj {tp' : KeyTuple}
    (h : pendingResponse request tp = pendingResponse request tp') : tp = tp' := by
  simpa [pendingResponse] using h

/-- Neither the messages sent nor the waiting requests change. -/
def Silent (s s' : ServerState srv) : Prop :=
  s'.sent = s.sent ∧ s'.pendingRequests = s.pendingRequests

/-- **The work on a key**: it is read, or a value is merged into it; then it may be marked as
changed, and the access be counted. -/
inductive Works (key : Key) (s : ServerState srv) : ServerState srv → Prop where
  | idle : Works key s s
  | read {type : LatticeType} {serializer : Serializer srv.Store}
    (hat : srv.serializers.at type = .ok serializer) :
    Works key s { s with store := (serializer.get s.store key).2 }
  | merge {s' : ServerState srv} {type : LatticeType} {payload : String}
    (hmatch : s.typeMismatch key type = false) (hput : s.processPut key type payload = .ok s') :
    Works key s s'
  | mark {s' : ServerState srv} (h : Works key s s') : Works key s (s'.markChanged key)
  | track {s' : ServerState srv} (now : Nat) (h : Works key s s') :
    Works key s (s'.trackAccess key now)

theorem Works.silent (h : s.Works key s') : s.Silent s' ∧ s'.pendingGossip = s.pendingGossip := by
  induction h with
  | idle => exact ⟨⟨rfl, rfl⟩, rfl⟩
  | read => exact ⟨⟨rfl, rfl⟩, rfl⟩
  | merge _ hput =>
    obtain ⟨_, -, hput⟩ := bind_eq_ok.mp hput
    cases hput
    exact ⟨⟨rfl, rfl⟩, rfl⟩
  | mark _ ih => exact ih
  | track _ _ ih => exact ih

theorem PutResult.works {reported : LatticeType} {payload : String}
    (h : PutResult s key type payload s' reported) : s.Works key s' := by
  cases h with
  | untyped => exact .idle
  | mismatch => exact .idle
  | merged _ hstored hput => exact .mark (.merge hstored hput)

theorem userGet_works (h : s.userGet key = .ok (s', tp)) : s.Works key s' ∧ tp.key = key := by
  unfold userGet at h
  split at h
  · cases h
    exact ⟨.idle, rfl⟩
  · split at h
    · cases h
      exact ⟨.idle, rfl⟩
    · obtain ⟨⟨_, _⟩, hget, h⟩ := bind_eq_ok.mp h
      obtain ⟨_, hat, hget⟩ := bind_eq_ok.mp hget
      cases hget
      cases h
      exact ⟨.read hat, rfl⟩

theorem userServe_works {type : RequestType} {threads : List ServerThread}
    (h : s.userServe now type threads tuple = .ok (s', tp)) :
    s.Works tuple.key s' ∧ tp.key = tuple.key := by
  obtain ⟨⟨s₁, tp₁⟩, hprocess, h⟩ := bind_eq_ok.mp h
  have hserved : s.Works tuple.key s₁ ∧ tp₁.key = tuple.key := by
    unfold userProcess at hprocess
    split at hprocess
    · exact userGet_works hprocess
    · obtain ⟨_, hresult, rfl⟩ := userPut_result hprocess
      exact ⟨hresult.works, rfl⟩
    · cases hprocess
      exact ⟨.idle, rfl⟩
  cases h
  refine ⟨.track now hserved.1, ?_⟩
  split
  · exact hserved.2
  · exact hserved.2

theorem pendingProcess_works (h : s.pendingProcess key request = .ok (s', tp)) :
    s.Works key s' ∧ tp.key = key := by
  unfold pendingProcess at h
  split at h
  · exact userGet_works h
  · obtain ⟨_, hresult, rfl⟩ := pendingPut_result h
    exact ⟨hresult.works, rfl⟩

theorem pendingSilent_works (h : s.pendingSilent now key request = .ok s') : s.Works key s' := by
  unfold pendingSilent at h
  split at h
  · split at h
    · cases h
      exact .idle
    · split at h
      · cases h
        exact .idle
      · rename_i hstored
        obtain ⟨_, hput, h⟩ := bind_eq_ok.mp h
        cases h
        exact .mark (.track now (.merge (by simpa using hstored) hput))
  · cases h
    exact .idle

theorem completeGossipItem_works {gossip : PendingGossip}
    (h : completeGossipItem key s gossip = .ok s') : s.Works key s' := by
  unfold completeGossipItem at h
  split at h
  · cases h
    exact .idle
  · rename_i hstored
    exact .merge (by simpa using hstored) h

/-- **The ways of a tuple**: this thread serves it, it is refused because its
metadata key belongs to another thread, or it waits. -/
theorem userRequestTuple_cases {request : KeyRequest} {answered answered' : List KeyTuple}
    (h : userRequestTuple now request (s, answered) tuple = .ok (s', answered')) :
    ∃ lookup, s.getResponsibleThreads tuple.key [srv.selfTier] = .ok lookup ∧
      ((lookup.succeed = true ∧ srv.wt.isIn lookup.threads = true ∧
          ∃ tp, (s.afterLookup lookup).userServe now request.type lookup.threads tuple =
            .ok (s', tp) ∧ answered' = answered ++ [tp]) ∨
        (lookup.succeed = true ∧ srv.wt.isIn lookup.threads = false ∧
          isMetadata tuple.key = .ok true ∧ s' = s.afterLookup lookup ∧
          answered' = answered ++
            [{ key := tuple.key, latticeType := tuple.latticeType, error := .wrongThread }]) ∨
        (∃ s₁, s' = s₁.pushRequest tuple.key (pendingOf request tuple) ∧ answered' = answered ∧
          (lookup.succeed = false ∧ s₁ = s.afterLookup lookup ∨
            lookup.succeed = true ∧ srv.wt.isIn lookup.threads = false ∧
              (s.afterLookup lookup).issueReplicationFactorRequest tuple.key = .ok s₁))) := by
  obtain ⟨lookup, hlookup, h⟩ := bind_eq_ok.mp h
  refine ⟨lookup, hlookup, ?_⟩
  split at h
  · rename_i hsucceed
    split at h
    · rename_i hin
      obtain ⟨⟨s₁, tp⟩, hserve, h⟩ := bind_eq_ok.mp h
      cases h
      exact .inl ⟨hsucceed, hin, tp, hserve, rfl⟩
    · rename_i hin
      obtain ⟨metadata, hmetadata, h⟩ := bind_eq_ok.mp h
      split at h
      · rename_i htrue
        subst htrue
        cases h
        exact .inr (.inl ⟨hsucceed, by simpa using hin, hmetadata, rfl, rfl⟩)
      · obtain ⟨s₁, hissue, h⟩ := bind_eq_ok.mp h
        cases h
        exact .inr (.inr ⟨s₁, rfl, rfl, .inr ⟨hsucceed, by simpa using hin, hissue⟩⟩)
  · rename_i hsucceed
    cases h
    exact .inr (.inr ⟨_, rfl, rfl, .inl ⟨by simpa using hsucceed, rfl⟩⟩)

theorem userRequestTuple_of_serve {request : KeyRequest} {answered : List KeyTuple}
    {lookup : Lookup} (hlookup : s.getResponsibleThreads tuple.key [srv.selfTier] = .ok lookup)
    (hsucceed : lookup.succeed = true) (hin : srv.wt.isIn lookup.threads = true)
    (hserve : (s.afterLookup lookup).userServe now request.type lookup.threads tuple =
      .ok (s', tp)) :
    userRequestTuple now request (s, answered) tuple = .ok (s', answered ++ [tp]) := by
  refine bind_eq_ok.mpr ⟨lookup, hlookup, ?_⟩
  rw [if_pos hsucceed, if_pos hin]
  exact bind_eq_ok.mpr ⟨_, hserve, rfl⟩

/-- **The ways of a waiting request.** -/
theorem completeRequest_cases {responsible : Bool}
    (h : completeRequest now key responsible s request = .ok s') :
    (responsible = false ∧ request.addr ≠ "" ∧
        s' = s.send [pendingResponse request { key, error := .wrongThread }]) ∨
      (responsible = true ∧ request.addr = "" ∧ s.pendingSilent now key request = .ok s') ∨
      (responsible = true ∧ request.addr ≠ "" ∧
        ∃ s₁ tp, s.pendingProcess key request = .ok (s₁, tp) ∧
          s' = (s₁.trackAccess key now).send [pendingResponse request tp]) ∨
      (responsible = false ∧ request.addr = "" ∧ s' = s) := by
  unfold completeRequest at h
  cases responsible <;> by_cases haddr : request.addr = ""
  · simp only [haddr, Bool.false_eq_true, not_false_eq_true, ne_eq, not_true_eq_false, and_false,
      false_and, if_false] at h
    cases h
    exact .inr (.inr (.inr ⟨rfl, haddr, rfl⟩))
  · simp only [haddr, Bool.false_eq_true, not_false_eq_true, ne_eq, and_self, if_true] at h
    cases h
    exact .inl ⟨rfl, haddr, rfl⟩
  · simp only [haddr, not_true_eq_false, false_and, if_false, and_self, if_true] at h
    exact .inr (.inl ⟨rfl, haddr, h⟩)
  · simp only [haddr, not_true_eq_false, false_and, if_false, and_false, ne_eq, not_false_eq_true,
      and_self, if_true] at h
    obtain ⟨⟨s₁, tp⟩, hserve, h⟩ := bind_eq_ok.mp h
    cases h
    exact .inr (.inr (.inl ⟨rfl, haddr, s₁, tp, hserve, rfl⟩))

end ServerState

end Testbed.Anna
