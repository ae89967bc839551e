import Testbed.Anna.DeferredRequests
import Testbed.Anna.Routing

/-! # Answers to queries that waited

`replication_response_handler.cpp` of the routing tier.  When the factors of a key come in,
all queries that wait for the key are answered.  The tiers are searched by a loop of its
own, which differs from that of `address_handler` in that it takes the key for a data key.

A query that waited is answered as it would have been at once, and so is everybody else
who waits for the key, once (`waiting_answered_as_at_once`).
-/
namespace Testbed.Anna

open Std Lib ExtTreeMap

namespace RoutingState
variable {router : Router}

/-! ## `replication_response_handler` -/

/-- The factors that a payload carries. -/
def replicationPayload (router : Router) (payload : String) : ReplicationFactor :=
  (router.replicationFactor.parseFromString (router.lwwValue.parseFromString payload).1.value).1

variable (s : RoutingState router) (key : Key)

/-- The factors of a response are set. -/
def learnFactors (repData : ReplicationFactor) : RoutingState router :=
  let known := repData.globalValues.foldl
    (fun m entry => m.insert key ((m.getD key default).setGlobal entry)) s.keyReplicationMap
  { s with
    keyReplicationMap := repData.localValues.foldl
      (fun m entry => m.insert key ((m.getD key default).setLocal entry)) known }

def initReplication : RoutingState router :=
  kAllTiers.foldl (fun s tier => s.learnFactors key
    { globalValues := [(tier, router.defaultReplication tier)]
      localValues := [(tier, router.defaultLocalReplication)] }) s

/-- The loop over the tiers. -/
def waitingThreads (s : RoutingState router) (key : Key) :
    List Tier → Except Fault (RoutingState router × Option (List ServerThread))
  | [] => return (s, some [])
  | tier :: tiers => do
    let lookup ← Anna.getResponsibleThreads router.rt.replicationResponseConnectAddress key false
      s.toRingMaps s.keyReplicationMap [tier] s.seed
    let s := s.afterLookup lookup
    if lookup.threads.length > 0 then return (s, some lookup.threads)
    else if !lookup.succeed then return (s, none)
    else s.waitingThreads key tiers

/-- The answer to a query that waits. -/
def answerTo (threads : List ServerThread) (waiting : Address × String) :
    Address × RoutingMessage :=
  (waiting.1, .keyAddressResponse
    { addresses := [⟨key, threads.map ServerThread.keyRequestConnectAddress⟩]
      responseId := waiting.2 })

/-- All queries that wait for the key are answered. -/
def answerWaiting : Except Fault (RoutingState router) :=
  match s.pendingRequests[key]? with
  | none => return s
  | some waiting => do
    match ← s.waitingThreads key kAllTiers with
    | (s, none) => return s
    | (s, some threads) =>
      return { s with
        sent := s.sent ++ waiting.map (answerTo key threads)
        pendingRequests := s.pendingRequests.erase key }

/-- `replication_response_handler`.  There should only be one tuple; an unexpected
error is only logged. -/
def replicationResponseHandler (response : KeyResponse) : Except Fault (RoutingState router) :=
  match response.tuples with
  | [] => .error .outOfRange
  | tuple :: _ =>
    let key := getKeyFromMetadata tuple.key
    match tuple.error with
    | .noError => (s.learnFactors key (replicationPayload router tuple.payload)).answerWaiting key
    | .keyDne => (s.initReplication key).answerWaiting key
    | .wrongThread => do
      let (message, seed) ← issueReplicationFactorRequest
        router.rt.replicationResponseConnectAddress key s.toRingMaps s.seed
      return s.ask message seed
    | _ => return s

/-! ## The two ways -/

variable {s : RoutingState router} {key : Key} {R : ReplicationFactor}

/-- The state in which the factors of the key are known. -/
def withFactors (s : RoutingState router) (key : Key) (R : ReplicationFactor) :
    RoutingState router :=
  { s with keyReplicationMap := s.keyReplicationMap.insert key R.toKeyReplication }

/-- The response brings the factors `R` of the key. -/
def Brings (router : Router) (response : KeyResponse) (key : Key) (R : ReplicationFactor) : Prop :=
  ∃ tuple rest, response.tuples = tuple :: rest ∧ tuple.key = getMetadataKey key ∧
    tuple.error = .noError ∧ replicationPayload router tuple.payload = R

/-- The factors list both tiers. -/
def ListsTiers (R : ReplicationFactor) : Prop :=
  ∀ tier ∈ kAllTiers, (∃ n, (tier, n) ∈ R.globalValues) ∧ ∃ n, (tier, n) ∈ R.localValues

theorem waitingThreads_eq_tierLoop (hkey : isMetadata key = .ok false) (tiers : List Tier) :
    s.waitingThreads key tiers = s.tierLoop key tiers := by
  induction tiers generalizing s with
  | nil => rfl
  | cons _ _ ih =>
    rw [waitingThreads, tierLoop, getResponsibleThreads, hkey]
    simp only [ih]
    rfl

theorem learnFactors_eq (hunknown : s.keyReplicationMap[key]? = none) (hlists : ListsTiers R) :
    s.learnFactors key R = s.withFactors key R := by
  obtain ⟨⟨n, hn⟩, _, hn'⟩ := hlists .memory List.mem_cons_self
  have hdefault : s.keyReplicationMap.getD key default = default := by
    rw [getD_eq_getD_getElem?, hunknown]
    rfl
  unfold learnFactors withFactors
  dsimp only
  rw [ServerState.foldl_insert_eq _ (List.ne_nil_of_mem hn),
    ServerState.foldl_insert_eq _ (List.ne_nil_of_mem hn'), getD_insert_self, hdefault,
    ServerState.insert_insert_self]
  rfl

theorem exists_threads {rings : RingMaps router.toConfig} (hkey : isMetadata key = .ok false)
    (hfits : rings.Fits R.toKeyReplication kAllTiers) :
    ∃ threads, ∀ s : RoutingState router, s.toRingMaps = rings →
      s.keyReplicationMap[key]? = some R.toKeyReplication →
      s.tierLoop key kAllTiers = .ok (s, some threads) := by
  have hfits' : ∀ tier ∈ kAllTiers, rings.Fits R.toKeyReplication [tier] :=
    fun tier htier tier' htier' => hfits tier' (List.mem_singleton.mp htier' ▸ htier)
  obtain ⟨memory, hmemory⟩ := (responsibleThreads_returns_iff key).mpr (hfits' .memory (by decide))
  obtain ⟨disk, hdisk⟩ := (responsibleThreads_returns_iff key).mpr (hfits' .disk (by decide))
  refine ⟨if memory = [] then disk else memory, fun s hrings hrep => ?_⟩
  subst hrings
  have hlookup : ∀ {tier threads}, responsibleThreads s.toRingMaps key R.toKeyReplication [tier] =
      .ok threads → s.getResponsibleThreads key [tier] = .ok ⟨threads, true, s.seed, []⟩ :=
    fun hthreads => by rw [lookup_known hkey hrep, hthreads]; rfl
  rw [kAllTiers, tierLoop_of_lookup (hlookup hmemory), tierLoop_of_lookup (hlookup hdisk)]
  split
  · cases disk with
    | nil => rfl
    | cons => rfl
  · rfl

variable {request : KeyAddressRequest} {response : KeyResponse}

theorem addressHandler_waits (hmemory : (s.globalHashRings .memory).nodes.nodes ≠ ∅)
    (hunknown : s.Unknown key) (hkeys : request.keys = [key]) :
    s.addressHandler request = do
      let (message, seed) ← issueReplicationFactorRequest
        router.rt.replicationResponseConnectAddress key s.toRingMaps s.seed
      return (s.ask message seed).pushPending key request := by
  have hsplit : request.keys = [] ++ key :: [] := hkeys
  exact (addressHandler_stops (numServers_ne_zero hmemory) hsplit nofun).1 hunknown

variable {threads : List ServerThread}

theorem addressHandler_at_once (hmemory : (s.globalHashRings .memory).nodes.nodes ≠ ∅)
    (hkey : isMetadata key = .ok false) (hkeys : request.keys = [key])
    (hthreads : s.tierLoop key kAllTiers = .ok (s, some threads)) :
    s.addressHandler request = .ok { s with
      sent := s.sent ++ [answerTo key threads (request.responseAddress, request.requestId)] } := by
  have hlength : key.length > 0 := by
    refine Nat.pos_of_ne_zero fun hzero => ?_
    rw [String.length_eq_zero_iff.mp hzero] at hkey
    cases hkey
  rw [addressHandler, if_neg (numServers_ne_zero hmemory), hkeys, addressKeys, keyThreads,
    if_pos hlength, hthreads]
  rfl

theorem replicationResponseHandler_answers (hunknown : s.Unknown key) (hlists : ListsTiers R)
    (hbrings : Brings router response key R) {waiting : List (Address × String)}
    (hwaiting : s.pendingRequests[key]? = some waiting)
    (hthreads : (s.withFactors key R).tierLoop key kAllTiers =
      .ok (s.withFactors key R, some threads)) :
    s.replicationResponseHandler response = .ok { s.withFactors key R with
      sent := s.sent ++ waiting.map (answerTo key threads)
      pendingRequests := s.pendingRequests.erase key } := by
  obtain ⟨_, _, htuples, hkey, herror, hpayload⟩ := hbrings
  have hstill : (s.withFactors key R).pendingRequests[key]? = some waiting := hwaiting
  rw [replicationResponseHandler, htuples]
  dsimp only
  rw [herror, hkey, getKeyFromMetadata_getMetadataKey, hpayload]
  rw [learnFactors_eq hunknown.2 hlists, answerWaiting, hstill]
  rw [waitingThreads_eq_tierLoop hunknown.1, hthreads]
  rfl

/-- **Waiting makes no difference**: once the factors can be asked for, a query that waits for
them gets the answer that it would have got at once, and everybody who waits for the key is
answered just once. -/
theorem waiting_answered_as_at_once (hmemory : (s.globalHashRings .memory).nodes.nodes ≠ ∅)
    (hunknown : s.Unknown key) (hkeys : request.keys = [key]) (hlists : ListsTiers R)
    (hfits : s.toRingMaps.Fits R.toKeyReplication kAllTiers)
    (hbrings : Brings router response key R) :
    ((∃ asked, s.addressHandler request = .ok asked) ↔ MetadataServed s.toRingMaps) ∧
    ∃ threads s₂, (s.withFactors key R).addressHandler request = .ok s₂ ∧
      s₂.sent = s.sent ++ [answerTo key threads (request.responseAddress, request.requestId)] ∧
      ∀ asked, s.addressHandler request = .ok asked →
        addressResponses (asked.sent.drop s.sent.length) = [] ∧
        ∃ s₁, asked.replicationResponseHandler response = .ok s₁ ∧
          s₁.sent = asked.sent ++ (s.pendingRequests.getD key [] ++
            [(request.responseAddress, request.requestId)]).map (answerTo key threads) ∧
          s₁.pendingRequests[key]? = none := by
  have hwaits := addressHandler_waits hmemory hunknown hkeys
  obtain ⟨threads, hthreads⟩ := exists_threads hunknown.1 hfits
  refine ⟨?_, threads, _, addressHandler_at_once (s := s.withFactors key R) hmemory hunknown.1 hkeys
    (hthreads _ rfl getElem?_insert_self), rfl, fun asked hasked => ?_⟩
  · rw [← issue_returns_iff router.rt.replicationResponseConnectAddress key s.toRingMaps s.seed,
      hwaits]
    constructor
    · rintro ⟨asked, hasked⟩
      obtain ⟨⟨message, seed⟩, hissue, -⟩ := bind_eq_ok.mp hasked
      exact ⟨message, seed, hissue⟩
    · rintro ⟨message, seed, hissue⟩
      exact ⟨_, by rw [hissue]; rfl⟩
  · rw [hwaits] at hasked
    obtain ⟨⟨message, seed⟩, -, hasked⟩ := bind_eq_ok.mp hasked
    cases hasked
    let asked := (s.ask message seed).pushPending key request
    refine ⟨?_, _, replicationResponseHandler_answers (s := asked) hunknown hlists hbrings
      getElem?_insert_self (hthreads _ rfl getElem?_insert_self), rfl,
      getElem?_erase_self⟩
    change addressResponses ((s.sent ++ [_]).drop _) = []
    rw [List.drop_left]
    rfl

end RoutingState

/-- A query for `"k"` waits for its factors at a routing thread next to a memory node. -/
theorem waiting_answered_solo : ∃ (router : Router) (s asked s₁ : RoutingState router)
    (request : KeyAddressRequest) (response : KeyResponse) (threads : List ServerThread),
    request.keys = ["k"] ∧ s.Unknown "k" ∧ s.addressHandler request = .ok asked ∧
      asked.replicationResponseHandler response = .ok s₁ ∧
      s₁.sent = asked.sent ++ [RoutingState.answerTo "k" threads ("c", "1")] := by
  obtain ⟨codecs, repCodec⟩ := exists_codecs
  let s : RoutingState (soloRouter codecs repCodec) :=
    { soloRouting codecs repCodec with keyReplicationMap := ∅ }
  have hserved : MetadataServed s.toRingMaps := soloRouting_metadataServed codecs repCodec
  have hunknown : s.Unknown "k" := ⟨by decide, getElem?_empty⟩
  have hdeferral := soloState_deferral codecs repCodec
  have hfits : s.toRingMaps.Fits oneOfK.toKeyReplication kAllTiers := by
    intro tier htier
    cases tier with
    | memory => exact ⟨GlobalFits.one _, fun _ _ => LocalFits.one _⟩
    | disk => exact ⟨GlobalFits.one _, fun _ _ => LocalFits.one _⟩
    | _ => exact absurd htier (by decide)
  let request : KeyAddressRequest := { responseAddress := "c", keys := ["k"], requestId := "1" }
  have hkeys : request.keys = ["k"] := rfl
  obtain ⟨hreturns, threads, -, -, -, hanswers⟩ := RoutingState.waiting_answered_as_at_once
    hserved.server hunknown hkeys hdeferral.lists hfits hdeferral.brings
  obtain ⟨asked, hasked⟩ := hreturns.mpr hserved
  obtain ⟨-, s₁, hs₁, hsent, -⟩ := hanswers asked hasked
  have hnobody : s.pendingRequests.getD "k" [] = [] := getD_empty
  exact ⟨_, s, asked, s₁, request, _, threads, rfl, hunknown, hasked, hs₁, hsent⟩

end Testbed.Anna
