import Testbed.Anna.RingWalks
import Testbed.Anna.SmallClusters

/-! # The routing tier

`address_handler.cpp`: clients ask a routing thread where keys are kept.  The thread looks
each key up, tier by tier, and answers with the addresses of the threads of the first tier
that has any.  When it does not know the factors of a key, the lookup asks for them, and
the query waits in `pending_requests`.

A query may list several keys, and all are answered in one response.  The handler
returns as soon as one of the keys has to wait (`addressKeys`): neither the keys before
it nor those after it are answered then, and only that key is recorded.  So a query is
served just if none of its keys or all of them have to wait, and in the second case only
if all but the first are recorded already (`addressHandler_serves_iff`).
-/
namespace Testbed.Anna

open Std (ExtTreeMap)
open Lib List

/-- What a routing thread sends. -/
inductive RoutingMessage where
  | factorRequest (message : Message)
  | keyAddressResponse (response : KeyAddressResponse)
deriving DecidableEq

/-- A routing thread: its process and its name. -/
structure Router extends Config where
  rt : RoutingThread

/-- The variables of `run` in `routing.cpp`; `sent` is what the thread has sent so far. -/
structure RoutingState (router : Router) extends RingMaps router.toConfig where
  seed : UInt32
  keyReplicationMap : ExtTreeMap Key KeyReplication
  pendingRequests : ExtTreeMap Key (List (Address × String))
  sent : List (Address × RoutingMessage)

namespace RoutingState
variable {router : Router}

/-! ## `address_handler` -/

variable (s : RoutingState router)

/-- The number of slots that servers have on the global rings. -/
def numServers : Nat :=
  [Tier.tierUnspecified, .memory, .disk, .routing].foldl
    (fun n tier => n + (s.globalHashRings tier).nodes.nodes.size) 0

/-- The call of `get_responsible_threads` that the handlers make. -/
def getResponsibleThreads (s : RoutingState router) (key : Key) (tiers : List Tier) :
    Except Fault Lookup := do
  Anna.getResponsibleThreads router.rt.replicationResponseConnectAddress key (← isMetadata key)
    s.toRingMaps s.keyReplicationMap tiers s.seed

/-- The state after a lookup. -/
def afterLookup (lookup : Lookup) : RoutingState router :=
  { s with
    seed := lookup.seed
    sent := s.sent ++ lookup.sent.map fun message => (message.1, .factorRequest message.2) }

/-- The loop over the tiers: the threads of the first tier that has any, or `none` when
the factors of the key are missing. -/
def tierLoop (s : RoutingState router) (key : Key) :
    List Tier → Except Fault (RoutingState router × Option (List ServerThread))
  | [] => return (s, some [])
  | tier :: tiers => do
    let lookup ← s.getResponsibleThreads key [tier]
    let s := s.afterLookup lookup
    if lookup.threads.length > 0 then return (s, some lookup.threads)
    else if !lookup.succeed then return (s, none)
    else s.tierLoop key tiers

/-- The threads of a key.  An empty key is not looked up. -/
def keyThreads (key : Key) : Except Fault (RoutingState router × Option (List ServerThread)) :=
  if key.length > 0 then s.tierLoop key kAllTiers else return (s, some [])

/-- `pending_requests[key].push_back(...)`. -/
def pushPending (key : Key) (request : KeyAddressRequest) : RoutingState router :=
  let waiting := s.pendingRequests.getD key []
  { s with pendingRequests := s.pendingRequests.insert key
             (waiting ++ [(request.responseAddress, request.requestId)]) }

/-- The loop over the keys, with the addresses found so far.  It ends with `none` when the
handler returns from within. -/
def addressKeys (request : KeyAddressRequest) (s : RoutingState router)
    (addresses : List KeyAddress) :
    List Key → Except Fault (RoutingState router × Option (List KeyAddress))
  | [] => return (s, some addresses)
  | key :: keys => do
    match ← s.keyThreads key with
    | (s, none) => return (s.pushPending key request, none)
    | (s, some threads) =>
      addressKeys request s
        (addresses ++ [⟨key, threads.map ServerThread.keyRequestConnectAddress⟩]) keys

variable (request : KeyAddressRequest)

/-- Send the response. -/
def respond (addresses : List KeyAddress) (error : AnnaError) : RoutingState router :=
  let response : KeyAddressResponse := { addresses, error, responseId := request.requestId }
  { s with sent := s.sent ++ [(request.responseAddress, .keyAddressResponse response)] }

/-- `address_handler`.  Without keys there is nothing to respond to. -/
def addressHandler : Except Fault (RoutingState router) :=
  if s.numServers = 0 then
    return s.respond request (request.keys.map fun key => { key }) .noServers
  else do
    match ← s.addressKeys request [] request.keys with
    | (s, none) => return s
    | (s, some []) => return s
    | (s, some addresses) => return s.respond request addresses .noError

/-! ## The threads of a key -/

variable {s : RoutingState router} {key : Key} {tiers : List Tier}

/-- The factors of the key are missing. -/
def Unknown (s : RoutingState router) (key : Key) : Prop :=
  isMetadata key = .ok false ∧ s.keyReplicationMap[key]? = none

/-- The request for missing factors. -/
def ask (s : RoutingState router) (message : Address × Message) (seed : UInt32) :
    RoutingState router :=
  { s with seed, sent := s.sent ++ [(message.1, .factorRequest message.2)] }

theorem keyThreads_unknown (h : s.Unknown key) : s.keyThreads key = do
      let (message, seed) ← issueReplicationFactorRequest
        router.rt.replicationResponseConnectAddress key s.toRingMaps s.seed
      return (s.ask message seed, none) := by
  have hsome : key.length > 0 := by
    refine Nat.pos_of_ne_zero fun hzero => ?_
    have hempty := String.length_eq_zero_iff.mp hzero
    rw [hempty] at h
    cases h.1
  have hlookup : s.getResponsibleThreads key [.memory] = do
      let (message, seed) ← issueReplicationFactorRequest
        router.rt.replicationResponseConnectAddress key s.toRingMaps s.seed
      return ⟨[], false, seed, [message]⟩ := by
    rw [getResponsibleThreads, h.1]
    simp only [bind, Except.bind, Anna.getResponsibleThreads, h.2]
    rfl
  rw [keyThreads, if_pos hsome, kAllTiers, tierLoop, hlookup]
  cases issueReplicationFactorRequest router.rt.replicationResponseConnectAddress key
      s.toRingMaps s.seed with
  | error => rfl
  | ok => rfl

variable {tier : Tier}

theorem tierLoop_of_lookup {threads : List ServerThread}
    (h : s.getResponsibleThreads key [tier] = .ok ⟨threads, true, s.seed, []⟩) :
    s.tierLoop key (tier :: tiers) =
      if threads = [] then s.tierLoop key tiers else .ok (s, some threads) := by
  have hsame : s.afterLookup ⟨threads, true, s.seed, []⟩ = s := by
    rw [afterLookup, map_nil, append_nil]
  rw [tierLoop, h]
  simp only [bind, Except.bind, hsame]
  cases threads with
  | nil => rfl
  | cons => rfl

theorem tierLoop_of_error {e : Fault} (h : s.getResponsibleThreads key [tier] = .error e) :
    s.tierLoop key (tier :: tiers) = .error e := by
  rw [tierLoop, h]
  rfl

/-- The memory tier has no thread for a key with these factors. -/
def NoMemoryThread (s : RoutingState router) (rep : KeyReplication) : Prop :=
  rep.globalAt .memory = 0 ∨ rep.localAt .memory = 0 ∨
    (s.globalHashRings .memory).nodes.nodes = ∅ ∨ (s.localHashRings .memory).nodes.nodes = ∅

/-- The factors fit.  The disk tier is looked at only if the memory tier has no thread. -/
def FactorsEnd (s : RoutingState router) (rep : KeyReplication) : Prop :=
  s.toRingMaps.Fits rep [.memory] ∧ (s.NoMemoryThread rep → s.toRingMaps.Fits rep [.disk])

theorem lookup_metadata (hkey : isMetadata key = .ok true) (tier : Tier) :
    s.getResponsibleThreads key [tier] = do
      let threads ← getResponsibleThreadsMetadata s.toRingMaps key
      return ⟨threads, true, s.seed, []⟩ := by
  rw [getResponsibleThreads, hkey]
  rfl

variable {rep : KeyReplication}

theorem lookup_known (hkey : isMetadata key = .ok false)
    (hrep : s.keyReplicationMap[key]? = some rep) (tier : Tier) :
    s.getResponsibleThreads key [tier] = do
      let threads ← responsibleThreads s.toRingMaps key rep [tier]
      return ⟨threads, true, s.seed, []⟩ := by
  rw [getResponsibleThreads, hkey]
  simp only [bind, Except.bind, Anna.getResponsibleThreads, hrep]
  rfl

theorem tierLoop_metadata (hkey : isMetadata key = .ok true) : (s.toRingMaps.MetadataEnds ∧
        ∃ threads, s.tierLoop key kAllTiers = .ok (s, some threads)) ∨
      (¬ s.toRingMaps.MetadataEnds ∧ s.tierLoop key kAllTiers = .error .nonTermination) := by
  by_cases hends : s.toRingMaps.MetadataEnds
  · obtain ⟨threads, hthreads⟩ := hends.returns key
    have hlookup : ∀ tier, s.getResponsibleThreads key [tier] =
        .ok ⟨threads, true, s.seed, []⟩ := fun tier => by
      rw [lookup_metadata hkey, hthreads]
      rfl
    refine .inl ⟨hends, threads, ?_⟩
    rw [kAllTiers, tierLoop_of_lookup (hlookup .memory), tierLoop_of_lookup (hlookup .disk)]
    cases threads with
    | nil => rfl
    | cons => rfl
  · refine .inr ⟨hends, tierLoop_of_error ?_⟩
    rw [lookup_metadata hkey, metadataThreads_of_not_ends hends]
    rfl

theorem tierLoop_known (hkey : isMetadata key = .ok false)
    (hrep : s.keyReplicationMap[key]? = some rep) :
    (s.FactorsEnd rep ∧ ∃ threads, s.tierLoop key kAllTiers = .ok (s, some threads)) ∨
      (¬ s.FactorsEnd rep ∧ s.tierLoop key kAllTiers = .error .nonTermination) := by
  have hhangs : ∀ tier, ¬ s.toRingMaps.Fits rep [tier] →
      s.getResponsibleThreads key [tier] = .error .nonTermination := fun tier hfits => by
    rw [lookup_known hkey hrep, responsibleThreads_of_not_fits key hfits]
    rfl
  by_cases hmemory : s.toRingMaps.Fits rep [.memory]
  · obtain ⟨threads, hthreads⟩ := (responsibleThreads_returns_iff key).mpr hmemory
    have hlookup : s.getResponsibleThreads key [.memory] = .ok ⟨threads, true, s.seed, []⟩ := by
      rw [lookup_known hkey hrep, hthreads]
      rfl
    have hnone : threads = [] ↔ s.NoMemoryThread rep := by
      rw [responsibleThreads_one] at hthreads
      rw [NoMemoryThread, ← tierThreads_eq_nil_iff (hmemory .memory mem_cons_self), hthreads,
        Except.ok.injEq]
    rw [kAllTiers, tierLoop_of_lookup hlookup]
    by_cases hempty : threads = []
    · rw [if_pos hempty]
      by_cases hdisk : s.toRingMaps.Fits rep [.disk]
      · obtain ⟨diskThreads, hdiskThreads⟩ := (responsibleThreads_returns_iff key).mpr hdisk
        have hlookup' : s.getResponsibleThreads key [.disk] =
            .ok ⟨diskThreads, true, s.seed, []⟩ := by
          rw [lookup_known hkey hrep, hdiskThreads]
          rfl
        refine .inl ⟨⟨hmemory, fun _ => hdisk⟩, diskThreads, ?_⟩
        rw [tierLoop_of_lookup hlookup']
        cases diskThreads with
        | nil => rfl
        | cons => rfl
      · exact .inr ⟨fun hends => hdisk (hends.2 (hnone.mp hempty)),
          tierLoop_of_error (hhangs .disk hdisk)⟩
    · rw [if_neg hempty]
      exact .inl ⟨⟨hmemory, fun hno => absurd (hnone.mpr hno) hempty⟩, threads, rfl⟩
  · exact .inr ⟨fun hends => hmemory hends.1, tierLoop_of_error (hhangs .memory hmemory)⟩

/-- The lookups of a key end. -/
structure RoutesEnd (s : RoutingState router) (key : Key) : Prop where
  metadata : isMetadata key = .ok true → s.toRingMaps.MetadataEnds
  factors : isMetadata key = .ok false → ∀ rep, s.keyReplicationMap[key]? = some rep →
    s.FactorsEnd rep

/-- **The threads of a key** with known factors are found just if the lookups end, and
finding them changes nothing. -/
theorem keyThreads_known (h : ¬ s.Unknown key) :
    (s.RoutesEnd key ∧ ∃ threads, s.keyThreads key = .ok (s, some threads)) ∨
      (¬ s.RoutesEnd key ∧ s.keyThreads key = .error .nonTermination) := by
  by_cases hempty : key = ""
  · subst hempty
    exact .inl ⟨⟨nofun, nofun⟩, [], rfl⟩
  · have hlength := Nat.pos_of_ne_zero (mt String.length_eq_zero_iff.mp hempty)
    rw [keyThreads, if_pos hlength]
    obtain ⟨metadata, hkey⟩ := isMetadata_returns hempty
    cases metadata with
    | true =>
      refine (tierLoop_metadata hkey).imp (And.imp_left fun hends => ⟨fun _ => hends, ?_⟩)
        (And.imp_left fun hends hroutes => hends (hroutes.metadata hkey))
      rw [hkey]
      nofun
    | false =>
      obtain ⟨rep, hrep⟩ := Option.ne_none_iff_exists'.mp fun hnone => h ⟨hkey, hnone⟩
      refine (tierLoop_known hkey hrep).imp (And.imp_left fun hends => ⟨?_, fun _ rep' hrep' => ?_⟩)
        (And.imp_left fun hends hroutes => hends (hroutes.factors hkey rep hrep))
      · rw [hkey]
        nofun
      · rw [hrep] at hrep'
        cases hrep'
        exact hends

/-! ## The keys of a query -/

variable {request : KeyAddressRequest} {addresses : List KeyAddress}

/-- The key can be answered at once. -/
structure Answerable (s : RoutingState router) (key : Key) : Prop where
  known : ¬ s.Unknown key
  ends : s.RoutesEnd key

theorem addressKeys_append {keys : List Key} (h : ∀ key ∈ keys, s.Answerable key)
    (request : KeyAddressRequest) (addresses : List KeyAddress) :
    ∃ found, found.map KeyAddress.key = keys ∧ ∀ rest,
      s.addressKeys request addresses (keys ++ rest) =
        s.addressKeys request (addresses ++ found) rest := by
  induction keys generalizing addresses with
  | nil => exact ⟨[], rfl, fun rest => by rw [append_nil]; rfl⟩
  | cons key _ ih =>
    obtain ⟨hknown, hends⟩ := h key mem_cons_self
    obtain ⟨-, threads, hthreads⟩ := (keyThreads_known hknown).resolve_right fun hno => hno.1 hends
    let address : KeyAddress := ⟨key, threads.map ServerThread.keyRequestConnectAddress⟩
    obtain ⟨found, hfound, hrest⟩ :=
      ih (fun k hk => h k (mem_cons_of_mem key hk)) (addresses ++ [address])
    refine ⟨address :: found, congrArg (key :: ·) hfound, fun rest => ?_⟩
    rw [cons_append, addressKeys, hthreads]
    exact (hrest rest).trans (by rw [append_assoc, singleton_append])

theorem addressKeys_unknown (h : s.Unknown key) (keys : List Key) :
    s.addressKeys request addresses (key :: keys) = do
      let (message, seed) ← issueReplicationFactorRequest
        router.rt.replicationResponseConnectAddress key s.toRingMaps s.seed
      return ((s.ask message seed).pushPending key request, none) := by
  rw [addressKeys, keyThreads_unknown h]
  cases issueReplicationFactorRequest router.rt.replicationResponseConnectAddress key
      s.toRingMaps s.seed with
  | error => rfl
  | ok => rfl

theorem addressKeys_hangs (hknown : ¬ s.Unknown key) (hends : ¬ s.RoutesEnd key) (keys : List Key) :
    s.addressKeys request addresses (key :: keys) = .error .nonTermination := by
  obtain ⟨-, hhangs⟩ := (keyThreads_known hknown).resolve_left fun hyes => hends hyes.1
  rw [addressKeys, hhangs]
  rfl

theorem numServers_ne_zero (h : (s.globalHashRings tier).nodes.nodes ≠ ∅) : s.numServers ≠ 0 := by
  have hsize : (s.globalHashRings tier).nodes.nodes.size ≠ 0 := by
    intro hzero
    exact h (ExtTreeMap.eq_empty_iff_size_eq_zero.mpr hzero)
  simp only [numServers, foldl_cons, foldl_nil]
  cases tier <;> omega

theorem addressHandler_answers (hservers : s.numServers ≠ 0)
    (h : ∀ key ∈ request.keys, s.Answerable key) :
    ∃ found, found.map KeyAddress.key = request.keys ∧ s.addressHandler request =
        .ok (if found = [] then s else s.respond request found .noError) := by
  obtain ⟨found, hfound, hkeys⟩ := addressKeys_append h request []
  have hloop := hkeys []
  rw [append_nil, nil_append] at hloop
  refine ⟨found, hfound, ?_⟩
  rw [addressHandler, if_neg hservers, hloop]
  cases found with
  | nil => rfl
  | cons => rfl

theorem addressHandler_stops (hservers : s.numServers ≠ 0) {pre post : List Key}
    (hsplit : request.keys = pre ++ key :: post) (hpre : ∀ k ∈ pre, s.Answerable k) :
    (s.Unknown key → s.addressHandler request = do
      let (message, seed) ← issueReplicationFactorRequest
        router.rt.replicationResponseConnectAddress key s.toRingMaps s.seed
      return (s.ask message seed).pushPending key request) ∧
    (¬ s.Unknown key → ¬ s.RoutesEnd key → s.addressHandler request = .error .nonTermination) := by
  obtain ⟨_, -, hkeys⟩ := addressKeys_append hpre request []
  rw [addressHandler, if_neg hservers, hsplit, hkeys]
  constructor
  · intro hunknown
    rw [addressKeys_unknown hunknown]
    cases issueReplicationFactorRequest router.rt.replicationResponseConnectAddress key
        s.toRingMaps s.seed with
    | error => rfl
    | ok => rfl
  · intro hknown hends
    rw [addressKeys_hangs hknown hends]
    rfl

/-! ## Queries that are served -/

/-- The responses to queries among some messages. -/
def addressResponses (messages : List (Address × RoutingMessage)) :
    List (Address × KeyAddressResponse) :=
  messages.filterMap fun message =>
    match message.2 with
    | .factorRequest _ => none
    | .keyAddressResponse response => some (message.1, response)

/-- Between two states one response goes to the requester, and it lists the key. -/
def Answered (s s' : RoutingState router) (request : KeyAddressRequest) (key : Key) : Prop :=
  ∃ messages response, s'.sent = s.sent ++ messages ∧
    addressResponses messages = [(request.responseAddress, response)] ∧
    response.responseId = request.requestId ∧ ∃ address ∈ response.addresses, address.key = key

/-- The query waits for the factors of the key. -/
def Recorded (s : RoutingState router) (request : KeyAddressRequest) (key : Key) : Prop :=
  (request.responseAddress, request.requestId) ∈ s.pendingRequests.getD key []

/-- Each key of a query is answered or recorded, and answered if it can be at once. -/
def Serves (s : RoutingState router) (request : KeyAddressRequest) : Prop :=
  ∃ s', s.addressHandler request = .ok s' ∧ ∀ key ∈ request.keys,
    (s.Answered s' request key ∨ s'.Recorded request key) ∧
      (¬ s.Unknown key → s.Answered s' request key)

theorem answered_respond {found : List KeyAddress} (h : key ∈ found.map KeyAddress.key) :
    s.Answered (s.respond request found .noError) request key := by
  obtain ⟨address, haddress, hkey⟩ := mem_map.mp h
  exact ⟨_, _, rfl, rfl, rfl, address, haddress, hkey⟩

theorem not_answered_ask {message : Address × Message} {seed : UInt32} {first : Key} :
    ¬ s.Answered ((s.ask message seed).pushPending first request) request key := by
  rintro ⟨_, _, hsent, hresponses, -⟩
  rw [← append_cancel_left hsent] at hresponses
  cases hresponses

theorem recorded_pushPending {first : Key} : (s.pushPending first request).Recorded request key ↔
      key = first ∨ s.Recorded request key := by
  unfold Recorded pushPending
  by_cases hkey : key = first
  · subst hkey
    rw [ExtTreeMap.getD_insert_self]
    exact iff_of_true (mem_append_right _ (mem_singleton_self _)) (.inl rfl)
  · rw [ExtTreeMap.getD_insert, if_neg fun heq => hkey (Std.compare_eq_iff_eq.mp heq).symm]
    exact (or_iff_right hkey).symm

theorem serves_of_answerable (hservers : s.numServers ≠ 0)
    (h : ∀ key ∈ request.keys, s.Answerable key) : s.Serves request := by
  obtain ⟨_, hfound, hs'⟩ := addressHandler_answers hservers h
  refine ⟨_, hs', fun key hkey => ?_⟩
  rw [← hfound] at hkey
  rw [if_neg fun hnil => not_mem_nil (hnil ▸ hkey)]
  exact ⟨.inl (answered_respond hkey), fun _ => answered_respond hkey⟩

theorem exists_first_stop {keys : List Key} (h : ¬ ∀ key ∈ keys, s.Answerable key) :
    ∃ pre key post, keys = pre ++ key :: post ∧ (∀ k ∈ pre, s.Answerable k) ∧
      ¬ s.Answerable key := by
  induction keys with
  | nil => exact absurd (fun _ hkey => nomatch hkey) h
  | cons key keys ih =>
    by_cases hkey : s.Answerable key
    · rw [forall_mem_cons, and_iff_right hkey] at h
      obtain ⟨pre, stop, post, hsplit, hpre, hstop⟩ := ih h
      exact ⟨key :: pre, stop, post, congrArg (key :: ·) hsplit,
        forall_mem_cons.mpr ⟨hkey, hpre⟩, hstop⟩
    · exact ⟨[], key, keys, rfl, fun _ hk => absurd hk not_mem_nil, hkey⟩

/-- **A query is served** just if all its keys can be answered at once, or if none of them
can and all but the first are recorded already. -/
theorem addressHandler_serves_iff (hmemory : (s.globalHashRings .memory).nodes.nodes ≠ ∅) :
    s.Serves request ↔ (∀ key ∈ request.keys, s.Answerable key) ∨
      (MetadataServed s.toRingMaps ∧ ∀ key ∈ request.keys, s.Unknown key ∧
        (request.keys.head? = some key ∨ s.Recorded request key)) := by
  have hservers := numServers_ne_zero hmemory
  constructor
  · rintro ⟨_, hs', hserved⟩
    by_cases hall : ∀ key ∈ request.keys, s.Answerable key
    · exact .inl hall
    right
    obtain ⟨pre, key, _, hsplit, hpre, hstop⟩ := exists_first_stop hall
    obtain ⟨hasks, hhangs⟩ := addressHandler_stops hservers hsplit hpre
    have hunknown : s.Unknown key := by
      by_contra hknown
      rw [hhangs hknown fun hends => hstop ⟨hknown, hends⟩] at hs'
      cases hs'
    rw [hasks hunknown] at hs'
    obtain ⟨⟨message, seed⟩, hissue, hs'⟩ := bind_eq_ok.mp hs'
    cases hs'
    -- nobody is answered, so nobody could have been
    have hnone : ∀ k ∈ request.keys, s.Unknown k := by
      intro k hk
      by_contra hknown
      exact not_answered_ask ((hserved k hk).2 hknown)
    refine ⟨(issue_returns_iff _ key _ _).mp ⟨message, seed, hissue⟩, fun k hk => ⟨hnone k hk, ?_⟩⟩
    have hrecorded := recorded_pushPending.mp ((hserved k hk).1.resolve_left not_answered_ask)
    refine hrecorded.imp_left ?_
    rintro rfl
    cases pre with
    | nil => rw [hsplit]; rfl
    | cons first =>
      have hfirst := hnone first (hsplit ▸ mem_cons_self)
      exact absurd hfirst (hpre first mem_cons_self).known
  · rintro (hall | ⟨hmetadata, hwaiting⟩)
    · exact serves_of_answerable hservers hall
    · cases hkeys : request.keys with
      | nil =>
        refine serves_of_answerable hservers fun key hkey => ?_
        rw [hkeys] at hkey
        cases hkey
      | cons first rest =>
        have hfirst := hkeys ▸ mem_cons_self
        obtain ⟨_, _, hissue⟩ := (issue_returns_iff
          router.rt.replicationResponseConnectAddress first _ s.seed).mpr hmetadata
        have hsplit : request.keys = [] ++ first :: rest := hkeys
        have hs' := (addressHandler_stops hservers hsplit nofun).1 (hwaiting first hfirst).1
        rw [hissue] at hs'
        refine ⟨_, hs', fun key hkey => ?_⟩
        obtain ⟨hunknown, hhead⟩ := hwaiting key hkey
        refine ⟨.inr (recorded_pushPending.mpr (hhead.imp_left fun hhead => ?_)),
          fun hknown => absurd hunknown hknown⟩
        rw [hkeys] at hhead
        exact (Option.some.inj hhead).symm

end RoutingState

/-! ## A memory node and a routing thread -/

section Solo
variable {D : Type} [Priority D] (codecs : ValueCodecs D) (repCodec : Codec ReplicationFactor)

/-- A routing thread next to a memory node. -/
def soloRouter : Router := { (soloServer codecs repCodec).toConfig with rt := ⟨"r", 0⟩ }

/-- It knows the node, and that the key `"k"` has one replica in each tier. -/
def soloRouting : RoutingState (soloRouter codecs repCodec) where
  toRingMaps := (soloState codecs repCodec ∅).toRingMaps
  seed := 0
  keyReplicationMap := (∅ : ExtTreeMap Key KeyReplication).insert "k" factorsOfK
  pendingRequests := ∅
  sent := []

theorem soloRouting_metadataServed : MetadataServed (soloRouting codecs repCodec).toRingMaps :=
  soloState_metadataServed codecs repCodec ∅

theorem soloRouting_answerable : (soloRouting codecs repCodec).Answerable "k" := by
  have hrep : (soloRouting codecs repCodec).keyReplicationMap["k"]? = some factorsOfK :=
    ExtTreeMap.getElem?_insert_self
  have hfits : ∀ tiers, (soloRouting codecs repCodec).toRingMaps.Fits factorsOfK tiers :=
    fun _ _ _ => ⟨GlobalFits.one _, fun _ _ => LocalFits.one _⟩
  refine ⟨fun hunknown => ?_, fun hkey => ?_, fun _ rep hrep' => ?_⟩
  · rw [hunknown.2] at hrep
    cases hrep
  · have hdata : isMetadata "k" = .ok false := by decide
    rw [hkey] at hdata
    cases hdata
  · rw [hrep] at hrep'
    cases hrep'
    exact ⟨hfits _, fun _ => hfits _⟩

theorem soloRouting_unknown : (soloRouting codecs repCodec).Unknown "j" := by
  have hne : compare "k" "j" ≠ .eq := by decide
  refine ⟨by decide, ?_⟩
  exact (ExtTreeMap.getElem?_insert.trans (if_neg hne)).trans ExtTreeMap.getElem?_empty

end Solo

/-- A query for one key with known factors is served. -/
theorem query_for_known_key_served : ∃ (router : Router) (s : RoutingState router),
    (s.globalHashRings .memory).nodes.nodes ≠ ∅ ∧ s.Serves { keys := ["k"] } := by
  obtain ⟨codecs, repCodec⟩ := exists_codecs
  have hserver := (soloRouting_metadataServed codecs repCodec).server
  refine ⟨_, soloRouting codecs repCodec, hserver,
    (RoutingState.addressHandler_serves_iff hserver).mpr (.inl fun key hkey => ?_)⟩
  rw [mem_singleton.mp hkey]
  exact soloRouting_answerable codecs repCodec

/-- **A dropped answer**: the query lists a key with known factors and then one without.
The call returns, and the first key is neither answered nor recorded. -/
theorem answer_to_known_key_dropped :
    ∃ (router : Router) (s s' : RoutingState router) (request : KeyAddressRequest),
      (s.globalHashRings .memory).nodes.nodes ≠ ∅ ∧ request.keys = ["k", "j"] ∧
      s.addressHandler request = .ok s' ∧
      ¬ s.Answered s' request "k" ∧ ¬ s'.Recorded request "k" := by
  obtain ⟨codecs, repCodec⟩ := exists_codecs
  let s := soloRouting codecs repCodec
  let request : KeyAddressRequest :=
    { responseAddress := "c", keys := ["k", "j"], requestId := "1" }
  have hmetadata := soloRouting_metadataServed codecs repCodec
  obtain ⟨message, seed, hissue⟩ := (issue_returns_iff
    (soloRouter codecs repCodec).rt.replicationResponseConnectAddress "j"
    s.toRingMaps s.seed).mpr hmetadata
  have hsplit : request.keys = ["k"] ++ "j" :: [] := rfl
  have hs' := (RoutingState.addressHandler_stops (RoutingState.numServers_ne_zero hmetadata.server)
    hsplit fun k hk => mem_singleton.mp hk ▸ soloRouting_answerable codecs repCodec).1
    (soloRouting_unknown codecs repCodec)
  rw [hissue] at hs'
  refine ⟨_, s, _, request, hmetadata.server, rfl, hs', RoutingState.not_answered_ask, ?_⟩
  rw [RoutingState.recorded_pushPending, not_or]
  refine ⟨by decide, ?_⟩
  have hnone : (s.ask message seed).pendingRequests.getD "k" [] = [] := ExtTreeMap.getD_empty
  exact not_mem_nil

end Testbed.Anna
