import Testbed.Lib.SetMaps
import Testbed.Anna.SmallClusters

/-! # Caches that a server knows of

The management node tells a server which caches there are, and the server asks for the keys
of each (`management_node_response_handler`); the answers fill two maps, from caches to keys
and back (`cache_ip_response_handler`).

A cache that is missing from a list is forgotten if it was in the list before.  An answer that
arrives after that makes its entries again, and no later list deletes them: the cache is not
in the list before.  `onlyLive_iff` says which runs that does not happen in.
-/
namespace Testbed.Anna

open Std Lib List Std.ExtTreeSet

structure StringSet where
  keys : List String
deriving DecidableEq, Inhabited

instance : Countable StringSet :=
  Function.Injective.countable (f := StringSet.keys) fun m m' h => by
    cases m
    cases m'
    exact congrArg StringSet.mk h

/-- A server thread, with protobuf for sets of strings. -/
structure CacheServer extends Server where
  stringSet : Codec StringSet

/-- The variables of `run` that the two handlers use. -/
structure CacheState (srv : CacheServer) extends RingMaps srv.toConfig where
  extantCaches : ExtTreeSet Address
  cacheIpToKeys : ExtTreeMap Address (ExtTreeSet Key)
  keyToCacheIps : ExtTreeMap Key (ExtTreeSet Address)
  rid : UInt32
  sent : List (Address × Message)

/-- `addr_request_map` and `rid`. -/
abbrev MetadataRequests := ExtTreeMap Address KeyRequest × UInt32

/-- `prepare_metadata_request`: the address of the request that the key goes into, if any
server has joined; `rand` is what `rand()` returns. -/
def prepareMetadataRequest {cfg : Config} (rings : RingMaps cfg) (rand : Nat) (key : Key)
    (requests : MetadataRequests) (responseAddress : Address) (type : RequestType) :
    Except Fault (Option Address × MetadataRequests) := do
  let threads ← getResponsibleThreadsMetadata rings key
  match threads[rand % threads.length]? with
  | none => return (none, requests)
  | some thread =>
    let target := thread.keyRequestConnectAddress
    if target ∈ requests.1 then return (some target, requests)
    else
      let requestId := responseAddress ++ ":" ++ toString requests.2.toNat
      return (some target,
        (requests.1.insert target { type, responseAddress, requestId }, requests.2 + 1))

def prepareMetadataGetRequest {cfg : Config} (rings : RingMaps cfg) (rand : Nat) (key : Key)
    (requests : MetadataRequests) (responseAddress : Address) : Except Fault MetadataRequests := do
  match ← prepareMetadataRequest rings rand key requests responseAddress .get with
  | (none, requests) => return requests
  | (some target, requests) =>
    return (requests.1.insert target (prepareGetTuple (requests.1.getD target {}) key .lww),
      requests.2)

theorem prepareMetadataGetRequest_returns {cfg : Config} {rings : RingMaps cfg}
    (h : MetadataServed rings) (rand : Nat) (key : Key) (requests : MetadataRequests)
    (responseAddress : Address) :
    ∃ requests', prepareMetadataGetRequest rings rand key requests responseAddress =
      .ok requests' := by
  obtain ⟨_, _, hthreads⟩ := (metadataServed_iff rings key).mpr h
  have hrequest : ∃ prepared, prepareMetadataRequest rings rand key requests responseAddress .get =
      .ok prepared := by
    refine bind_returns_iff.mpr ⟨_, hthreads, ?_⟩
    dsimp only
    split
    · exact ⟨_, rfl⟩
    · split
      · exact ⟨_, rfl⟩
      · exact ⟨_, rfl⟩
  obtain ⟨prepared, hprepared⟩ := hrequest
  refine bind_returns_iff.mpr ⟨prepared, hprepared, ?_⟩
  split
  · exact ⟨_, rfl⟩
  · exact ⟨_, rfl⟩

namespace CacheState
variable {srv : CacheServer}

/-! ## `management_node_response_handler` -/

/-- `deleted_caches` and the new `extant_caches`. -/
def splitCaches (extantCaches : ExtTreeSet Address) (funcNodes : List Address) :
    ExtTreeSet Address × ExtTreeSet Address :=
  funcNodes.foldl (fun caches funcNode => (caches.1.erase funcNode, caches.2.insert funcNode))
    (extantCaches, ∅)

variable (s : CacheState srv)

/-- A deleted cache. -/
def forget (cacheIp : Address) : CacheState srv :=
  { s with
    cacheIpToKeys := s.cacheIpToKeys.erase cacheIp
    keyToCacheIps := dropValue s.keyToCacheIps cacheIp }

/-- `management_node_response_handler`; `rand` gives what `rand()` returns for each key. -/
def managementNodeResponseHandler (rand : Key → Nat)
    (funcNodes : StringSet) : Except Fault (CacheState srv) := do
  let (deletedCaches, extantCaches) := splitCaches s.extantCaches funcNodes.keys
  let s := deletedCaches.toList.foldl forget { s with extantCaches }
  let requests ← extantCaches.toList.foldlM (fun requests cacheip =>
    let key := getUserMetadataKey cacheip
    prepareMetadataGetRequest s.toRingMaps (rand key) key requests
      srv.wt.cacheIpResponseConnectAddress) (∅, s.rid)
  return { s with
           rid := requests.2
           sent := s.sent ++ requests.1.toList.map fun pair => (pair.1, .keyRequest pair.2) }

/-! ## `cache_ip_response_handler` -/

/-- The new set of keys of a cache. -/
def updateCache (cacheIp : Address) (keySet : List Key) : CacheState srv :=
  let oldKeysForIp := s.cacheIpToKeys.getD cacheIp ∅
  let deletedKeys := keySet.foldl (fun keys cacheKey => keys.erase cacheKey) oldKeysForIp
  let keyToCacheIps := deletedKeys.toList.foldl (fun m key => unlink m key cacheIp) s.keyToCacheIps
  { s with
    cacheIpToKeys := keySet.foldl (fun m cacheKey => link m cacheIp cacheKey)
      (s.cacheIpToKeys.insert cacheIp ∅)
    keyToCacheIps := keySet.foldl (fun m cacheKey => link m cacheKey cacheIp) keyToCacheIps }

/-- The keys that a tuple names; only a tuple without an error is looked at. -/
def namedKeys (srv : CacheServer) (tuple : KeyTuple) : Option (Address × List Key) :=
  if tuple.error = .noError then
    let lwwValue := (srv.lwwValue.parseFromString tuple.payload).1
    some (getKeyFromUserMetadata tuple.key, (srv.stringSet.parseFromString lwwValue.value).1.keys)
  else none

def cacheTuple (tuple : KeyTuple) : CacheState srv :=
  match namedKeys srv tuple with
  | some (cacheIp, keySet) => s.updateCache cacheIp keySet
  | none => s

def cacheIpResponseHandler (response : KeyResponse) : CacheState srv :=
  response.tuples.foldl cacheTuple s

/-! ## What the handlers change -/

variable {s : CacheState srv} {ip cacheIp : Address} {key : Key}

/-- The cache is recorded with the key. -/
def Caches (s : CacheState srv) (ip : Address) (key : Key) : Prop := Links s.cacheIpToKeys ip key

/-- The maps are inverse to each other. -/
def Inverse (s : CacheState srv) : Prop := ∀ ip key, Links s.keyToCacheIps key ip ↔ s.Caches ip key

theorem caches_updateCache {keySet : List Key} : (s.updateCache cacheIp keySet).Caches ip key ↔
      if cacheIp = ip then key ∈ keySet else s.Caches ip key := by
  unfold Caches updateCache
  rw [links_foldl_link_values]
  by_cases hip : cacheIp = ip
  · subst hip
    rw [if_pos rfl, links_insert_self, and_iff_right rfl]
    exact or_iff_left not_mem_empty
  · rw [if_neg hip, links_insert_of_ne hip]
    exact or_iff_right fun h => hip h.1

theorem Inverse.updateCache (h : s.Inverse) (cacheIp : Address) (keySet : List Key) :
    (s.updateCache cacheIp keySet).Inverse := by
  intro ip key
  rw [caches_updateCache]
  unfold CacheState.updateCache
  rw [links_foldl_link, links_foldl_unlink, mem_toList, mem_eraseAll, h ip key]
  by_cases hip : cacheIp = ip
  · subst hip
    rw [if_pos rfl, and_iff_left rfl, and_iff_left rfl]
    by_cases hkey : key ∈ keySet
    · exact iff_of_true (.inl hkey) hkey
    · refine iff_of_false (fun hor => ?_) hkey
      obtain ⟨hdeleted, hold⟩ := hor.resolve_left hkey
      exact hdeleted ⟨hold, hkey⟩
  · rw [if_neg hip]
    constructor
    · rintro (⟨-, heq⟩ | ⟨-, hold⟩)
      · exact absurd heq hip
      · exact hold
    · intro hold
      exact .inr ⟨fun hand => hip hand.2, hold⟩

theorem mem_splitCaches {extantCaches : ExtTreeSet Address} {funcNodes : List Address} :
    (ip ∈ (splitCaches extantCaches funcNodes).1 ↔ ip ∈ extantCaches ∧ ip ∉ funcNodes) ∧
      (ip ∈ (splitCaches extantCaches funcNodes).2 ↔ ip ∈ funcNodes) := by
  constructor
  · refine (foldl_drops_iff (P := fun caches => ip ∈ Prod.fst caches) (A := (· ≠ ip)) ?_).trans ?_
    · simp
    · rw [and_comm]
      simp [forall_mem_ne']
  · refine (foldl_adds_iff (P := fun caches => ip ∈ Prod.snd caches) (A := (· = ip)) ?_).trans ?_
    · simp
    · simp

theorem foldl_forget (caches : List Address) (s : CacheState srv) :
    (∀ ip key, (caches.foldl forget s).Caches ip key ↔ ip ∉ caches ∧ s.Caches ip key) ∧
      (∀ ip key, Links (caches.foldl forget s).keyToCacheIps key ip ↔
        ip ∉ caches ∧ Links s.keyToCacheIps key ip) ∧
      (caches.foldl forget s).extantCaches = s.extantCaches ∧
      (caches.foldl forget s).toRingMaps = s.toRingMaps := by
  induction caches generalizing s with
  | nil => simp
  | cons cache _ ih =>
    obtain ⟨hcaches, hlinks, hframe⟩ := ih (s.forget cache)
    refine ⟨fun ip key => (hcaches ip key).trans ?_, fun ip key => (hlinks ip key).trans ?_, hframe⟩
    · unfold Caches forget
      rw [links_erase, mem_cons, not_or, ne_comm]
      tauto
    · unfold forget
      rw [links_dropValue, mem_cons, not_or, ne_comm]
      tauto

/-- What a list of caches does. -/
structure Listed (s : CacheState srv) (funcNodes : List Address) (s' : CacheState srv) : Prop where
  extant : ∀ ip, ip ∈ s'.extantCaches ↔ ip ∈ funcNodes
  caches : ∀ ip key, s'.Caches ip key ↔ ¬ (ip ∈ s.extantCaches ∧ ip ∉ funcNodes) ∧ s.Caches ip key
  inverse : s.Inverse → s'.Inverse

variable {funcNodes : StringSet} {s' : CacheState srv} {rand : Key → Nat}

theorem managementNodeResponseHandler_listed
    (h : s.managementNodeResponseHandler rand funcNodes = .ok s') : Listed s funcNodes.keys s' := by
  obtain ⟨_, -, h⟩ := bind_eq_ok.mp h
  cases h
  obtain ⟨hcaches, hlinks, hextant, -⟩ :=
    foldl_forget (splitCaches s.extantCaches funcNodes.keys).1.toList
      { s with extantCaches := (splitCaches s.extantCaches funcNodes.keys).2 }
  simp only [mem_toList, mem_splitCaches.1] at hcaches hlinks
  refine ⟨fun ip => ?_, hcaches, fun hinverse ip key => ?_⟩
  · exact (iff_of_eq (congrArg (ip ∈ ·) hextant)).trans mem_splitCaches.2
  · exact (hlinks ip key).trans
      ((and_congr_right fun _ => hinverse ip key).trans (hcaches ip key).symm)

end CacheState

open CacheState

/-! ## Runs -/

/-- A call of one of the handlers. -/
inductive CacheEvent where
  | management (rand : Key → Nat) (funcNodes : StringSet)
  | cacheReply (response : KeyResponse)

namespace CacheEvent
variable {srv : CacheServer}

def step (s : CacheState srv) : CacheEvent → Except Fault (CacheState srv)
  | management rand funcNodes => s.managementNodeResponseHandler rand funcNodes
  | cacheReply response => .ok (s.cacheIpResponseHandler response)

/-- The last list of caches, if there has been one. -/
def lastList (run : List CacheEvent) : List Address :=
  run.foldl (fun caches event =>
    match event with
    | management _ funcNodes => funcNodes.keys
    | cacheReply _ => caches) []

/-- The last keys that a list of tuples names for the cache. -/
def repliedKeys (srv : CacheServer) (ip : Address) (start : Option (List Key))
    (tuples : List KeyTuple) : Option (List Key) :=
  tuples.foldl (fun keys tuple =>
    match namedKeys srv tuple with
    | some (cacheIp, keySet) => if cacheIp = ip then some keySet else keys
    | none => keys) start

/-- The keys of the last reply for the cache since the last list of caches. -/
def lastReply (srv : CacheServer) (ip : Address) (run : List CacheEvent) : Option (List Key) :=
  run.foldl (fun keys event =>
    match event with
    | management _ _ => none
    | cacheReply response => repliedKeys srv ip keys response.tuples) none

/-- **Only live caches are tracked**: after each list of caches, a cache that has keys, or that
some key is linked to, is in the list. -/
def OnlyLive (start : CacheState srv) (run : List CacheEvent) : Prop :=
  ∀ before rand funcNodes after s, run = before ++ management rand funcNodes :: after →
    (before ++ [management rand funcNodes]).foldlM step start = .ok s →
    ∀ ip, (∃ key, Links s.cacheIpToKeys ip key) ∨ (∃ key, Links s.keyToCacheIps key ip) →
      ip ∈ funcNodes.keys

/-- Where the last reply for a cache since the last list names keys, the cache is in that list
or in the next one. -/
def Timely (srv : CacheServer) (run : List CacheEvent) : Prop :=
  ∀ before rand funcNodes after, run = before ++ management rand funcNodes :: after →
    ∀ ip keys, lastReply srv ip before = some keys → keys ≠ [] →
      ip ∈ lastList before ∨ ip ∈ funcNodes.keys

/-- Each reply is about a cache that was in a list. -/
def Asked (srv : CacheServer) (run : List CacheEvent) : Prop :=
  ∀ before response after, run = before ++ cacheReply response :: after →
    ∀ tuple ∈ response.tuples, ∀ ip keys, namedKeys srv tuple = some (ip, keys) →
      ∃ rand funcNodes, management rand funcNodes ∈ before ∧ ip ∈ funcNodes.keys

end CacheEvent

open CacheEvent

/-- No cache is known. -/
structure CacheState.Fresh {srv : CacheServer} (s : CacheState srv) : Prop where
  extant : s.extantCaches = ∅
  keys : s.cacheIpToKeys = ∅
  caches : s.keyToCacheIps = ∅

namespace CacheEvent
variable {srv : CacheServer} {start s : CacheState srv} {run : List CacheEvent} {ip : Address}

/-- The keys of the last reply, or what was there before it. -/
def Held (reply : Option (List Key)) (old : Key → Prop) (key : Key) : Prop :=
  match reply with
  | some keys => key ∈ keys
  | none => old key

variable {tuples : List KeyTuple} {s : CacheState srv}

theorem caches_foldl {reply : Option (List Key)} {old : Key → Prop}
    (h : ∀ key, s.Caches ip key ↔ Held reply old key) (key : Key) :
    (tuples.foldl cacheTuple s).Caches ip key ↔ Held (repliedKeys srv ip reply tuples) old key := by
  induction tuples generalizing s reply with
  | nil => exact h key
  | cons tuple _ ih =>
    unfold repliedKeys
    rw [foldl_cons, foldl_cons]
    refine ih fun key => ?_
    unfold cacheTuple
    cases namedKeys srv tuple with
    | none => exact h key
    | some named =>
      obtain ⟨cacheIp, _⟩ := named
      dsimp only
      rw [caches_updateCache]
      by_cases hip : cacheIp = ip
      · rw [if_pos hip, if_pos hip]
        rfl
      · rw [if_neg hip, if_neg hip]
        exact h key

theorem inverse_foldl (h : s.Inverse) : (tuples.foldl cacheTuple s).Inverse := by
  induction tuples generalizing s with
  | nil => exact h
  | cons tuple _ ih =>
    rw [foldl_cons]
    unfold cacheTuple
    cases namedKeys srv tuple with
    | none => exact ih h
    | some named => exact ih (h.updateCache named.1 named.2)

theorem foldl_cacheTuple_frame (tuples : List KeyTuple) (s : CacheState srv) :
    (tuples.foldl cacheTuple s).extantCaches = s.extantCaches ∧
      (tuples.foldl cacheTuple s).toRingMaps = s.toRingMaps := by
  induction tuples generalizing s with
  | nil => exact ⟨rfl, rfl⟩
  | cons tuple _ ih =>
    rw [foldl_cons, (ih _).1, (ih _).2]
    unfold cacheTuple
    cases namedKeys srv tuple with
    | none | some => exact ⟨rfl, rfl⟩

/-- What is true after a run: the maps are inverse, the caches of the last list are extant, a
cache that has replied since has the keys of its last reply, and the others have those that
were left after the list. -/
structure Reached (run : List CacheEvent) (left : Address → Key → Prop) (s : CacheState srv) :
    Prop where
  inverse : s.Inverse
  extant : ∀ ip, ip ∈ s.extantCaches ↔ ip ∈ lastList run
  caches : ∀ ip key, s.Caches ip key ↔ Held (lastReply srv ip run) (left ip) key

theorem lastList_concat (run : List CacheEvent) (event : CacheEvent) : lastList (run ++ [event]) =
      match event with
      | management _ funcNodes => funcNodes.keys
      | cacheReply _ => lastList run := by
  unfold lastList
  rw [foldl_append]
  rfl

theorem lastReply_concat (ip : Address) (run : List CacheEvent) (event : CacheEvent) :
    lastReply srv ip (run ++ [event]) =
      match event with
      | management _ _ => none
      | cacheReply response => repliedKeys srv ip (lastReply srv ip run) response.tuples := by
  unfold lastReply
  rw [foldl_append]
  rfl

theorem Reached.cacheReply (h : Reached run left s) (response : KeyResponse) :
    Reached (run ++ [.cacheReply response]) left (s.cacheIpResponseHandler response) := by
  have hextant := (foldl_cacheTuple_frame response.tuples s).1
  refine ⟨inverse_foldl h.inverse, fun ip => ?_, fun ip key => ?_⟩
  · rw [lastList_concat]
    exact (iff_of_eq (congrArg (ip ∈ ·) hextant)).trans (h.extant ip)
  · rw [lastReply_concat]
    exact caches_foldl (h.caches ip) key

theorem Reached.management (h : Reached run left s)
    (hstep : s.managementNodeResponseHandler rand funcNodes = .ok s') :
    Reached (run ++ [.management rand funcNodes]) s'.Caches s' := by
  have hlisted := managementNodeResponseHandler_listed hstep
  refine ⟨hlisted.inverse h.inverse, fun ip => ?_, fun ip key => ?_⟩
  · rw [lastList_concat]
    exact hlisted.extant ip
  · rw [lastReply_concat]
    exact Iff.rfl

theorem Reached.caches_management (h : Reached run left s)
    (hstep : s.managementNodeResponseHandler rand funcNodes = .ok s') (ip : Address) (key : Key) :
    s'.Caches ip key ↔ ¬ (ip ∈ lastList run ∧ ip ∉ funcNodes.keys) ∧
      Held (lastReply srv ip run) (left ip) key := by
  rw [(managementNodeResponseHandler_listed hstep).caches, h.extant, h.caches]

theorem Timely.of_append {run rest : List CacheEvent} (h : Timely srv (run ++ rest)) :
    Timely srv run := by
  intro before rand funcNodes after hrun
  refine h before rand funcNodes (after ++ rest) ?_
  rw [hrun, append_assoc]
  rfl

/-- Every run keeps the invariant. -/
theorem reached (hstart : start.Fresh) (hrun : run.foldlM step start = .ok s) :
    ∃ left, Reached run left s ∧ (Timely srv run → ∀ ip key, left ip key → ip ∈ lastList run) := by
  induction run using List.reverseRecOn generalizing s with
  | nil =>
    cases hrun
    have hcaches : ∀ ip key, ¬ start.Caches ip key := by
      intro ip key
      rw [Caches, hstart.keys]
      exact not_links_empty
    refine ⟨fun _ _ => False, ⟨fun ip key => ?_, fun ip => ?_, fun ip key => ?_⟩, ?_⟩
    · rw [hstart.caches]
      exact iff_of_false not_links_empty (hcaches ip key)
    · rw [hstart.extant]
      exact iff_of_false not_mem_empty not_mem_nil
    · exact iff_of_false (hcaches ip key) id
    · intro _ ip key h
      exact h.elim
  | append_singleton run event ih =>
    obtain ⟨t, hpre, hstep⟩ := foldlM_concat_eq_ok.mp hrun
    obtain ⟨left, hreached, hleft⟩ := ih hpre
    cases event with
    | management rand funcNodes =>
      refine ⟨s.Caches, hreached.management hstep, fun htimely ip key hkey => ?_⟩
      rw [lastList_concat]
      obtain ⟨hkept, hheld⟩ := (hreached.caches_management hstep ip key).mp hkey
      have hlisted : ip ∈ lastList run ∨ ip ∈ funcNodes.keys := by
        cases hreply : lastReply srv ip run with
        | none =>
          rw [hreply] at hheld
          exact .inl (hleft htimely.of_append ip key hheld)
        | some keys =>
          rw [hreply] at hheld
          exact htimely run rand funcNodes [] rfl ip keys hreply (ne_nil_of_mem hheld)
      by_contra hnot
      exact hkept ⟨hlisted.resolve_right hnot, hnot⟩
    | cacheReply response =>
      cases hstep
      refine ⟨left, hreached.cacheReply response, fun htimely ip key hkey => ?_⟩
      rw [lastList_concat]
      exact hleft htimely.of_append ip key hkey

theorem OnlyLive.timely (h : OnlyLive start run) (hstart : start.Fresh)
    (hrun : ∃ s, run.foldlM step start = .ok s) : Timely srv run := by
  intro before rand funcNodes after heq ip keys hreply hne
  obtain ⟨_, hrun⟩ := hrun
  rw [heq, append_cons] at hrun
  obtain ⟨s', hpre, -⟩ := foldlM_append_eq_ok.mp hrun
  obtain ⟨s, hbefore, hstep⟩ := foldlM_concat_eq_ok.mp hpre
  obtain ⟨_, hreached, -⟩ := reached hstart hbefore
  obtain ⟨key, hkey⟩ := exists_mem_of_ne_nil keys hne
  by_contra hnot
  obtain ⟨hlist, hnodes⟩ := not_or.mp hnot
  -- the cache is in neither list, so that its keys stay
  have hkept : s'.Caches ip key := by
    rw [hreached.caches_management hstep, hreply]
    exact ⟨fun hand => hlist hand.1, hkey⟩
  exact hnodes (h before rand funcNodes after s' heq hpre ip (.inl ⟨key, hkept⟩))

theorem Timely.onlyLive (h : Timely srv run) (hstart : start.Fresh) : OnlyLive start run := by
  intro before rand funcNodes _ s heq hpre ip htracked
  have htimely : Timely srv (before ++ [management rand funcNodes]) := by
    rw [heq, append_cons] at h
    exact h.of_append
  obtain ⟨left, hreached, hleft⟩ := reached hstart hpre
  obtain ⟨key, hkey⟩ : ∃ key, s.Caches ip key := by
    rcases htracked with htracked | ⟨key, hkey⟩
    · exact htracked
    · exact ⟨key, (hreached.inverse ip key).mp hkey⟩
  rw [hreached.caches, lastReply_concat] at hkey
  have hlast := hleft htimely ip key hkey
  rwa [lastList_concat] at hlast

/-- **Only live caches are tracked** just in the timely runs. -/
theorem onlyLive_iff (hstart : start.Fresh) (hrun : ∃ s, run.foldlM step start = .ok s) :
    OnlyLive start run ↔ Timely srv run :=
  ⟨fun h => h.timely hstart hrun, fun h => h.onlyLive hstart⟩

end CacheEvent

/-! ## Runs that return -/

variable {srv : CacheServer}

theorem CacheState.managementNodeResponseHandler_returns {s : CacheState srv}
    (h : MetadataServed s.toRingMaps) (rand : Key → Nat) (funcNodes : StringSet) :
    ∃ s', s.managementNodeResponseHandler rand funcNodes = .ok s' ∧
      s'.toRingMaps = s.toRingMaps := by
  obtain ⟨-, -, -, hrings⟩ := foldl_forget (splitCaches s.extantCaches funcNodes.keys).1.toList
    { s with extantCaches := (splitCaches s.extantCaches funcNodes.keys).2 }
  have hrequests : ∀ (caches : List Address) (rings : RingMaps srv.toConfig)
      (start : MetadataRequests), rings = s.toRingMaps →
      ∃ requests, caches.foldlM (fun requests cacheip =>
        prepareMetadataGetRequest rings (rand (getUserMetadataKey cacheip))
          (getUserMetadataKey cacheip) requests srv.wt.cacheIpResponseConnectAddress) start =
        .ok requests := by
    rintro _ _ _ rfl
    refine (foldlM_returns_iff (fun _ _ => True) ?_).mpr fun _ _ _ _ => trivial
    intro _ _ _ t _ _
    exact iff_of_true (prepareMetadataGetRequest_returns h _ _ _ _) trivial
  obtain ⟨requests, hrequests⟩ := hrequests _ _ (∅, _) hrings
  exact ⟨_, bind_eq_ok.mpr ⟨requests, hrequests, rfl⟩, hrings⟩

theorem CacheEvent.run_returns {start : CacheState srv} (h : MetadataServed start.toRingMaps)
    (run : List CacheEvent) : ∃ s, run.foldlM step start = .ok s := by
  induction run generalizing start with
  | nil => exact ⟨start, rfl⟩
  | cons event _ ih =>
    rw [foldlM_cons, bind_returns_iff]
    cases event with
    | management rand funcNodes =>
      obtain ⟨s, hs, hrings⟩ := managementNodeResponseHandler_returns h rand funcNodes
      exact ⟨s, hs, ih (hrings ▸ h)⟩
    | cacheReply response =>
      have hrings := (foldl_cacheTuple_frame response.tuples start).2
      exact ⟨_, rfl, ih (hrings ▸ h)⟩

/-! ## A reply that comes too late -/

section
variable {D : Type} [Priority D] (codecs : ValueCodecs D)
  (repCodec : Codec ReplicationFactor) (stringSet : Codec StringSet)

/-- The server of the cluster with one node. -/
def soloCacheServer : CacheServer :=
  { soloServer codecs repCodec with stringSet }

/-- It knows of no cache. -/
def soloCacheState : CacheState (soloCacheServer codecs repCodec stringSet) where
  toRingMaps := (soloState codecs repCodec ∅).toRingMaps
  extantCaches := ∅
  cacheIpToKeys := ∅
  keyToCacheIps := ∅
  rid := 0
  sent := []

theorem soloCacheState_fresh : (soloCacheState codecs repCodec stringSet).Fresh :=
  ⟨rfl, rfl, rfl⟩

/-- The cache `"c"` has the key `"k"`. -/
def replyOfC : KeyResponse where
  tuples := [{ key := getUserMetadataKey "c"
               payload := codecs.lww.serializeAsString ⟨0, stringSet.serializeAsString ⟨["k"]⟩⟩ }]

theorem replyOfC_named {tuple : KeyTuple} (h : tuple ∈ (replyOfC codecs stringSet).tuples) :
    namedKeys (soloCacheServer codecs repCodec stringSet) tuple = some ("c", ["k"]) := by
  obtain rfl := mem_singleton.mp h
  unfold namedKeys
  dsimp only [soloCacheServer, soloServer, memoryServer]
  rw [if_pos rfl, codecs.lww.parse_serialize, stringSet.parse_serialize,
    getKeyFromUserMetadata_getUserMetadataKey]

/-- The cache is in the first list and in no later one. -/
def lateRun : List CacheEvent :=
  [.management (fun _ => 0) ⟨["c"]⟩, .management (fun _ => 0) ⟨[]⟩,
    .cacheReply (replyOfC codecs stringSet), .management (fun _ => 0) ⟨[]⟩]

theorem lateRun_returns : ∃ s, (lateRun codecs stringSet).foldlM step
    (soloCacheState codecs repCodec stringSet) = .ok s :=
  run_returns (soloState_metadataServed codecs repCodec ∅) _

theorem lateRun_asked : Asked (soloCacheServer codecs repCodec stringSet)
    (lateRun codecs stringSet) := by
  intro before response _ heq _ htuple _ _ hnamed
  have hresponse : cacheReply response ∈ lateRun codecs stringSet := by
    rw [heq]
    exact mem_append_right _ mem_cons_self
  simp only [lateRun, mem_cons, not_mem_nil, reduceCtorEq, false_or, or_false,
    cacheReply.injEq] at hresponse
  subst hresponse
  rw [replyOfC_named codecs repCodec stringSet htuple] at hnamed
  cases hnamed
  cases before with
  | nil => cases heq
  | cons =>
    obtain ⟨rfl, -⟩ := List.cons.inj heq
    exact ⟨_, _, mem_cons_self, mem_singleton_self "c"⟩

theorem lateRun_not_timely : ¬ Timely (soloCacheServer codecs repCodec stringSet)
      (lateRun codecs stringSet) := by
  intro h
  have hreply : lastReply (soloCacheServer codecs repCodec stringSet) "c"
      [.management (fun _ => 0) ⟨["c"]⟩, .management (fun _ => 0) ⟨[]⟩,
        .cacheReply (replyOfC codecs stringSet)] = some ["k"] := by
    unfold lastReply repliedKeys
    dsimp only [foldl_cons, foldl_nil, replyOfC]
    rw [replyOfC_named codecs repCodec stringSet (mem_singleton_self _)]
    rfl
  have hlisted := h _ (fun _ => 0) ⟨[]⟩ [] rfl "c" ["k"] hreply (cons_ne_nil _ _)
  rcases hlisted with hlast | hnext
  · cases hlast
  · cases hnext

end

namespace CacheEvent

/-- A run of a node on its own. -/
theorem onlyLive_iff_of_solo : ∃ (srv : CacheServer) (start : CacheState srv)
    (run : List CacheEvent), start.Fresh ∧ (∃ s, run.foldlM step start = .ok s) ∧
      (OnlyLive start run ↔ Timely srv run) := by
  obtain ⟨codecs, repCodec⟩ := exists_codecs
  obtain ⟨stringSet⟩ := Codec.nonempty StringSet
  have hfresh := soloCacheState_fresh codecs repCodec stringSet
  have hreturns := lateRun_returns codecs repCodec stringSet
  exact ⟨_, _, _, hfresh, hreturns, onlyLive_iff hfresh hreturns⟩

/-- **The maps are mutual inverses** after every run that starts with empty ones. -/
theorem indexes_inverse {srv : CacheServer} {start s : CacheState srv} {run : List CacheEvent}
    (hkeys : start.cacheIpToKeys = ∅) (hcaches : start.keyToCacheIps = ∅)
    (hrun : run.foldlM step start = .ok s) (ip : Address) (key : Key) :
    key ∈ s.cacheIpToKeys.getD ip ∅ ↔ ip ∈ s.keyToCacheIps.getD key ∅ := by
  have hempty : start.Inverse := by
    intro ip key
    rw [Caches, hkeys, hcaches]
    exact iff_of_false not_links_empty not_links_empty
  have hinverse : s.Inverse := by
    refine foldlM_invariant Inverse (fun event _ t t' ht hstep => ?_) hempty hrun
    cases event with
    | management =>
      exact (managementNodeResponseHandler_listed hstep).inverse ht
    | cacheReply =>
      cases hstep
      exact inverse_foldl ht
  exact (hinverse ip key).symm

/-- A run of four events. -/
theorem indexes_inverse_solo : ∃ (srv : CacheServer) (start s : CacheState srv)
    (run : List CacheEvent), run.length = 4 ∧ run.foldlM step start = .ok s ∧
      ∀ ip key, key ∈ s.cacheIpToKeys.getD ip ∅ ↔ ip ∈ s.keyToCacheIps.getD key ∅ := by
  obtain ⟨codecs, repCodec⟩ := exists_codecs
  obtain ⟨stringSet⟩ := Codec.nonempty StringSet
  obtain ⟨s, hs⟩ := lateRun_returns codecs repCodec stringSet
  exact ⟨_, _, s, lateRun codecs stringSet, rfl, hs, indexes_inverse rfl rfl hs⟩

/-- The cache is asked for its keys and is then dropped from the list.  Its reply comes after
that, and the next list does not delete what it has made. -/
theorem late_reply_keeps_dead_cache : ∃ (srv : CacheServer) (start : CacheState srv)
    (run : List CacheEvent), start.Fresh ∧ Asked srv run ∧
      (∃ s, run.foldlM step start = .ok s) ∧ ¬ OnlyLive start run := by
  obtain ⟨codecs, repCodec⟩ := exists_codecs
  obtain ⟨stringSet⟩ := Codec.nonempty StringSet
  have hfresh := soloCacheState_fresh codecs repCodec stringSet
  have hreturns := lateRun_returns codecs repCodec stringSet
  refine ⟨_, _, _, hfresh, lateRun_asked codecs repCodec stringSet, hreturns, fun h => ?_⟩
  exact lateRun_not_timely codecs repCodec stringSet (h.timely hfresh hreturns)

end CacheEvent

end Testbed.Anna
