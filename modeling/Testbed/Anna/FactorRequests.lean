import Testbed.Anna.DeferredRequests
import Testbed.Anna.HandlerFaults
import Testbed.Anna.Routing

/-! # Requests for replication factors

`issue_replication_factor_request` divides by the number of threads of the memory tier
that keep the metadata of a key.  None of its callers looks whether there are any: the
routing tier counts servers of all tiers, and a server thread counts nothing.

The calls that a handler makes are those of the keys it gets to and asks for
(`addressCalls`, `userCalls`, `gossipCalls`).  They all find a thread just if the memory
tier keeps metadata, or if there is no such key (`factor_requests_find_threads_iff`).
-/
namespace Testbed.Anna

open Std Lib List

/-- Each of some calls of `issue_replication_factor_request`, for a key and with some
rings, finds a thread that is responsible for the metadata key. -/
def CallsFind {cfg : Config} (calls : RingMaps cfg → Key → Prop) : Prop :=
  ∀ rings key, calls rings key →
    ∃ thread threads, getResponsibleThreadsMetadata rings (getMetadataKey key) =
      .ok (thread :: threads)

theorem callsFind_iff {cfg : Config} {calls : RingMaps cfg → Key → Prop} (rings : RingMaps cfg)
    (h : ∀ rings' key, calls rings' key → rings' = rings) :
    CallsFind calls ↔ MetadataServed rings ∨ ∀ key, ¬ calls rings key := by
  constructor
  · intro hfind
    by_cases hcall : ∃ key, calls rings key
    · obtain ⟨key, hkey⟩ := hcall
      exact .inl ((metadataServed_iff rings _).mp (hfind rings key hkey))
    · exact .inr (not_exists.mp hcall)
  · rintro (hserved | hnone) rings' key hcall
    · rw [h rings' key hcall]
      exact (metadataServed_iff rings _).mpr hserved
    · rw [h rings' key hcall] at hcall
      exact absurd hcall (hnone key)

theorem not_metadataServed_of_issue_error {cfg : Config} {rings : RingMaps cfg}
    {responseAddress : Address} {key : Key} {seed : UInt32} {e : Fault}
    (h : issueReplicationFactorRequest responseAddress key rings seed = .error e) :
    ¬ MetadataServed rings := by
  intro hserved
  obtain ⟨_, _, hok⟩ := (issue_returns_iff responseAddress key rings seed).mpr hserved
  rw [h] at hok
  cases hok

/-! ## The routing tier -/

namespace RoutingState
variable {router : Router} {s : RoutingState router} {request : KeyAddressRequest}

/-- The calls that `address_handler` makes. -/
def addressCalls (s : RoutingState router) (request : KeyAddressRequest)
    (rings : RingMaps router.toConfig) (key : Key) : Prop :=
  s.numServers ≠ 0 ∧ ∃ pre post t addresses, request.keys = pre ++ key :: post ∧
    s.addressKeys request [] pre = .ok (t, some addresses) ∧ t.Unknown key ∧ rings = t.toRingMaps

theorem addressKeys_eq_ok {keys : List Key} {addresses addresses' : List KeyAddress}
    {t : RoutingState router}
    (h : s.addressKeys request addresses keys = .ok (t, some addresses')) :
    t = s ∧ ∀ key ∈ keys, s.Answerable key := by
  by_cases hall : ∀ key ∈ keys, s.Answerable key
  · obtain ⟨found, -, hkeys⟩ := addressKeys_append hall request addresses
    have hloop := hkeys []
    rw [append_nil, h] at hloop
    cases hloop
    exact ⟨rfl, hall⟩
  · obtain ⟨_, key, _, rfl, hpre, hstop⟩ := exists_first_stop hall
    obtain ⟨_, -, hkeys⟩ := addressKeys_append hpre request addresses
    rw [hkeys] at h
    by_cases hunknown : s.Unknown key
    · rw [addressKeys_unknown hunknown] at h
      obtain ⟨_, -, h⟩ := bind_eq_ok.mp h
      cases h
    · rw [addressKeys_hangs hunknown fun hends => hstop ⟨hunknown, hends⟩] at h
      cases h

theorem addressCalls_iff {rings : RingMaps router.toConfig} {key : Key} :
    s.addressCalls request rings key ↔ s.numServers ≠ 0 ∧ rings = s.toRingMaps ∧
      ∃ pre post, request.keys = pre ++ key :: post ∧ (∀ k ∈ pre, s.Answerable k) ∧
        s.Unknown key := by
  constructor
  · rintro ⟨hservers, pre, post, t, _, hsplit, hpre, hunknown, rfl⟩
    obtain ⟨rfl, hanswerable⟩ := addressKeys_eq_ok hpre
    exact ⟨hservers, rfl, pre, post, hsplit, hanswerable, hunknown⟩
  · rintro ⟨hservers, rfl, pre, post, hsplit, hpre, hunknown⟩
    obtain ⟨_, -, hkeys⟩ := addressKeys_append hpre request []
    have hloop := hkeys []
    rw [append_nil] at hloop
    exact ⟨hservers, pre, post, s, _, hsplit, hloop, hunknown, rfl⟩

theorem addressHandler_divides (h : s.addressHandler request = .error .divisionByZero) :
    ¬ CallsFind (s.addressCalls request) := by
  have hservers : s.numServers ≠ 0 := by
    intro hzero
    rw [addressHandler, if_pos hzero] at h
    cases h
  have hall : ¬ ∀ key ∈ request.keys, s.Answerable key := by
    intro hall
    obtain ⟨_, -, hs'⟩ := addressHandler_answers hservers hall
    rw [h] at hs'
    cases hs'
  obtain ⟨pre, key, post, hsplit, hpre, hstop⟩ := exists_first_stop hall
  obtain ⟨hasks, hhangs⟩ := addressHandler_stops hservers hsplit hpre
  by_cases hunknown : s.Unknown key
  · rw [hasks hunknown] at h
    rcases bind_eq_error.mp h with hissue | ⟨_, -, h⟩
    · intro hfind
      refine not_metadataServed_of_issue_error hissue ((metadataServed_iff _ _).mp
        (hfind s.toRingMaps key (addressCalls_iff.mpr ?_)))
      exact ⟨hservers, rfl, pre, post, hsplit, hpre, hunknown⟩
    · cases h
  · rw [hhangs hunknown fun hends => hstop ⟨hunknown, hends⟩] at h
    cases h

/-- **Calls of `address_handler`.** -/
theorem addressCalls_find_iff :
    CallsFind (s.addressCalls request) ↔ MetadataServed s.toRingMaps ∨ s.numServers = 0 ∨
      ∀ pre key post, request.keys = pre ++ key :: post → (∀ k ∈ pre, s.Answerable k) →
        ¬ s.Unknown key := by
  rw [callsFind_iff s.toRingMaps fun _ _ hcall => (addressCalls_iff.mp hcall).2.1]
  refine or_congr_right ?_
  constructor
  · intro hnone
    by_cases hservers : s.numServers = 0
    · exact .inl hservers
    · refine .inr fun pre key post hsplit hpre hunknown => hnone key (addressCalls_iff.mpr ?_)
      exact ⟨hservers, rfl, pre, post, hsplit, hpre, hunknown⟩
  · rintro hnone key hcall
    obtain ⟨hservers, -, pre, post, hsplit, hpre, hunknown⟩ := addressCalls_iff.mp hcall
    exact (hnone.resolve_left hservers) pre key post hsplit hpre hunknown

end RoutingState

/-! ## Server threads -/

namespace ServerState
variable {srv : Server} {s t : ServerState srv} {key : Key}

/-- The thread asks for the factors of the key: it does not know them, or they make other
threads responsible. -/
def AsksFor (s : ServerState srv) (key : Key) : Prop :=
  isMetadata key = .ok false ∧ (s.keyReplicationMap[key]? = none ∨
    ∃ lookup, s.getResponsibleThreads key [srv.selfTier] = .ok lookup ∧ lookup.succeed = true ∧
      srv.wt.isIn lookup.threads = false)

/-- The thread is responsible for the key, or the key is a metadata key and some other
thread is. -/
def Answers (s : ServerState srv) (key : Key) : Prop :=
  ∃ lookup, s.getResponsibleThreads key [srv.selfTier] = .ok lookup ∧ lookup.succeed = true ∧
    (srv.wt.isIn lookup.threads = true ∨ isMetadata key = .ok true)

variable {tiers : List Tier} {lookup : Lookup}

theorem lookup_of_succeed (hrings : t.toRingMaps = s.toRingMaps)
    (hfactors : t.keyReplicationMap = s.keyReplicationMap)
    (h : s.getResponsibleThreads key tiers = .ok lookup) (hsucceed : lookup.succeed = true) :
    t.getResponsibleThreads key tiers = .ok ⟨lookup.threads, true, t.seed, []⟩ := by
  obtain ⟨metadata, hkey, h⟩ := bind_eq_ok.mp h
  cases metadata with
  | true =>
    obtain ⟨threads, hthreads, h⟩ := bind_eq_ok.mp h
    cases h
    rw [getResponsibleThreads, hkey, hrings]
    exact bind_eq_ok.mpr ⟨true, rfl, bind_eq_ok.mpr ⟨threads, hthreads, rfl⟩⟩
  | false =>
    obtain ⟨_, hrep⟩ := exists_factors_of_succeed hkey (bind_eq_ok.mpr ⟨false, hkey, h⟩) hsucceed
    obtain ⟨threads, hthreads, rfl⟩ :=
      (getResponsibleThreads_eq_ok hkey hrep).mp (bind_eq_ok.mpr ⟨false, hkey, h⟩)
    rw [← hrings] at hthreads
    rw [← hfactors] at hrep
    exact (getResponsibleThreads_eq_ok hkey hrep).mpr ⟨threads, hthreads, rfl⟩

theorem Answers.congr (h : s.Answers key) (hrings : t.toRingMaps = s.toRingMaps)
    (hfactors : t.keyReplicationMap = s.keyReplicationMap) : t.Answers key := by
  obtain ⟨_, hlookup, hsucceed, hin⟩ := h
  exact ⟨_, lookup_of_succeed hrings hfactors hlookup hsucceed, rfl, hin⟩

theorem AsksFor.congr (h : s.AsksFor key) (hrings : t.toRingMaps = s.toRingMaps)
    (hfactors : t.keyReplicationMap = s.keyReplicationMap) : t.AsksFor key := by
  refine ⟨h.1, h.2.imp (fun hunknown => hfactors ▸ hunknown) ?_⟩
  rintro ⟨_, hlookup, hsucceed, hin⟩
  exact ⟨_, lookup_of_succeed hrings hfactors hlookup hsucceed, rfl, hin⟩

/-- The calls that a loop over tuples makes. -/
def loopCalls {β : Type}
    (step : ServerState srv × β → KeyTuple → Except Fault (ServerState srv × β))
    (acc : ServerState srv × β) (tuples : List KeyTuple) (rings : RingMaps srv.toConfig)
    (key : Key) : Prop :=
  ∃ pre tuple post acc', tuples = pre ++ tuple :: post ∧ pre.foldlM step acc = .ok acc' ∧
    tuple.key = key ∧ acc'.1.AsksFor key ∧ rings = acc'.1.toRingMaps

section
variable {β : Type} {step : ServerState srv × β → KeyTuple → Except Fault (ServerState srv × β)}
  {acc : ServerState srv × β} {tuples : List KeyTuple}

/-- **Calls of a loop** that leaves rings and factors alone, where it is known which tuples
it gets past when nobody keeps metadata. -/
theorem loopCalls_find_iff (Passes : List KeyTuple → Prop)
    (hadmits : ∀ tuple acc acc', step acc tuple = .ok acc' → acc.1.Admits acc'.1)
    (hpasses : ¬ MetadataServed acc.1.toRingMaps → ∀ pre,
      (∃ acc', pre.foldlM step acc = .ok acc') ↔ Passes pre) :
    CallsFind (loopCalls step acc tuples) ↔ MetadataServed acc.1.toRingMaps ∨
      ∀ pre tuple post, tuples = pre ++ tuple :: post → Passes pre → ¬ acc.1.AsksFor tuple.key := by
  have hframe : ∀ (pre : List KeyTuple) acc', pre.foldlM step acc = .ok acc' →
      acc'.1.toRingMaps = acc.1.toRingMaps ∧
        acc'.1.keyReplicationMap = acc.1.keyReplicationMap := fun pre acc' hpre => by
    obtain ⟨hrings, hfactors, -⟩ := (Admits.foldlM_fst hadmits hpre).1.frame
    exact ⟨hrings, hfactors⟩
  have hsame : ∀ rings key, loopCalls step acc tuples rings key → rings = acc.1.toRingMaps := by
    rintro _ key ⟨pre, tuple, post, acc', -, hpre, -, -, rfl⟩
    exact (hframe pre acc' hpre).1
  rw [callsFind_iff acc.1.toRingMaps hsame]
  by_cases hserved : MetadataServed acc.1.toRingMaps
  · exact iff_of_true (.inl hserved) (.inl hserved)
  rw [or_iff_right hserved, or_iff_right hserved]
  constructor
  · intro hnone pre tuple post hsplit hpass hasks
    obtain ⟨acc', hpre⟩ := (hpasses hserved pre).mpr hpass
    obtain ⟨hrings, hfactors⟩ := hframe pre acc' hpre
    exact hnone tuple.key ⟨pre, tuple, post, acc', hsplit, hpre, rfl, hasks.congr hrings hfactors,
      hrings.symm⟩
  · rintro hnone _ ⟨pre, tuple, post, acc', hsplit, hpre, rfl, hasks, -⟩
    obtain ⟨hrings, hfactors⟩ := hframe pre acc' hpre
    exact hnone pre tuple post hsplit ((hpasses hserved pre).mp ⟨acc', hpre⟩)
      (hasks.congr hrings.symm hfactors.symm)

theorem loop_divides (hstep : ∀ tuple acc, step acc tuple = .error .divisionByZero →
      acc.1.AsksFor tuple.key ∧ ¬ MetadataServed acc.1.toRingMaps)
    (h : tuples.foldlM step acc = .error .divisionByZero) :
    ¬ CallsFind (loopCalls step acc tuples) := by
  obtain ⟨pre, tuple, post, acc', hsplit, hpre, hdivides⟩ := foldlM_eq_error h
  obtain ⟨hasks, hserved⟩ := hstep tuple acc' hdivides
  intro hfind
  exact hserved ((metadataServed_iff _ _).mp (hfind acc'.1.toRingMaps tuple.key
    ⟨pre, tuple, post, acc', hsplit, hpre, rfl, hasks, rfl⟩))

end

/-! ### `user_request_handler` -/

theorem userServe_returns (s : ServerState srv) (now : Nat) (type : RequestType)
    (threads : List ServerThread) (tuple : KeyTuple) :
    ∃ s' tp, s.userServe now type threads tuple = .ok (s', tp) := by
  obtain ⟨s', tp, h⟩ := s.userProcess_returns type tuple
  exact ⟨_, _, bind_eq_ok.mpr ⟨(s', tp), h, rfl⟩⟩

/-- The calls that `user_request_handler` makes. -/
def userCalls (s : ServerState srv) (now : Nat) (request : KeyRequest) :
    RingMaps srv.toConfig → Key → Prop :=
  loopCalls (userRequestTuple now request) (s, []) request.tuples

variable {now : Nat} {request : KeyRequest} {answered : List KeyTuple} {tuple : KeyTuple}

theorem metadataServed_of_unknown (h : s.getResponsibleThreads key tiers = .ok lookup)
    (hsucceed : lookup.succeed = false) : MetadataServed s.toRingMaps := by
  rcases lookup_spec h with ⟨htrue, -⟩ | ⟨-, -, message, seed, hissue, -⟩
  · cases htrue.symm.trans hsucceed
  · exact (issue_returns_iff _ key _ _).mp ⟨message, seed, hissue⟩

theorem metadataServed_of_issue {s' : ServerState srv}
    (h : s.issueReplicationFactorRequest key = .ok s') : MetadataServed s.toRingMaps := by
  obtain ⟨⟨message, seed⟩, hissue, -⟩ := bind_eq_ok.mp h
  exact (issue_returns_iff _ key _ _).mp ⟨message, seed, hissue⟩

theorem userRequestTuple_returns_iff (hserved : ¬ MetadataServed s.toRingMaps) :
    (∃ acc', userRequestTuple now request (s, answered) tuple = .ok acc') ↔
      s.Answers tuple.key := by
  constructor
  · rintro ⟨⟨s', _⟩, h⟩
    obtain ⟨lookup, hlookup, ⟨hsucceed, hin, -⟩ | ⟨hsucceed, -, hkey, -⟩ | ⟨_, -, -, hs₁⟩⟩ :=
      userRequestTuple_cases h
    · exact ⟨lookup, hlookup, hsucceed, .inl hin⟩
    · exact ⟨lookup, hlookup, hsucceed, .inr hkey⟩
    · rcases hs₁ with ⟨hsucceed, -⟩ | ⟨-, -, hissue⟩
      · exact absurd (metadataServed_of_unknown hlookup hsucceed) hserved
      · exact absurd (metadataServed_of_issue hissue) hserved
  · rintro ⟨lookup, hlookup, hsucceed, hin⟩
    by_cases hresponsible : srv.wt.isIn lookup.threads = true
    · obtain ⟨_, tp, hserve⟩ :=
        (s.afterLookup lookup).userServe_returns now request.type lookup.threads tuple
      exact ⟨_, userRequestTuple_of_serve hlookup hsucceed hresponsible hserve⟩
    · let tp : KeyTuple :=
        { key := tuple.key, latticeType := tuple.latticeType, error := .wrongThread }
      refine ⟨(s.afterLookup lookup, answered ++ [tp]), bind_eq_ok.mpr ⟨lookup, hlookup, ?_⟩⟩
      rw [if_pos hsucceed, if_neg hresponsible, hin.resolve_left hresponsible]
      rfl

theorem lookup_divides (h : s.getResponsibleThreads key tiers = .error .divisionByZero) :
    s.AsksFor key ∧ ¬ MetadataServed s.toRingMaps := by
  rcases lookup_error h nofun with hthreads | ⟨hkey, ⟨hunknown, hissue⟩ | ⟨rep, -, hthreads⟩⟩
  · by_cases hends : s.toRingMaps.MetadataEnds
    · obtain ⟨threads, hok⟩ := hends.returns key
      rw [hthreads] at hok
      cases hok
    · rw [metadataThreads_of_not_ends hends] at hthreads
      cases hthreads
  · exact ⟨⟨hkey, .inl hunknown⟩, not_metadataServed_of_issue_error hissue⟩
  · by_cases hfits : s.toRingMaps.Fits rep tiers
    · obtain ⟨_, hok⟩ := (responsibleThreads_returns_iff key).mpr hfits
      rw [hthreads] at hok
      cases hok
    · rw [responsibleThreads_of_not_fits key hfits] at hthreads
      cases hthreads

theorem others_divide {α : Type} {metadata : α} {data : ServerState srv → α}
    (hlookup : s.getResponsibleThreads key [srv.selfTier] = .ok lookup)
    (hsucceed : lookup.succeed = true) (hin : ¬ srv.wt.isIn lookup.threads = true) (h : (do
      if ← isMetadata key then return metadata
      else
        let s ← (s.afterLookup lookup).issueReplicationFactorRequest key
        return data s) = .error Fault.divisionByZero) :
    s.AsksFor key ∧ ¬ MetadataServed s.toRingMaps := by
  rcases bind_eq_error.mp h with hkey | ⟨metadata, hkey, h⟩
  · exact nomatch isMetadata_error hkey
  cases metadata with
  | true => cases h
  | false =>
    rcases bind_eq_error.mp h with h | ⟨_, -, h⟩
    · rcases bind_eq_error.mp h with hissue | ⟨_, -, h⟩
      · exact ⟨⟨hkey, .inr ⟨lookup, hlookup, hsucceed, Bool.eq_false_iff.mpr hin⟩⟩,
          not_metadataServed_of_issue_error hissue⟩
      · cases h
    · cases h

theorem userRequestTuple_divides
    (h : userRequestTuple now request (s, answered) tuple = .error .divisionByZero) :
    s.AsksFor tuple.key ∧ ¬ MetadataServed s.toRingMaps := by
  rcases bind_eq_error.mp h with hlookup | ⟨lookup, hlookup, h⟩
  · exact lookup_divides hlookup
  · dsimp only at h
    split at h
    · rename_i hsucceed
      split at h
      · rcases bind_eq_error.mp h with hserve | ⟨acc, -, h⟩
        · obtain ⟨s', tp, hok⟩ :=
            (s.afterLookup lookup).userServe_returns now request.type lookup.threads tuple
          rw [hserve] at hok
          cases hok
        · cases h
      · rename_i hin
        exact others_divide hlookup hsucceed hin h
    · cases h

/-- **Calls of `user_request_handler`.** -/
theorem userCalls_find_iff (now : Nat) (request : KeyRequest) :
    CallsFind (s.userCalls now request) ↔ MetadataServed s.toRingMaps ∨
      ∀ pre tuple post, request.tuples = pre ++ tuple :: post → (∀ u ∈ pre, s.Answers u.key) →
        ¬ s.AsksFor tuple.key := by
  refine loopCalls_find_iff (fun pre => ∀ u ∈ pre, s.Answers u.key)
    (fun _ _ _ => userRequestTuple_admits) fun hserved pre => ?_
  rw [foldlM_returns_iff (fun _ tuple => s.Answers tuple.key)]
  · exact forall_split_iff
  · rintro _ u _ ⟨t, _⟩ _ hbefore
    obtain ⟨hrings, hfactors, -⟩ :=
      (Admits.foldlM_fst (fun _ _ _ => userRequestTuple_admits) hbefore).1.frame
    rw [userRequestTuple_returns_iff (hrings ▸ hserved)]
    exact ⟨fun h => h.congr hrings.symm hfactors.symm, fun h => h.congr hrings hfactors⟩

theorem userRequestHandler_divides (h : s.userRequestHandler now request = .error .divisionByZero) :
    ¬ CallsFind (s.userCalls now request) := by
  rcases bind_eq_error.mp h with hfold | ⟨⟨t, _⟩, -, h⟩
  · exact loop_divides (fun _ _ => userRequestTuple_divides) hfold
  · dsimp only at h
    split at h <;> cases h

/-! ### `gossip_handler` -/

/-- The calls that `gossip_handler` makes. -/
def gossipCalls (s : ServerState srv) (gossip : KeyRequest) : RingMaps srv.toConfig → Key → Prop :=
  loopCalls gossipTuple (s, ∅) gossip.tuples

/-- After gossip about some tuples, the thread does not have a type for the key: it had stored
it without one, or it had not and no tuple is about it. -/
def Untyped (s : ServerState srv) (pre : List KeyTuple) (key : Key) : Prop :=
  (∃ property, s.storedKeyMap[key]? = some property ∧ property.type = .none) ∨
    s.storedKeyMap[key]? = none ∧ ∀ u ∈ pre, u.key ≠ key

/-- After some tuples, the loop gets past another one if nobody keeps metadata. -/
structure GossipPasses (s : ServerState srv) (pre : List KeyTuple) (tuple : KeyTuple) : Prop where
  answers : s.Answers tuple.key
  typed : s.Responsible tuple.key → tuple.latticeType = .none → ¬ s.Untyped pre tuple.key

variable {m m' : ExtTreeMap Address KeyRequest} {s' : ServerState srv} {type : LatticeType}

theorem processPut_returns_iff {payload : String} :
    (∃ s', s.processPut key type payload = .ok s') ↔ type ≠ .none := by
  constructor
  · rintro ⟨_, h⟩ rfl
    rw [processPut, at_none] at h
    cases h
  · intro htype
    obtain ⟨_, hserializer⟩ := exists_serializer srv htype
    rw [processPut, hserializer]
    exact ⟨_, rfl⟩

theorem gossipPut_returns_iff : (∃ s', s.gossipPut tuple = .ok s') ↔ (tuple.latticeType = .none →
      ∃ property, s.storedKeyMap[tuple.key]? = some property ∧ property.type ≠ .none) := by
  unfold gossipPut
  split
  · rename_i property hstored
    by_cases htype : property.type = tuple.latticeType
    · rw [if_neg (not_not.mpr htype), processPut_returns_iff, ← htype]
      constructor
      · exact fun hsome hnone => absurd hnone hsome
      · intro h hnone
        obtain ⟨p, hp, hsome⟩ := h hnone
        rw [hstored] at hp
        cases hp
        exact hsome hnone
    · rw [if_pos htype]
      exact iff_of_true ⟨s, rfl⟩ fun hnone =>
        ⟨property, hstored, fun h => htype (h.trans hnone.symm)⟩
  · rename_i hstored
    rw [processPut_returns_iff]
    refine forall_congr' fun _ => ⟨False.elim, ?_⟩
    rintro ⟨p, hp, -⟩
    rw [hstored] at hp
    cases hp

theorem processPut_stored {payload : String} (h : s.processPut key type payload = .ok s') :
    (∀ k, k ≠ key → s'.storedKeyMap[k]? = s.storedKeyMap[k]?) ∧
      ∃ property, s'.storedKeyMap[key]? = some property ∧ property.type = type := by
  obtain ⟨_, -, rfl⟩ := processPut_eq_ok h
  refine ⟨fun k hk => ?_, _, ExtTreeMap.getElem?_insert_self, rfl⟩
  exact ExtTreeMap.getElem?_insert.trans (if_neg fun heq => hk (Std.compare_eq_iff_eq.mp heq).symm)

theorem gossipPut_stored (h : s.gossipPut tuple = .ok s') :
    (∀ k, k ≠ tuple.key → s'.storedKeyMap[k]? = s.storedKeyMap[k]?) ∧
    ∃ property, s'.storedKeyMap[tuple.key]? = some property ∧
      (∀ p, s.storedKeyMap[tuple.key]? = some p → property.type = p.type) ∧
      (s.storedKeyMap[tuple.key]? = none → property.type ≠ .none) := by
  unfold gossipPut at h
  split at h
  · rename_i p hp
    rw [hp]
    split at h
    · cases h
      exact ⟨fun _ _ => rfl, p, hp, fun _ hp' => by cases hp'; rfl, nofun⟩
    · rename_i htype
      obtain ⟨hothers, property, hproperty, htype'⟩ := processPut_stored h
      refine ⟨hothers, property, hproperty, fun _ hp' => ?_, nofun⟩
      cases hp'
      exact htype'.trans (not_not.mp htype).symm
  · rename_i hnone
    obtain ⟨hothers, property, hproperty, htype⟩ := processPut_stored h
    refine ⟨hothers, property, hproperty, fun p hp => ?_, fun _ => ?_⟩
    · rw [hnone] at hp
      cases hp
    · rw [htype]
      exact processPut_returns_iff.mp ⟨s', h⟩

theorem Responsible.congr (h : s.Responsible key) (hrings : t.toRingMaps = s.toRingMaps)
    (hfactors : t.keyReplicationMap = s.keyReplicationMap) : t.Responsible key := by
  obtain ⟨_, hlookup, hsucceed, hin⟩ := h
  exact ⟨_, lookup_of_succeed hrings hfactors hlookup hsucceed, rfl, hin⟩

theorem gossipTuple_returns_iff (hserved : ¬ MetadataServed s.toRingMaps) :
    (∃ acc', gossipTuple (s, m) tuple = .ok acc') ↔
      s.Answers tuple.key ∧ (s.Responsible tuple.key → tuple.latticeType = .none →
        ∃ property, s.storedKeyMap[tuple.key]? = some property ∧ property.type ≠ .none) := by
  constructor
  · rintro ⟨⟨s', _⟩, h⟩
    obtain ⟨lookup, hlookup, ⟨hsucceed, hin, hput⟩ | ⟨hsucceed, hin, hkey, -⟩ | ⟨_, -, hs₁⟩⟩ :=
      gossipTuple_cases h
    · exact ⟨⟨lookup, hlookup, hsucceed, .inl hin⟩,
        fun _ => (gossipPut_returns_iff (s := s.afterLookup lookup)).mp ⟨s', hput⟩⟩
    · exact ⟨⟨lookup, hlookup, hsucceed, .inr hkey⟩,
        fun hresponsible => absurd hresponsible (not_responsible hlookup hin)⟩
    · rcases hs₁ with ⟨hsucceed, -⟩ | ⟨-, -, hissue⟩
      · exact absurd (metadataServed_of_unknown hlookup hsucceed) hserved
      · exact absurd (metadataServed_of_issue hissue) hserved
  · rintro ⟨⟨lookup, hlookup, hsucceed, hin⟩, htyped⟩
    by_cases hresponsible : srv.wt.isIn lookup.threads = true
    · obtain ⟨s', hput⟩ : ∃ s', (s.afterLookup lookup).gossipPut tuple = .ok s' :=
        gossipPut_returns_iff.mpr (htyped ⟨lookup, hlookup, hsucceed, hresponsible⟩)
      refine ⟨(s', m), bind_eq_ok.mpr ⟨lookup, hlookup, ?_⟩⟩
      rw [if_pos hsucceed, if_pos hresponsible]
      exact bind_eq_ok.mpr ⟨s', hput, rfl⟩
    · refine ⟨(s.afterLookup lookup, addForward lookup.threads tuple m),
        bind_eq_ok.mpr ⟨lookup, hlookup, ?_⟩⟩
      rw [if_pos hsucceed, if_neg hresponsible, hin.resolve_left hresponsible]
      rfl

theorem gossipTuple_stored (h : gossipTuple (s, m) tuple = .ok (s', m')) :
    (∃ s₁ : ServerState srv, s₁.storedKeyMap = s.storedKeyMap ∧ s₁.gossipPut tuple = .ok s') ∨
      (¬ s.Responsible tuple.key ∧ s'.storedKeyMap = s.storedKeyMap) := by
  obtain ⟨lookup, hlookup, ⟨-, -, hput⟩ | ⟨-, hin, -, rfl⟩ | ⟨_, rfl, hs₁⟩⟩ := gossipTuple_cases h
  · exact .inl ⟨s.afterLookup lookup, rfl, hput⟩
  · exact .inr ⟨not_responsible hlookup hin, rfl⟩
  · right
    rcases hs₁ with ⟨hsucceed, rfl⟩ | ⟨-, hin, hissue⟩
    · refine ⟨?_, rfl⟩
      rintro ⟨_, hlookup', hsucceed', -⟩
      rw [hlookup] at hlookup'
      cases hlookup'
      rw [hsucceed] at hsucceed'
      cases hsucceed'
    · obtain ⟨_, -, hs₁⟩ := bind_eq_ok.mp hissue
      cases hs₁
      exact ⟨not_responsible hlookup hin, rfl⟩

variable {pre : List KeyTuple}

/-- The type of a key after gossip about some tuples: it stays what it was, and a key that
was not stored has got one with the first tuple about it. -/
theorem gossip_types (hresponsible : s.Responsible key)
    (hpre : pre.foldlM gossipTuple (s, m) = .ok (t, m')) :
    (∀ p, s.storedKeyMap[key]? = some p → ∃ p', t.storedKeyMap[key]? = some p' ∧ p'.type = p.type) ∧
    (s.storedKeyMap[key]? = none → (∀ u ∈ pre, u.key ≠ key) → t.storedKeyMap[key]? = none) ∧
    (s.storedKeyMap[key]? = none → (∃ u ∈ pre, u.key = key) →
      ∃ p', t.storedKeyMap[key]? = some p' ∧ p'.type ≠ .none) := by
  induction pre using List.reverseRecOn generalizing t m' with
  | nil =>
    cases hpre
    exact ⟨fun p hp => ⟨p, hp, rfl⟩, fun hnone _ => hnone, fun _ ⟨u, hu, _⟩ => by cases hu⟩
  | append_singleton pre u ih =>
    obtain ⟨⟨t₀, _⟩, hpre, hlast⟩ := foldlM_append_eq_ok.mp hpre
    obtain ⟨⟨_, _⟩, hstep, hdone⟩ := foldlM_cons_eq_ok.mp hlast
    cases hdone
    obtain ⟨hstored, hfresh, hseen⟩ := ih hpre
    obtain ⟨hrings, hfactors, -⟩ :=
      (Admits.foldlM_fst (fun _ _ _ => gossipTuple_admits) hpre).1.frame
    by_cases hkey : u.key = key
    · subst hkey
      obtain ⟨s₁, hs₁, hput⟩ := (gossipTuple_stored hstep).resolve_right fun hno =>
        hno.1 (hresponsible.congr hrings hfactors)
      obtain ⟨-, property, hproperty, hkept, hnew⟩ := gossipPut_stored hput
      rw [hs₁] at hkept hnew
      refine ⟨fun p hp => ?_, fun _ hno => ?_, fun hnone _ => ?_⟩
      · obtain ⟨p', hp', htype⟩ := hstored p hp
        exact ⟨property, hproperty, (hkept p' hp').trans htype⟩
      · exact absurd rfl (hno u (mem_append_right _ mem_cons_self))
      · refine ⟨property, hproperty, ?_⟩
        by_cases hmem : ∃ v ∈ pre, v.key = u.key
        · obtain ⟨p', hp', _⟩ := hseen hnone hmem
          rwa [hkept p' hp']
        · exact hnew (hfresh hnone fun v hv heq => hmem ⟨v, hv, heq⟩)
    · have hsame : t.storedKeyMap[key]? = t₀.storedKeyMap[key]? := by
        rcases gossipTuple_stored hstep with ⟨_, hs₁, hput⟩ | ⟨-, hsame⟩
        · rw [(gossipPut_stored hput).1 key (Ne.symm hkey), hs₁]
        · rw [hsame]
      rw [hsame]
      refine ⟨hstored, fun hnone hno => ?_, fun hnone hmem => ?_⟩
      · exact hfresh hnone fun v hv => hno v (mem_append_left _ hv)
      · obtain ⟨v, hv, heq⟩ := hmem
        refine hseen hnone ⟨v, (mem_append.mp hv).resolve_right fun hlast => ?_, heq⟩
        exact hkey (mem_singleton.mp hlast ▸ heq)

theorem gossip_typed_iff (hresponsible : s.Responsible key)
    (hpre : pre.foldlM gossipTuple (s, m) = .ok (t, m')) :
    (∃ property, t.storedKeyMap[key]? = some property ∧ property.type ≠ .none) ↔
      ¬ s.Untyped pre key := by
  obtain ⟨hstored, hfresh, hseen⟩ := gossip_types hresponsible hpre
  cases hs : s.storedKeyMap[key]? with
  | some p =>
    obtain ⟨_, hp', htype⟩ := hstored p hs
    rw [Untyped, hs, hp']
    simp [htype]
  | none =>
    rw [Untyped, hs]
    by_cases hmem : ∃ u ∈ pre, u.key = key
    · refine iff_of_true (hseen hs hmem) ?_
      rintro (⟨_, hcontra, -⟩ | ⟨-, hno⟩)
      · cases hcontra
      · obtain ⟨u, hu, heq⟩ := hmem
        exact hno u hu heq
    · have hno : ∀ u ∈ pre, u.key ≠ key := fun u hu heq => hmem ⟨u, hu, heq⟩
      rw [hfresh hs hno]
      refine iff_of_false ?_ (not_not.mpr (.inr ⟨rfl, hno⟩))
      rintro ⟨_, hcontra, -⟩
      cases hcontra

theorem gossipPut_error {e : Fault} (h : s.gossipPut tuple = .error e) : e = .nullSerializer := by
  unfold gossipPut at h
  split at h
  · split at h
    · cases h
    · exact processPut_error h
  · exact processPut_error h

/-- **Calls of `gossip_handler`.** -/
theorem gossipCalls_find_iff (gossip : KeyRequest) :
    CallsFind (s.gossipCalls gossip) ↔ MetadataServed s.toRingMaps ∨
      ∀ pre tuple post, gossip.tuples = pre ++ tuple :: post →
        (∀ before u after, pre = before ++ u :: after → s.GossipPasses before u) →
        ¬ s.AsksFor tuple.key := by
  refine loopCalls_find_iff
    (fun pre => ∀ before u after, pre = before ++ u :: after → s.GossipPasses before u)
    (fun _ _ _ => gossipTuple_admits) fun hserved pre => ?_
  refine foldlM_returns_iff s.GossipPasses ?_
  rintro _ u _ ⟨t, m⟩ _ hbefore
  obtain ⟨hrings, hfactors, -⟩ :=
    (Admits.foldlM_fst (fun _ _ _ => gossipTuple_admits) hbefore).1.frame
  rw [gossipTuple_returns_iff (hrings ▸ hserved)]
  constructor
  · rintro ⟨hanswers, htyped⟩
    refine ⟨hanswers.congr hrings.symm hfactors.symm, fun hresponsible hnone => ?_⟩
    exact (gossip_typed_iff hresponsible hbefore).mp
      (htyped (hresponsible.congr hrings hfactors) hnone)
  · rintro ⟨hanswers, htyped⟩
    refine ⟨hanswers.congr hrings hfactors, fun hresponsible hnone => ?_⟩
    have hresponsible' := hresponsible.congr hrings.symm hfactors.symm
    exact (gossip_typed_iff hresponsible' hbefore).mpr (htyped hresponsible' hnone)

theorem gossipTuple_divides (h : gossipTuple (s, m) tuple = .error .divisionByZero) :
    s.AsksFor tuple.key ∧ ¬ MetadataServed s.toRingMaps := by
  rcases bind_eq_error.mp h with hlookup | ⟨lookup, hlookup, h⟩
  · exact lookup_divides hlookup
  · dsimp only at h
    split at h
    · rename_i hsucceed
      split at h
      · rcases bind_eq_error.mp h with hput | ⟨t, -, h⟩
        · cases gossipPut_error hput
        · cases h
      · rename_i hin
        exact others_divide hlookup hsucceed hin h
    · cases h

theorem gossipHandler_divides {gossip : KeyRequest}
    (h : s.gossipHandler gossip = .error .divisionByZero) :
    ¬ CallsFind (s.gossipCalls gossip) := by
  rcases bind_eq_error.mp h with hfold | ⟨⟨t, m⟩, -, h⟩
  · exact loop_divides (fun _ _ => gossipTuple_divides) hfold
  · cases h

end ServerState

/-! ## All three handlers -/

/-- **Requests for factors find a thread**, and no handler divides by zero, just if the memory
tier keeps metadata or if the handler gets to no key that it has to ask for. -/
theorem factor_requests_find_threads_iff {router : Router} (r : RoutingState router)
    (query : KeyAddressRequest) {srv : Server} (s : ServerState srv) (now : Nat)
    (request gossip : KeyRequest) :
    ((CallsFind (r.addressCalls query) ↔ MetadataServed r.toRingMaps ∨ r.numServers = 0 ∨
        ∀ pre key post, query.keys = pre ++ key :: post → (∀ k ∈ pre, r.Answerable k) →
          ¬ r.Unknown key) ∧
      (CallsFind (r.addressCalls query) → r.addressHandler query ≠ .error .divisionByZero)) ∧
    ((CallsFind (s.userCalls now request) ↔ MetadataServed s.toRingMaps ∨
        ∀ pre tuple post, request.tuples = pre ++ tuple :: post →
          (∀ u ∈ pre, s.Answers u.key) → ¬ s.AsksFor tuple.key) ∧
      (CallsFind (s.userCalls now request) →
        s.userRequestHandler now request ≠ .error .divisionByZero)) ∧
    (CallsFind (s.gossipCalls gossip) ↔ MetadataServed s.toRingMaps ∨
        ∀ pre tuple post, gossip.tuples = pre ++ tuple :: post →
          (∀ before u after, pre = before ++ u :: after → s.GossipPasses before u) →
          ¬ s.AsksFor tuple.key) ∧
      (CallsFind (s.gossipCalls gossip) → s.gossipHandler gossip ≠ .error .divisionByZero) := by
  refine ⟨⟨RoutingState.addressCalls_find_iff, fun hfind h => ?_⟩,
    ⟨ServerState.userCalls_find_iff now request, fun hfind h => ?_⟩,
    ServerState.gossipCalls_find_iff gossip, fun hfind h => ?_⟩
  · exact RoutingState.addressHandler_divides h hfind
  · exact ServerState.userRequestHandler_divides h hfind
  · exact ServerState.gossipHandler_divides h hfind

/-! ## A disk node and a routing thread -/

section
variable {D : Type} [Priority D] (codecs : ValueCodecs D) (repCodec : Codec ReplicationFactor)

/-- A routing thread next to a disk node. -/
def diskRouter : Router :=
  { (diskServer codecs repCodec (fun _ => 0) ⟨"A", "a", 0, 0⟩).toConfig with
    rt := ⟨"r", 0⟩ }

/-- It knows the node, and no factors. -/
def diskRouting : RoutingState (diskRouter codecs repCodec) where
  toRingMaps := (loneDisk codecs repCodec).toRingMaps
  seed := 0
  keyReplicationMap := ∅
  pendingRequests := ∅
  sent := []

theorem diskRouting_numServers : (diskRouting codecs repCodec).numServers ≠ 0 := by
  have hturn : ((diskRouting codecs repCodec).globalHashRings .disk).turn "k" =
      [⟨"A", "a", 0, 0⟩] := HashRing.turn_insert_default 0 (fun _ => rfl) "k"
  have hserver : ((diskRouting codecs repCodec).globalHashRings .disk).nodes.nodes ≠ ∅ := by
    intro hempty
    rw [(turn_eq_nil_iff "k").mpr hempty] at hturn
    cases hturn
  exact RoutingState.numServers_ne_zero hserver

end

/-- **A cluster without memory nodes**: there is a server, and a query for any key whose
factors are unknown makes the routing thread divide by zero. -/
theorem query_without_memory_node_divides_by_zero :
    ∃ (router : Router) (s : RoutingState router) (request : KeyAddressRequest),
      s.numServers ≠ 0 ∧ ¬ CallsFind (s.addressCalls request) ∧
      s.addressHandler request = .error .divisionByZero := by
  obtain ⟨codecs, repCodec⟩ := exists_codecs
  let request : KeyAddressRequest := { responseAddress := "c", keys := ["k"], requestId := "1" }
  have hservers := diskRouting_numServers codecs repCodec
  have hsplit : request.keys = [] ++ "k" :: [] := rfl
  have hdivides := (RoutingState.addressHandler_stops hservers hsplit nofun).1
    ⟨by decide, ExtTreeMap.getElem?_empty⟩
  exact ⟨_, _, request, hservers, RoutingState.addressHandler_divides hdivides, hdivides⟩

end Testbed.Anna
