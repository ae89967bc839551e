import Testbed.Anna.ReplicationHelpers
import Testbed.Anna.RingWalks
import Testbed.Lib.MapSweeps

/-! # Storing new factors

The first loop of `change_replication_factor`: what it writes into the monitor's map, whom
it asks to store what, and when it ends (`prepareKeys_stored`, `prepareKeys_returns_iff`).
The keys that then fail are those of requests that were not answered, and those that the
answers refuse (`Stored.mem_failedKeys_iff`).
-/
namespace Testbed.Anna

open Std Lib List Std.ExtTreeMap

namespace KeyReplication
variable {rep rep' rep'' : KeyReplication}

/-- The same factors: an entry that is missing reads as `0`. -/
def Same (rep rep' : KeyReplication) : Prop :=
  ∀ tier, rep.globalAt tier = rep'.globalAt tier ∧ rep.localAt tier = rep'.localAt tier

theorem Same.refl (rep : KeyReplication) : rep.Same rep := fun _ => ⟨rfl, rfl⟩

theorem Same.symm (h : rep.Same rep') : rep'.Same rep :=
  fun tier => ⟨(h tier).1.symm, (h tier).2.symm⟩

theorem Same.trans (h : rep.Same rep') (h' : rep'.Same rep'') : rep.Same rep'' :=
  fun tier => ⟨(h tier).1.trans (h' tier).1, (h tier).2.trans (h' tier).2⟩

theorem touchGlobal_same (rep : KeyReplication) (tier : Tier) :
    (rep.touchGlobal tier).Same rep := by
  intro tier'
  refine ⟨?_, rfl⟩
  unfold touchGlobal setGlobal globalAt
  dsimp only
  by_cases htier : tier' = tier
  · subst htier
    rw [Function.update_self]
    rfl
  · rw [Function.update_of_ne htier]

/-- Every entry of the one is an entry of the other. -/
def Within (rep rep' : KeyReplication) : Prop := ∀ tier value,
  (rep.globalReplication tier = some value → rep'.globalReplication tier = some value) ∧
    (rep.localReplication tier = some value → rep'.localReplication tier = some value)

theorem equals_iff_within : rep.equals rep' = true ↔ rep.Within rep' := by
  have htiers : ∀ tier, tier ∈ tiers := fun tier => by cases tier <;> decide
  simp only [equals, all_eq_true, Bool.and_eq_true, Option.all_eq_true, decide_eq_true_eq]
  refine ⟨fun h tier value => ?_, fun h tier _ => ?_⟩
  · exact ⟨(h tier (htiers tier)).1 value, (h tier (htiers tier)).2 value⟩
  · exact ⟨fun value => (h tier value).1, fun value => (h tier value).2⟩

/-- **`operator==` is a preorder.**  Where the left hand side has some of the entries of the right
hand side and no others, it is neither symmetric nor equality. -/
theorem equals_equivalence_iff (rep rep' rep'' : KeyReplication) : rep.equals rep = true ∧
    (rep.equals rep' = true → rep'.equals rep'' = true → rep.equals rep'' = true) ∧
    (((rep.equals rep' = true → rep'.equals rep = true) ∧
      (rep.equals rep' = true ↔ rep = rep')) ↔ (rep.Within rep' → rep = rep')) := by
  simp only [equals_iff_within]
  have hrefl : rep.Within rep := fun _ _ => ⟨id, id⟩
  refine ⟨hrefl, fun h h' tier value => ?_, fun h => h.2.mp, fun h => ⟨fun hwithin => ?_, h, ?_⟩⟩
  · exact ⟨(h' tier value).1 ∘ (h tier value).1, (h' tier value).2 ∘ (h tier value).2⟩
  · exact h hwithin ▸ hrefl
  · exact fun heq => heq ▸ hrefl

/-- Factors without an entry are equal to all others, and no others to them. -/
theorem equals_not_equivalence : ¬ ((∀ rep : KeyReplication, rep.equals rep = true) ∧
      (∀ rep rep' : KeyReplication, rep.equals rep' = true → rep'.equals rep = true) ∧
      (∀ rep rep' rep'' : KeyReplication, rep.equals rep' = true → rep'.equals rep'' = true →
        rep.equals rep'' = true) ∧
      ∀ rep rep' : KeyReplication, rep.equals rep' = true ↔ rep = rep') := fun h =>
  absurd (h.2.1 default (setGlobal default (.memory, 1)) (by decide)) (by decide)

end KeyReplication

namespace MonitorState
variable {monitor : Monitor} {s s' : MonitorState monitor} {out : Surroundings}
  {requests : ExtTreeMap Key KeyReplication} {key k : Key} {new : KeyReplication}

variable (s)

theorem getElem?_setFactors (key : Key) (rep : KeyReplication)
    (k : Key) : (s.setFactors key rep).keyReplicationMap[k]? =
      if key = k then some rep else s.keyReplicationMap[k]? := by
  rw [setFactors, ExtTreeMap.getElem?_insert]
  simp

theorem factors_eq_getD (key : Key) : s.factors key = s.keyReplicationMap[key]?.getD default :=
  getD_eq_getD_getElem?

theorem factors_setFactors (key : Key) (rep : KeyReplication)
    (k : Key) : (s.setFactors key rep).factors k = if key = k then rep else s.factors k := by
  rw [factors_eq_getD, getElem?_setFactors, factors_eq_getD]
  split <;> rfl

/-! ## Storing the factors -/

/-- The factors that the map gets: the old ones if they are taken to be equal. -/
def chosen (new old : KeyReplication) : KeyReplication := if new.equals old then old else new

/-- The server that is asked to store what is kept under a metadata key. -/
def target (out : Surroundings) (key : Key) : Option Address :=
  match getResponsibleThreadsMetadata s.toRingMaps key with
  | .ok threads =>
    threads[out.rand key % threads.length]?.map ServerThread.keyRequestConnectAddress
  | .error _ => none

variable {s}

/-- The metadata keys in the request to an address. -/
def keysAt (addrRequestMap : AddrRequestMap) (address : Address) : List Key :=
  (addrRequestMap.getD address {}).tuples.map KeyTuple.key

theorem prepareMetadataRequest_eq_ok {addrRequestMap m : AddrRequestMap} {type : RequestType}
    {target : Option Address}
    (h : s.prepareMetadataRequest out key addrRequestMap type = .ok (target, m, s')) :
    target = s.target out key ∧ (∃ rid, s' = { s with rid }) ∧
      (∀ a, target ≠ some a → m[a]? = addrRequestMap[a]?) ∧
      ∀ a, keysAt m a = keysAt addrRequestMap a := by
  obtain ⟨threads, hthreads, h⟩ := bind_eq_ok.mp h
  rw [MonitorState.target, hthreads]
  dsimp only at h ⊢
  cases hget : threads[out.rand key % threads.length]? with
  | none =>
    rw [hget] at h
    cases h
    exact ⟨rfl, ⟨_, rfl⟩, fun _ _ => rfl, fun _ => rfl⟩
  | some thread =>
    rw [hget] at h
    dsimp only at h
    split at h
    · cases h
      exact ⟨rfl, ⟨_, rfl⟩, fun _ _ => rfl, fun _ => rfl⟩
    · rename_i hnew
      cases h
      refine ⟨rfl, ⟨_, rfl⟩, fun a ha => ?_, fun a => ?_⟩
      · rw [ExtTreeMap.getElem?_insert, if_neg]
        exact fun heq => ha (congrArg some (Std.compare_eq_iff_eq.mp heq))
      · -- a request that is begun has no keys in it
        unfold keysAt
        rw [getD_insert]
        split
        · rename_i heq
          rw [← Std.compare_eq_iff_eq.mp heq, getD_eq_fallback hnew]
        · rfl

theorem prepareMetadataPutRequest_eq_ok {value : String} {addrRequestMap m : AddrRequestMap}
    (h : s.prepareMetadataPutRequest out key value addrRequestMap = .ok (m, s')) :
    (∃ rid, s' = { s with rid }) ∧ (∀ a, a ∈ m ↔ a ∈ addrRequestMap ∨ s.target out key = some a) ∧
      ∀ a, keysAt m a =
        keysAt addrRequestMap a ++ if s.target out key = some a then [key] else [] := by
  obtain ⟨⟨target, _, t⟩, hprepare, h⟩ := bind_eq_ok.mp h
  obtain ⟨htarget, hrid, hothers, hkeys⟩ := prepareMetadataRequest_eq_ok hprepare
  rw [← htarget]
  cases target with
  | none =>
    cases h
    refine ⟨hrid, fun a => ?_, fun a => ?_⟩
    · rw [mem_iff_isSome_getElem?, mem_iff_isSome_getElem?,
        hothers a (Option.some_ne_none a).symm, or_iff_left (Option.some_ne_none a).symm]
    · rw [hkeys, if_neg (Option.some_ne_none a).symm, append_nil]
  | some target =>
    cases h
    refine ⟨hrid, fun a => ?_, fun a => ?_⟩
    · rw [mem_insert, Std.compare_eq_iff_eq, Option.some_inj]
      by_cases ha : target = a
      · exact iff_of_true (.inl ha) (.inr ha)
      · rw [or_iff_right ha, or_iff_left ha, mem_iff_isSome_getElem?,
          mem_iff_isSome_getElem?, hothers a fun heq => ha (Option.some_inj.mp heq)]
    · rw [← hkeys, keysAt, keysAt, getD_insert]
      simp only [Std.compare_eq_iff_eq, Option.some_inj]
      by_cases ha : target = a
      · rw [if_pos ha, if_pos ha, ha, preparePutTuple, map_append]
        rfl
      · rw [if_neg ha, if_neg ha, append_nil]

/-- The server at the address is asked to store the new factors of the key. -/
def Asked (s : MonitorState monitor) (out : Surroundings) (address : Address)
    (request : Key × KeyReplication) : Prop :=
  ¬ request.2.equals (s.factors request.1) = true ∧
    s.target out (getMetadataKey request.1) = some address

variable {acc acc' prepared : Prepared monitor} {request : Key × KeyReplication}

theorem prepareKey_eq_ok (h : prepareKey out acc request = .ok acc') :
    (∃ rid, acc'.state = { acc.state.setFactors request.1
      (chosen request.2 (acc.state.factors request.1)) with rid }) ∧
    acc'.orig = acc.orig.insert request.1 (acc.state.factors request.1) ∧
    (∀ a, a ∈ acc'.addrRequestMap ↔ a ∈ acc.addrRequestMap ∨ acc.state.Asked out a request) ∧
    ∀ a k, k ∈ keysAt acc'.addrRequestMap a ↔ k ∈ keysAt acc.addrRequestMap a ∨
      acc.state.Asked out a request ∧ k = getMetadataKey request.1 := by
  unfold prepareKey at h
  dsimp only at h
  split at h
  · rename_i hequals
    cases h
    have hnot : ∀ a, ¬ acc.state.Asked out a request := fun a hasked => hasked.1 hequals
    refine ⟨⟨acc.state.rid, ?_⟩, rfl, fun a => ?_, fun a k => ?_⟩
    · rw [chosen, if_pos hequals]
      rfl
    · rw [or_iff_left (hnot a)]
    · rw [or_iff_left fun hasked => hnot a hasked.1]
  · rename_i hequals
    obtain ⟨⟨m, t⟩, hput, h⟩ := bind_eq_ok.mp h
    cases h
    obtain ⟨⟨rid, rfl⟩, hmem, hkeys⟩ := prepareMetadataPutRequest_eq_ok hput
    have hasked : ∀ a, acc.state.Asked out a request ↔
        (acc.state.setFactors request.1 request.2).target out (getMetadataKey request.1) =
          some a := fun a => and_iff_right hequals
    refine ⟨⟨rid, ?_⟩, rfl, fun a => ?_, fun a k => ?_⟩
    · rw [chosen, if_neg hequals]
    · rw [hasked]
      exact hmem a
    · rw [hasked, hkeys, mem_append]
      refine or_congr_right ?_
      split <;> simp_all

/-- The maps after the first loop has seen some of the requests. -/
structure Stored (s : MonitorState monitor) (out : Surroundings)
    (done : List (Key × KeyReplication)) (acc : Prepared monitor) : Prop where
  frame : ∃ m rid, acc.state = { s with keyReplicationMap := m, rid }
  requested : ∀ request ∈ done, acc.orig[request.1]? = some (s.factors request.1) ∧
    acc.state.keyReplicationMap[request.1]? = some (chosen request.2 (s.factors request.1))
  others : ∀ key, (∀ request ∈ done, request.1 ≠ key) → acc.orig[key]? = none ∧
    acc.state.keyReplicationMap[key]? = s.keyReplicationMap[key]?
  addresses : ∀ a, a ∈ acc.addrRequestMap ↔ ∃ request ∈ done, s.Asked out a request
  keys : ∀ a k, k ∈ keysAt acc.addrRequestMap a ↔
    ∃ request ∈ done, s.Asked out a request ∧ k = getMetadataKey request.1

theorem Stored.initial (s : MonitorState monitor) (out : Surroundings) :
    Stored s out [] { state := s } where
  frame := ⟨_, _, rfl⟩
  requested := by simp
  others _ _ := ⟨getElem?_empty, rfl⟩
  addresses _ := by simp
  keys a k := by simp [keysAt]

theorem Stored.step {done : List (Key × KeyReplication)} (hacc : Stored s out done acc)
    (hnew : ∀ request' ∈ done, request'.1 ≠ request.1) (h : prepareKey out acc request = .ok acc') :
    Stored s out (done ++ [request]) acc' := by
  obtain ⟨⟨rid, hstate⟩, horig, haddresses, hkeys⟩ := prepareKey_eq_ok h
  have hfactors : acc.state.factors request.1 = s.factors request.1 := by
    rw [factors_eq_getD, (hacc.others request.1 hnew).2, factors_eq_getD]
  have hasked : ∀ a, acc.state.Asked out a request ↔ s.Asked out a request := by
    intro a
    obtain ⟨m, rid', hframe⟩ := hacc.frame
    unfold Asked
    rw [hfactors, hframe]
    exact Iff.rfl
  have hget : ∀ k, acc'.state.keyReplicationMap[k]? = if request.1 = k then
      some (chosen request.2 (s.factors request.1)) else acc.state.keyReplicationMap[k]? := by
    intro k
    rw [hstate, ← hfactors]
    exact getElem?_setFactors acc.state request.1 _ k
  have hgetOrig : ∀ k : Key, acc'.orig[k]? =
      if request.1 = k then some (s.factors request.1) else acc.orig[k]? := by
    intro k
    rw [horig, ExtTreeMap.getElem?_insert, hfactors]
    simp
  refine ⟨?_, fun request' hmem => ?_, fun k hk => ?_, fun a => ?_, fun a k => ?_⟩
  · obtain ⟨m, _, hframe⟩ := hacc.frame
    rw [hstate, hframe]
    exact ⟨_, rid, rfl⟩
  · rw [hget, hgetOrig]
    rcases mem_append.mp hmem with hold | hlast
    · rw [if_neg (hnew request' hold).symm, if_neg (hnew request' hold).symm]
      exact hacc.requested request' hold
    · rw [mem_singleton.mp hlast, if_pos rfl, if_pos rfl]
      exact ⟨rfl, rfl⟩
  · have hne := hk request (by simp)
    rw [hget, hgetOrig, if_neg hne, if_neg hne]
    exact hacc.others k fun request' hmem => hk request' (mem_append_left _ hmem)
  · rw [haddresses, hasked, hacc.addresses]
    simp [or_and_right, exists_or]
  · rw [hkeys, hasked, hacc.keys]
    simp [or_and_right, exists_or]

theorem fst_ne_of_split {pre post : List (Key × KeyReplication)}
    (h : requests.toList = pre ++ request :: post) : ∀ request' ∈ pre, request'.1 ≠ request.1 := by
  have hdistinct := pairwise_toList requests
  rw [h] at hdistinct
  exact fun request' hmem =>
    (pairwise_append.mp hdistinct).2.2 request' hmem request mem_cons_self

theorem prepareKeys_stored (h : s.prepareKeys out requests = .ok prepared) :
    Stored s out requests.toList prepared :=
  foldlM_done (Stored s out)
    (fun _ _ _ _ _ hsplit hacc h => hacc.step (fst_ne_of_split hsplit) h) (.initial s out) h

theorem prepareMetadataPutRequest_returns_iff {value : String} {addrRequestMap : AddrRequestMap} :
    (∃ r, s.prepareMetadataPutRequest out key value addrRequestMap = .ok r) ↔
      s.toRingMaps.MetadataEnds := by
  constructor
  · rintro ⟨r, h⟩
    by_contra hends
    obtain ⟨_, hprepare, _⟩ := bind_eq_ok.mp h
    obtain ⟨threads, hthreads, _⟩ := bind_eq_ok.mp hprepare
    rw [metadataThreads_of_not_ends hends] at hthreads
    cases hthreads
  · intro hends
    obtain ⟨threads, hthreads⟩ := hends.returns key
    have hprepare : ∃ r, s.prepareMetadataRequest out key addrRequestMap .put = .ok r := by
      refine bind_returns_iff.mpr ⟨threads, hthreads, ?_⟩
      dsimp only
      split
      · exact ⟨_, rfl⟩
      · split
        · exact ⟨_, rfl⟩
        · exact ⟨_, rfl⟩
    obtain ⟨⟨target, m, t⟩, hprepare⟩ := hprepare
    refine bind_returns_iff.mpr ⟨_, hprepare, ?_⟩
    cases target with
    | none => exact ⟨_, rfl⟩
    | some => exact ⟨_, rfl⟩

theorem prepareKey_returns_iff : (∃ acc', prepareKey out acc request = .ok acc') ↔
      request.2.equals (acc.state.factors request.1) = true ∨
        acc.state.toRingMaps.MetadataEnds := by
  unfold prepareKey
  by_cases hequals : request.2.equals (acc.state.factors request.1) = true
  · rw [if_pos hequals]
    exact iff_of_true ⟨_, rfl⟩ (.inl hequals)
  · rw [if_neg hequals, or_iff_right hequals, bind_returns_iff]
    have hput := @prepareMetadataPutRequest_returns_iff monitor
      (acc.state.setFactors request.1 request.2) out (getMetadataKey request.1)
      (monitor.replicationFactor.serializeAsString (request.2.toReplicationFactor request.1))
      acc.addrRequestMap
    refine Iff.trans ⟨?_, ?_⟩ hput
    · rintro ⟨r, hr, _⟩
      exact ⟨r, hr⟩
    · rintro ⟨r, hr⟩
      exact ⟨r, hr, _, rfl⟩

theorem prepareKeys_returns_iff : (∃ prepared, s.prepareKeys out requests = .ok prepared) ↔
      ∀ (key : Key) (new : KeyReplication), requests[key]? = some new →
        new.equals (s.factors key) = true ∨ s.toRingMaps.MetadataEnds := by
  unfold prepareKeys
  rw [foldlM_returns_iff
    (fun _ request => request.2.equals (s.factors request.1) = true ∨ s.toRingMaps.MetadataEnds)]
  · rw [forall_split_iff]
    constructor
    · intro h key new hrequest
      exact h (key, new) (mem_toList_iff_getElem?_eq_some.mpr hrequest)
    · intro h request hmem
      exact h request.1 request.2 (mem_toList_iff_getElem?_eq_some.mp hmem)
  · intro pre request _ acc hsplit hacc
    -- the factors of the key are those from before the call when its turn comes
    have hstored : Stored s out pre acc := by
      refine foldlM_done (Stored s out) ?_ (.initial s out) hacc
      rintro _ _ _ t _ rfl ht h
      rw [append_assoc] at hsplit
      exact ht.step (fst_ne_of_split hsplit) h
    obtain ⟨m, _, hframe⟩ := hstored.frame
    rw [prepareKey_returns_iff, factors_eq_getD,
      (hstored.others request.1 (fst_ne_of_split hsplit)).2, ← factors_eq_getD, hframe]

/-! ## The keys that failed -/

theorem mem_failedKeys {addrRequestMap : AddrRequestMap} : key ∈ failedKeys out addrRequestMap ↔
      ∃ request ∈ addrRequestMap.toList, key ∈ failedBy out request := by
  refine (foldl_adds_iff (P := fun failed => key ∈ failed) fun _ _ => ?_).trans
    (or_iff_left ExtTreeSet.not_mem_empty)
  exact mem_insertAll.trans or_comm

/-- The answers make the change of the key fail: the server that was asked for it did not
answer, or one that was asked for some key refuses this one. -/
def Fails (s : MonitorState monitor) (out : Surroundings)
    (requests : ExtTreeMap Key KeyReplication) (key : Key) : Prop :=
  ∃ k new a, requests[k]? = some new ∧ s.Asked out a (k, new) ∧
    match out.answer a with
    | none => k = key
    | some res => ∃ tuple ∈ res.tuples, tuple.error = .wrongThread ∧
        getKeyFromMetadata tuple.key = key

theorem mem_failedBy {request : Address × KeyRequest} : key ∈ failedBy out request ↔
      match out.answer request.1 with
      | none => ∃ tuple ∈ request.2.tuples, getKeyFromMetadata tuple.key = key
      | some res => ∃ tuple ∈ res.tuples, tuple.error = .wrongThread ∧
          getKeyFromMetadata tuple.key = key := by
  unfold failedBy
  cases out.answer request.1 with
  | none => simp
  | some => simp [and_assoc]

theorem Stored.mem_failedKeys_iff (h : Stored s out requests.toList prepared) :
    key ∈ failedKeys out prepared.addrRequestMap ↔ s.Fails out requests key := by
  have hrequest : ∀ a request, (a, request) ∈ prepared.addrRequestMap.toList →
      keysAt prepared.addrRequestMap a = request.tuples.map KeyTuple.key := by
    intro a request hmem
    rw [keysAt, getD_eq_getD_getElem?, mem_toList_iff_getElem?_eq_some.mp hmem, Option.getD_some]
  rw [mem_failedKeys]
  constructor
  · rintro ⟨⟨a, request⟩, hmem, hfailed⟩
    rw [mem_failedBy] at hfailed
    cases hanswer : out.answer a with
    | none =>
      rw [hanswer] at hfailed
      obtain ⟨tuple, htuple, hkey⟩ := hfailed
      have hat : tuple.key ∈ keysAt prepared.addrRequestMap a := by
        rw [hrequest a request hmem]
        exact mem_map_of_mem htuple
      obtain ⟨⟨k, new⟩, hk, hasked, htupleKey⟩ := (h.keys a _).mp hat
      refine ⟨k, new, a, mem_toList_iff_getElem?_eq_some.mp hk, hasked, ?_⟩
      rw [hanswer, ← hkey, htupleKey]
      exact (getKeyFromMetadata_getMetadataKey k).symm
    | some =>
      have hin : a ∈ prepared.addrRequestMap := by
        rw [mem_iff_isSome_getElem?, mem_toList_iff_getElem?_eq_some.mp hmem]
        rfl
      obtain ⟨⟨k, new⟩, hk, hasked⟩ := (h.addresses a).mp hin
      refine ⟨k, new, a, mem_toList_iff_getElem?_eq_some.mp hk, hasked, ?_⟩
      rwa [hanswer] at hfailed ⊢
  · rintro ⟨k, _, a, hk, hasked, hfailed⟩
    have hk' := mem_toList_iff_getElem?_eq_some.mpr hk
    have hin := (h.addresses a).mpr ⟨_, hk', hasked⟩
    obtain ⟨request, hget⟩ := Option.isSome_iff_exists.mp (mem_iff_isSome_getElem?.mp hin)
    have hmem := mem_toList_iff_getElem?_eq_some.mpr hget
    refine ⟨(a, request), hmem, ?_⟩
    rw [mem_failedBy]
    cases hanswer : out.answer a with
    | none =>
      rw [hanswer] at hfailed
      subst hfailed
      have hat := (h.keys a (getMetadataKey k)).mpr ⟨_, hk', hasked, rfl⟩
      rw [hrequest a request hmem] at hat
      obtain ⟨tuple, htuple, hkey⟩ := mem_map.mp hat
      refine ⟨tuple, htuple, ?_⟩
      rw [hkey, getKeyFromMetadata_getMetadataKey]
    | some =>
      rwa [hanswer] at hfailed

end MonitorState

end Testbed.Anna
