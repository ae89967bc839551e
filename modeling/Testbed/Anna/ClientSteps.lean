import Testbed.Anna.KvsClient
import Testbed.Lib.MapSweeps

/-! # What the client does with a PUT

A PUT that has not been answered is in the queue of its key, or it has an entry among the
PUTs that wait for a worker, or both.  This module says what each part of the client does
to these copies: a request that is issued joins the queue or gets an entry (`Tried`),
and each part of `receive_async` either leaves the copies alone or says what comes back
for them.
-/
namespace Testbed.Anna

open Std Lib Std.ExtTreeMap Std.ExtTreeSet

namespace KvsClient
variable {cfg : ClientConfig} {s s' : KvsClient cfg} {key k : Key} {id : String} {now : Int}

/-- The entry of a PUT. -/
def entry (s : KvsClient cfg) (key : Key) (id : String) : Option PendingRequest :=
  (s.pendingPutResponseMap.getD key ∅)[id]?

/-- The requests in the queue of a key. -/
def queued (s : KvsClient cfg) (key : Key) : List KeyRequest :=
  (s.pendingRequestMap.getD key (0, [])).2

theorem queued_of_some {queue : Int × List KeyRequest}
    (h : s.pendingRequestMap[key]? = some queue) : s.queued key = queue.2 := by
  rw [queued, getD_eq_getD_getElem?, h]
  rfl

theorem queued_of_none (h : s.pendingRequestMap[key]? = none) : s.queued key = [] := by
  rw [queued, getD_eq_getD_getElem?, h]
  rfl

variable {request : KeyRequest}

theorem mem_queued : request ∈ s.queued key ↔
      ∃ queue, s.pendingRequestMap[key]? = some queue ∧ request ∈ queue.2 := by
  cases hqueue : s.pendingRequestMap[key]? with
  | none => simp [queued_of_none hqueue]
  | some => simp [queued_of_some hqueue]

/-- When the queue of a key was started, or its query repeated. -/
def queueTime (s : KvsClient cfg) (key : Key) : Option Int :=
  s.pendingRequestMap[key]?.map Prod.fst

/-- When the entry of a PUT was made, or renewed. -/
def time (s : KvsClient cfg) (key : Key) (id : String) : Option Int :=
  (s.entry key id).map PendingRequest.tp

/-- How often a PUT is in the queue of its key. -/
def copies (s : KvsClient cfg) (key : Key) (id : String) : Nat :=
  (s.queued key).countP fun request => request.type = .put ∧ request.requestId = id

/-- Only the counter, the seed and what was sent change. -/
def Quiet (s s' : KvsClient cfg) : Prop :=
  ∃ rid seed sent, s' = { s with rid, seed, sent }

/-- To ask the routing tier changes nothing that is pending. -/
theorem queryRoutingAsync_quiet (h : s.queryRoutingAsync key = .ok s') : s.Quiet s' := by
  obtain ⟨⟨_, t⟩, hthread, h⟩ := bind_eq_ok.mp h
  unfold getRoutingThread at hthread
  dsimp only at hthread
  split at hthread
  · cases hthread
  · cases hthread
    cases h
    exact ⟨_, _, _, rfl⟩

/-- The worker is one of the cached addresses, if there are any. -/
theorem getWorkerThread_spec {worker : Address} (h : s.getWorkerThread key = .ok (worker, s')) :
    s.Quiet s' ∧ ((s.keyAddressCache.getD key ∅ = ∅ ∧ worker = "") ∨
      worker ∈ s.keyAddressCache.getD key ∅) := by
  obtain ⟨⟨localCache, t⟩, hall, h⟩ := bind_eq_ok.mp h
  unfold getAllWorkerThreads at hall
  dsimp only at hall
  split at hall
  · rename_i hempty
    have hcache := ExtTreeSet.isEmpty_iff.mp hempty
    have hquiet : s.Quiet t ∧ localCache = ∅ := by
      split at hall
      · cases hall
        exact ⟨⟨_, _, _, rfl⟩, rfl⟩
      · obtain ⟨t', hquery, hall⟩ := bind_eq_ok.mp hall
        cases hall
        exact ⟨queryRoutingAsync_quiet hquery, rfl⟩
    obtain ⟨hquiet, rfl⟩ := hquiet
    cases h
    exact ⟨hquiet, Or.inl ⟨hcache, rfl⟩⟩
  · rename_i hsome
    cases hall
    dsimp only at h
    split at h
    · rename_i hzero
      refine absurd ?_ hsome
      rw [ExtTreeSet.isEmpty_eq_size_beq_zero]
      exact beq_iff_eq.mpr hzero
    · rename_i hsize
      cases h
      refine ⟨⟨_, _, _, rfl⟩, Or.inr ?_⟩
      have hlt : (cfg.randR s.seed).1 % (s.keyAddressCache.getD key ∅).size <
          (s.keyAddressCache.getD key ∅).toList.length := by
        rw [ExtTreeSet.length_toList]
        exact Nat.mod_lt _ (Nat.pos_of_ne_zero hsize)
      rw [List.getD_eq_getElem?_getD, List.getElem?_eq_getElem hlt, Option.getD_some]
      exact mem_toList.mp (List.getElem_mem hlt)

/-! ## Issuing a request -/

/-- The request is for the key. -/
def Names (key : Key) (request : KeyRequest) : Prop :=
  ∃ tuple tuples, request.tuples = tuple :: tuples ∧ tuple.key = key

/-- The request, up to the size of the address cache that it carries. -/
structure SameRequest (request request' : KeyRequest) : Prop where
  type : request'.type = request.type
  requestId : request'.requestId = request.requestId
  names : ∀ key, Names key request → Names key request'

/-- What issuing a request does: it joins the queue of its key, or it is sent and waits for
the worker. -/
inductive Tried (now : Int) (key : Key) (request : KeyRequest) (s s' : KvsClient cfg) : Prop
  | queued (t : KvsClient cfg) (hquiet : s.Quiet t)
      (hcache : s.keyAddressCache.getD key ∅ = ∅ ∨ "" ∈ s.keyAddressCache.getD key ∅)
      (h : s' = t.enqueue now key request)
  | sent (t : KvsClient cfg) (hquiet : s.Quiet t) (worker : Address) (request' : KeyRequest)
      (hsame : SameRequest request request') (h : s' = t.await now key worker request')

/-- **A request is tried**: it is queued, or it is sent and awaited. -/
theorem tryRequest_tried (hnames : Names key request) (h : s.tryRequest now request = .ok s') :
    Tried now key request s s' := by
  obtain ⟨tuple, tuples, htuples, rfl⟩ := hnames
  unfold tryRequest at h
  rw [htuples] at h
  obtain ⟨⟨worker, t⟩, hworker, h⟩ := bind_eq_ok.mp h
  obtain ⟨hquiet, hcached⟩ := getWorkerThread_spec hworker
  dsimp only at h
  split at h
  · rename_i hlength
    cases h
    refine .queued t hquiet (hcached.imp And.left fun hmem => ?_) rfl
    rwa [String.length_eq_zero_iff.mp hlength] at hmem
  · cases h
    obtain ⟨rid, seed, _, rfl⟩ := hquiet
    refine .sent _ ?_ worker _ ?_ rfl
    · exact ⟨rid, seed, _, rfl⟩
    · refine ⟨rfl, rfl, ?_⟩
      rintro _ ⟨_, _, htuples', rfl⟩
      rw [htuples] at htuples'
      cases htuples'
      exact ⟨_, _, rfl, rfl⟩

variable (s) (now)

theorem getElem?_enqueue (key : Key) (request : KeyRequest) (k : Key) :
    (s.enqueue now key request).pendingRequestMap[k]? = if key = k then
      some ((s.pendingRequestMap.getD key (now, [])).1, s.queued key ++ [request])
      else s.pendingRequestMap[k]? := by
  have hqueue : (s.pendingRequestMap.getD key (now, [])).2 = s.queued key := by
    rw [queued, getD_eq_getD_getElem?, getD_eq_getD_getElem?]
    cases s.pendingRequestMap[key]? <;> rfl
  unfold enqueue
  rw [getElem?_insert, hqueue]
  simp

theorem queued_enqueue (key : Key) (request : KeyRequest) (k : Key) :
    (s.enqueue now key request).queued k =
      if key = k then s.queued key ++ [request] else s.queued k := by
  have hget := s.getElem?_enqueue now key request k
  split at hget
  · rename_i hkey
    rw [if_pos hkey, queued_of_some hget]
  · rename_i hkey
    rw [if_neg hkey, queued, queued, getD_eq_getD_getElem?, hget, getD_eq_getD_getElem?]

theorem pendingRequestMap_await (key : Key) (worker : Address) (request : KeyRequest) :
    (s.await now key worker request).pendingRequestMap = s.pendingRequestMap := by
  unfold await
  split <;> rfl

theorem keyAddressCache_await (key : Key) (worker : Address) (request : KeyRequest) :
    (s.await now key worker request).keyAddressCache = s.keyAddressCache := by
  unfold await
  split <;> rfl

theorem getElem?_insert_entry (m : ExtTreeMap Key (ExtTreeMap String PendingRequest))
    (key k : Key) (id id' : String) (e : PendingRequest) :
    ((m.insert key ((m.getD key ∅).insert id e)).getD k ∅)[id']? =
      if key = k ∧ id = id' then some e else (m.getD k ∅)[id']? := by
  rw [ExtTreeMap.getD_insert]
  by_cases hkey : key = k
  · subst hkey
    rw [if_pos Std.compare_self, getElem?_insert]
    simp
  · rw [if_neg fun heq => hkey (Std.compare_eq_iff_eq.mp heq), if_neg fun h => hkey h.1]

theorem entry_await (key : Key) (worker : Address) (request : KeyRequest) (k : Key) (id : String) :
    (s.await now key worker request).entry k id =
      if request.type ≠ .get ∧ key = k ∧ request.requestId = id then
        some { (s.entry k id).getD ⟨now, worker, request⟩ with workerAddr := worker }
      else s.entry k id := by
  unfold await
  by_cases htype : request.type = .get
  · rw [if_pos htype, if_neg fun h => h.1 htype]
    rfl
  · rw [if_neg htype, entry]
    rw [getElem?_insert_entry]
    split
    · rename_i hown
      obtain ⟨rfl, rfl⟩ := hown
      rw [if_pos ⟨htype, rfl, rfl⟩, getD_eq_getD_getElem?]
      rfl
    · rename_i hother
      rw [if_neg fun h => hother h.2]
      rfl

theorem getElem?_pendingGet_await (key : Key) (worker : Address) (request : KeyRequest) (k : Key) :
    (s.await now key worker request).pendingGetResponseMap[k]? =
      if request.type = .get ∧ key = k then
        some { s.pendingGetResponseMap.getD k ⟨now, worker, request⟩ with workerAddr := worker }
      else s.pendingGetResponseMap[k]? := by
  unfold await
  by_cases htype : request.type = .get
  · rw [if_pos htype]
    rw [getElem?_insert]
    by_cases hkey : key = k
    · subst hkey
      rw [if_pos Std.compare_self, if_pos ⟨htype, rfl⟩]
    · rw [if_neg fun heq => hkey (Std.compare_eq_iff_eq.mp heq), if_neg fun h => hkey h.2]
  · rw [if_neg htype, if_neg fun h => htype h.1]

/-- Only the first try of a request sets its time. -/
theorem time_await (key : Key) (worker : Address) (request : KeyRequest) (k : Key) (id : String) :
    (s.await now key worker request).time k id =
      if request.type ≠ .get ∧ key = k ∧ request.requestId = id then
        some ((s.time k id).getD now)
      else s.time k id := by
  unfold time
  rw [entry_await]
  split
  · cases s.entry k id <;> rfl
  · rfl

/-- A queued PUT is there once more. -/
theorem copies_enqueue (key : Key) (request : KeyRequest) (k : Key) (id : String) :
    (s.enqueue now key request).copies k id = s.copies k id +
      if request.type = .put ∧ key = k ∧ request.requestId = id then 1 else 0 := by
  unfold copies
  rw [queued_enqueue]
  by_cases hkey : key = k
  · subst hkey
    rw [if_pos rfl, List.countP_append, List.countP_singleton]
    simp
  · rw [if_neg hkey, if_neg fun h => hkey h.2.1, Nat.add_zero]

theorem copies_await (key : Key) (worker : Address) (request : KeyRequest) (k : Key) (id : String) :
    (s.await now key worker request).copies k id = s.copies k id := by
  unfold copies queued
  rw [pendingRequestMap_await]

variable {now} {s}

namespace Tried
variable {request : KeyRequest}

section
variable (h : Tried now key request s s')
include h

theorem cache : s'.keyAddressCache = s.keyAddressCache := by
  cases h with
  | queued _ hquiet _ h =>
    obtain ⟨_, _, _, rfl⟩ := hquiet
    rw [h]
    rfl
  | sent _ hquiet _ _ _ h =>
    obtain ⟨_, _, _, rfl⟩ := hquiet
    rw [h, keyAddressCache_await]

theorem queues (hkey : key ≠ k) : s'.pendingRequestMap[k]? = s.pendingRequestMap[k]? := by
  cases h with
  | queued _ hquiet _ h =>
    obtain ⟨_, _, _, rfl⟩ := hquiet
    rw [h, getElem?_enqueue, if_neg hkey]
  | sent _ hquiet _ _ _ h =>
    obtain ⟨_, _, _, rfl⟩ := hquiet
    rw [h, pendingRequestMap_await]

/-- Other requests stay as they are. -/
theorem other (k : Key) (id : String)
    (hother : ¬ (request.type ≠ .get ∧ key = k ∧ request.requestId = id)) :
    s'.copies k id = s.copies k id ∧ s'.time k id = s.time k id := by
  cases h with
  | queued _ hquiet _ h =>
    obtain ⟨_, _, _, rfl⟩ := hquiet
    subst h
    refine ⟨?_, rfl⟩
    rw [copies_enqueue, if_neg fun hown => hother ⟨by rw [hown.1]; decide, hown.2⟩]
    rfl
  | sent _ hquiet _ _ hsame h =>
    obtain ⟨_, _, _, rfl⟩ := hquiet
    subst h
    refine ⟨copies_await _ _ _ _ _ _ _, ?_⟩
    rw [time_await, if_neg (by rwa [hsame.type, hsame.requestId])]
    rfl

/-- The request itself is there once more, or it waits. -/
theorem own (htype : request.type = .put) :
    (s'.copies key request.requestId = s.copies key request.requestId + 1 ∧
      s'.time key request.requestId = s.time key request.requestId) ∨
    (s'.copies key request.requestId = s.copies key request.requestId ∧
      s'.time key request.requestId = some ((s.time key request.requestId).getD now)) := by
  cases h with
  | queued _ hquiet _ h =>
    obtain ⟨_, _, _, rfl⟩ := hquiet
    subst h
    refine Or.inl ⟨?_, rfl⟩
    rw [copies_enqueue, if_pos ⟨htype, rfl, rfl⟩]
    rfl
  | sent _ hquiet _ _ hsame h =>
    obtain ⟨_, _, _, rfl⟩ := hquiet
    subst h
    refine Or.inr ⟨copies_await _ _ _ _ _ _ _, ?_⟩
    rw [time_await, if_pos ⟨by rw [hsame.type, htype]; decide, rfl, hsame.requestId⟩]
    rfl

theorem queueTime {tp : Int} (htp : s'.queueTime k = some tp) : tp = (s.queueTime k).getD now := by
  cases h with
  | queued t hquiet _ h =>
    obtain ⟨_, _, _, rfl⟩ := hquiet
    subst h
    unfold KvsClient.queueTime at htp ⊢
    rw [getElem?_enqueue] at htp
    split at htp
    · rename_i hkey
      subst hkey
      cases htp
      rw [getD_eq_getD_getElem?]
      cases s.pendingRequestMap[key]? <;> rfl
    · rw [htp]
      rfl
  | sent _ hquiet _ _ _ h =>
    obtain ⟨_, _, _, rfl⟩ := hquiet
    subst h
    unfold KvsClient.queueTime at htp ⊢
    rw [pendingRequestMap_await] at htp
    rw [htp]
    rfl

end

end Tried

/-! ## Where the recorded requests come from -/

section Issued
variable {puts : List (Key × String)} {gets : List String} {request request' : KeyRequest}

/-- The request is one of the PUTs or GETs that were issued. -/
def Issued (puts : List (Key × String)) (gets : List String) (key : Key) (request : KeyRequest) :
    Prop :=
  Names key request ∧ ((request.type = .put ∧ (key, request.requestId) ∈ puts) ∨
    (request.type = .get ∧ request.requestId ∈ gets))

theorem Issued.same (h : Issued puts gets key request) (hsame : SameRequest request request') :
    Issued puts gets key request' := by
  refine ⟨hsame.names key h.1, ?_⟩
  rw [hsame.type, hsame.requestId]
  exact h.2

variable {puts' : List (Key × String)} {gets' : List String}

theorem Issued.mono (h : Issued puts gets key request) (hputs : puts ⊆ puts')
    (hgets : gets ⊆ gets') : Issued puts' gets' key request :=
  ⟨h.1, h.2.imp (And.imp_right fun hmem => hputs hmem) (And.imp_right fun hmem => hgets hmem)⟩

theorem Issued.put_of_ne_get (h : Issued puts gets key request) (htype : request.type ≠ .get) :
    request.type = .put ∧ (key, request.requestId) ∈ puts :=
  h.2.resolve_right fun hget => htype hget.1

/-- All recorded requests were issued, and are recorded where they belong. -/
structure Recorded (puts : List (Key × String)) (gets : List String) (s : KvsClient cfg) :
    Prop where
  inQueue : ∀ key, ∀ request ∈ s.queued key, Issued puts gets key request
  inGets : ∀ key entry, s.pendingGetResponseMap[key]? = some entry →
    Issued puts gets key entry.request ∧ entry.request.type = .get
  inPuts : ∀ key id entry, s.entry key id = some entry →
    Issued puts gets key entry.request ∧ entry.request.type ≠ .get ∧ entry.request.requestId = id

section
variable (hs : Recorded puts gets s)
include hs

theorem Recorded.mono (hputs : puts ⊆ puts') (hgets : gets ⊆ gets') : Recorded puts' gets' s where
  inQueue key request hmem := (hs.inQueue key request hmem).mono hputs hgets
  inGets key entry h := (hs.inGets key entry h).imp_left fun h => h.mono hputs hgets
  inPuts key id entry h := (hs.inPuts key id entry h).imp_left fun h => h.mono hputs hgets

/-- Fewer records are records of issued requests, too. -/
theorem Recorded.of_le (hqueued : ∀ key, s'.queued key ⊆ s.queued key)
    (hgets : ∀ (key : Key) entry, s'.pendingGetResponseMap[key]? = some entry →
      s.pendingGetResponseMap[key]? = some entry)
    (hputs : ∀ key id entry, s'.entry key id = some entry → s.entry key id = some entry) :
    Recorded puts gets s' where
  inQueue key request hmem := hs.inQueue key request (hqueued key hmem)
  inGets key entry h := hs.inGets key entry (hgets key entry h)
  inPuts key id entry h := hs.inPuts key id entry (hputs key id entry h)

theorem Recorded.quiet (hquiet : s.Quiet s') :
    Recorded puts gets s' := by
  obtain ⟨_, _, _, rfl⟩ := hquiet
  exact ⟨hs.inQueue, hs.inGets, hs.inPuts⟩

/-- To try an issued request records nothing else. -/
theorem Recorded.tried (hissued : Issued puts gets key request)
    (h : Tried now key request s s') : Recorded puts gets s' := by
  cases h with
  | queued t hquiet _ h =>
    subst h
    have ht := hs.quiet hquiet
    refine ⟨fun k request' hmem => ?_, ht.inGets, ht.inPuts⟩
    rw [queued_enqueue] at hmem
    split at hmem
    · rename_i hkey
      subst hkey
      rcases List.mem_append.mp hmem with hold | hnew
      · exact ht.inQueue key request' hold
      · rw [List.mem_singleton.mp hnew]
        exact hissued
    · exact ht.inQueue k request' hmem
  | sent t hquiet worker request' hsame h =>
    subst h
    have ht := hs.quiet hquiet
    have hissued' := hissued.same hsame
    -- an entry that is there keeps its request
    refine ⟨fun k request'' hmem => ?_, fun k e he => ?_, fun k id e he => ?_⟩
    · rw [queued, pendingRequestMap_await] at hmem
      exact ht.inQueue k request'' hmem
    · rw [getElem?_pendingGet_await] at he
      split at he
      · rename_i hnew
        obtain ⟨htype, rfl⟩ := hnew
        rw [getD_eq_getD_getElem?] at he
        cases hold : t.pendingGetResponseMap[key]? with
        | none =>
          rw [hold] at he
          cases he
          exact ⟨hissued', htype⟩
        | some old =>
          rw [hold] at he
          cases he
          exact ht.inGets key old hold
      · exact ht.inGets k e he
    · rw [entry_await] at he
      split at he
      · rename_i hnew
        obtain ⟨htype, rfl, rfl⟩ := hnew
        cases hold : t.entry key request'.requestId with
        | none =>
          rw [hold] at he
          cases he
          exact ⟨hissued', htype, rfl⟩
        | some old =>
          rw [hold] at he
          cases he
          exact ht.inPuts key _ old hold
      · exact ht.inPuts k id e he

end

end Issued

end KvsClient

end Testbed.Anna
