import Testbed.Anna.ClientSteps

/-! # What answers do to a PUT

`receive_async` takes an answer of the routing tier and one of a worker before it sweeps.
For both this module says what they do to the copies of a PUT in the queue of its key and
to its entry (`Rerouted`, `Answered`), and when a PUT stays recorded.
-/
namespace Testbed.Anna

open Std Lib List Std.ExtTreeMap

namespace KvsClient
variable {cfg : ClientConfig} {s s' : KvsClient cfg} {key k : Key} {id : String} {c : Readings}
  {puts : List (Key × String)} {gets : List String}

/-! ## An answer of the routing tier -/

/-- What issuing the requests of a queue does, apart from the queue itself. -/
structure Retried (key : Key) (reqs : List KeyRequest) (s s' : KvsClient cfg) : Prop where
  cache : s'.keyAddressCache = s.keyAddressCache
  queues : ∀ k, key ≠ k → s'.pendingRequestMap[k]? = s.pendingRequestMap[k]?
  kept : ∀ k id tp, s.time k id = some tp → s'.time k id = some tp
  /-- only the PUTs of the queue get entries -/
  fresh : ∀ k id tp, s'.time k id = some tp → s.time k id = some tp ∨
    (k = key ∧ ∃ request ∈ reqs, request.type ≠ .get ∧ request.requestId = id)
  sent : s.keyAddressCache.getD key ∅ ≠ ∅ → "" ∉ s.keyAddressCache.getD key ∅ →
    ∀ request ∈ reqs, request.type = .put → (s'.time key request.requestId).isSome

variable {now : Int} {request : KeyRequest} {reqs : List KeyRequest} {i : Nat}
  {response : KeyAddressResponse} {reply : KeyResponse} {tuple : KeyTuple}
  {results : List KeyResponse}

/-- A request that waits keeps its time. -/
theorem Tried.time_kept (h : Tried now key request s s') {tp : Int} (htp : s.time k id = some tp) :
    s'.time k id = some tp := by
  cases h with
  | queued _ hquiet _ h =>
    obtain ⟨_, _, _, rfl⟩ := hquiet
    subst h
    exact htp
  | sent _ hquiet _ _ _ h =>
    obtain ⟨_, _, _, rfl⟩ := hquiet
    subst h
    rw [time_await]
    split
    · exact congrArg (fun time => some (time.getD now)) htp
    · exact htp

theorem Retried.nil (s : KvsClient cfg) : Retried key [] s s where
  cache := rfl
  queues _ _ := rfl
  kept _ _ _ h := h
  fresh _ _ _ h := .inl h
  sent _ _ := by simp

variable {t : KvsClient cfg}

theorem Retried.cons (hfirst : Tried now key request s t) (hrest : Retried key reqs t s') :
    Retried key (request :: reqs) s s' where
  cache := hrest.cache.trans hfirst.cache
  queues k hk := (hrest.queues k hk).trans (hfirst.queues hk)
  kept k id tp h := hrest.kept k id tp (hfirst.time_kept h)
  fresh k id tp h := by
    rcases hrest.fresh k id tp h with htime | ⟨rfl, request', hmem, hown⟩
    · by_cases hown : request.type ≠ .get ∧ key = k ∧ request.requestId = id
      · obtain ⟨htype, rfl, rfl⟩ := hown
        exact .inr ⟨rfl, request, mem_cons_self, htype, rfl⟩
      · exact .inl ((hfirst.other k id hown).2 ▸ htime)
    · exact .inr ⟨rfl, request', mem_cons_of_mem _ hmem, hown⟩
  sent hsome hempty := by
    refine forall_mem_cons.mpr ⟨fun htype => ?_, ?_⟩
    · cases hfirst with
      | queued _ _ hcache => exact (hcache.elim hsome hempty).elim
      | sent t _ worker request' hsame h =>
        subst h
        have htime := time_await t now key worker request' key request.requestId
        rw [if_pos ⟨by rw [hsame.type, htype]; decide, rfl, hsame.requestId⟩] at htime
        rw [hrest.kept key _ _ htime]
        rfl
    · rw [← hfirst.cache] at hsome hempty
      exact hrest.sent hsome hempty

theorem retryQueue_cons_eq_ok {req : KeyRequest} (h : s.retryQueue c key i (req :: reqs) = .ok s') :
    ∃ t, s.tryRequest (c.retry i) req = .ok t ∧ t.retryQueue c key (i + 1) reqs = .ok s' := by
  obtain ⟨t, htry, h⟩ := bind_eq_ok.mp h
  split at h
  · cases h
  · exact ⟨t, htry, h⟩

/-- All requests of the queue are tried again, one after another. -/
theorem retryQueue_retried (hnames : ∀ request ∈ reqs, Names key request)
    (h : s.retryQueue c key i reqs = .ok s') : Retried key reqs s s' := by
  induction reqs generalizing s i with
  | nil =>
    cases h
    exact .nil _
  | cons _ _ ih =>
    obtain ⟨hfirst, hrest⟩ := forall_mem_cons.mp hnames
    obtain ⟨t, htry, h⟩ := retryQueue_cons_eq_ok h
    exact .cons (tryRequest_tried hfirst htry) (ih hrest h)

/-- What is tried again was issued. -/
theorem Recorded.retryQueue (hs : Recorded puts gets s)
    (hissued : ∀ request ∈ reqs, Issued puts gets key request)
    (h : s.retryQueue c key i reqs = .ok s') : Recorded puts gets s' := by
  induction reqs generalizing s i with
  | nil =>
    cases h
    exact hs
  | cons _ _ ih =>
    obtain ⟨hfirst, hrest⟩ := forall_mem_cons.mp hissued
    obtain ⟨t, htry, h⟩ := retryQueue_cons_eq_ok h
    exact ih (hs.tried hfirst (tryRequest_tried hfirst.1 htry)) hrest h

/-- The ways an answer of the routing tier is taken. -/
inductive Addressed (c : Readings) (response : KeyAddressResponse) (s s' : KvsClient cfg) : Prop
  | ignored (address : KeyAddress) (hhead : response.addresses.head? = some address)
      (hqueue : s.pendingRequestMap[address.key]? = none) (h : s' = s)
  | renewed (address : KeyAddress) (hhead : response.addresses.head? = some address)
      (herror : response.error = .noServers) (queue : Int × List KeyRequest)
      (hqueue : s.pendingRequestMap[address.key]? = some queue)
      (h : Quiet { s with pendingRequestMap :=
                            s.pendingRequestMap.insert address.key (c.address, queue.2) } s')
  | cleared (address : KeyAddress) (hhead : response.addresses.head? = some address)
      (herror : response.error ≠ .noServers) (queue : Int × List KeyRequest)
      (hqueue : s.pendingRequestMap[address.key]? = some queue) (t : KvsClient cfg)
      (hretry : (s.populateCache address.key address.ips).retryQueue c address.key 0 queue.2 =
        .ok t)
      (h : s' = { t with pendingRequestMap := t.pendingRequestMap.erase address.key })

/-- **What `receive_async` does with addresses.** -/
theorem receiveAddresses_addressed
    (h : s.receiveAddresses c response = .ok s') : Addressed c response s s' := by
  unfold receiveAddresses at h
  cases haddresses : response.addresses with
  | nil =>
    rw [haddresses] at h
    cases h
  | cons address rest =>
    have hhead : response.addresses.head? = some address := by
      rw [haddresses]
      rfl
    rw [haddresses] at h
    dsimp only at h
    cases hqueue : s.pendingRequestMap[address.key]? with
    | none =>
      rw [hqueue] at h
      cases h
      exact .ignored address hhead hqueue rfl
    | some queue =>
      rw [hqueue] at h
      dsimp only at h
      split at h
      · rename_i herror
        exact .renewed address hhead herror queue hqueue (queryRoutingAsync_quiet h)
      · rename_i herror
        obtain ⟨t, hretry, h⟩ := bind_eq_ok.mp h
        cases h
        exact .cleared address hhead herror queue hqueue t hretry rfl

variable (addresses : Option KeyAddressResponse)

/-- The requests of the queue are issued, whatever the answer says. -/
def Clears (key : Key) : Prop :=
  ∃ response ∈ addresses, response.addresses.head?.map KeyAddress.key = some key ∧
    response.error ≠ .noServers

/-- The query for the addresses of the key is repeated. -/
def Renews (key : Key) : Prop :=
  ∃ response ∈ addresses, response.addresses.head?.map KeyAddress.key = some key ∧
    response.error = .noServers

instance decidableClears (key : Key) : Decidable (Clears addresses key) :=
  inferInstanceAs (Decidable (∃ response ∈ addresses, _ ∧ _))

instance decidableRenews (key : Key) : Decidable (Renews addresses key) :=
  inferInstanceAs (Decidable (∃ response ∈ addresses, _ ∧ _))

/-- The time point of the queue of a key after an answer of the routing tier. -/
def queueStart (s : KvsClient cfg) (c : Readings) (addresses : Option KeyAddressResponse)
    (key : Key) : Option Int :=
  if Clears addresses key then none
  else if Renews addresses key then (s.queueTime key).map fun _ => c.address
  else s.queueTime key

/-- What an answer of the routing tier, if there is one, does to a PUT. -/
structure Rerouted (c : Readings) (addresses : Option KeyAddressResponse) (key : Key)
    (id : String) (s s' : KvsClient cfg) : Prop where
  queueTime : s'.queueTime key = s.queueStart c addresses key
  copies : s'.copies key id = if Clears addresses key then 0 else s.copies key id
  kept : ∀ tp, s.time key id = some tp → s'.time key id = some tp
  fresh : ∀ tp, s'.time key id = some tp → s.time key id = some tp ∨
    (Clears addresses key ∧ 0 < s.copies key id)

theorem queued_eq_of_getElem? (h : s'.pendingRequestMap[k]? = s.pendingRequestMap[k]?) :
    s'.queued k = s.queued k := by
  rw [queued, queued, getD_eq_getD_getElem?, h, getD_eq_getD_getElem?]

theorem copies_of_none (h : s.pendingRequestMap[key]? = none) : s.copies key id = 0 := by
  rw [copies, queued_of_none h]
  rfl

variable {address : KeyAddress}

theorem clears_some (hhead : response.addresses.head? = some address) :
    Clears (some response) key ↔ address.key = key ∧ response.error ≠ .noServers := by
  simp [Clears, hhead]

theorem renews_some (hhead : response.addresses.head? = some address) :
    Renews (some response) key ↔ address.key = key ∧ response.error = .noServers := by
  simp [Renews, hhead]

theorem Rerouted.of_other {addresses : Option KeyAddressResponse} (hclears : ¬ Clears addresses key)
    (hrenews : ¬ Renews addresses key)
    (hqueue : s'.pendingRequestMap[key]? = s.pendingRequestMap[key]?)
    (htime : s'.time key id = s.time key id) : Rerouted c addresses key id s s' where
  queueTime := by
    rw [queueStart, if_neg hclears, if_neg hrenews, KvsClient.queueTime, hqueue,
      KvsClient.queueTime]
  copies := by rw [if_neg hclears, KvsClient.copies, queued_eq_of_getElem? hqueue, KvsClient.copies]
  kept tp h := htime.trans h
  fresh tp h := .inl (htime ▸ h)

theorem Recorded.issued {queue : Int × List KeyRequest} (hs : Recorded puts gets s)
    (hqueue : s.pendingRequestMap[key]? = some queue) :
    ∀ request ∈ queue.2, Issued puts gets key request := by
  rw [← queued_of_some hqueue]
  exact hs.inQueue key

theorem Recorded.retried {queue : Int × List KeyRequest} {ips : List Address}
    (hs : Recorded puts gets s) (hqueue : s.pendingRequestMap[key]? = some queue)
    (hretry : (s.populateCache key ips).retryQueue c key 0 queue.2 = .ok t) :
    Retried key queue.2 (s.populateCache key ips) t :=
  retryQueue_retried (fun request hmem => (hs.issued hqueue request hmem).1) hretry

/-- For one request the addresses clear its queue, renew its time, or do nothing. -/
theorem Rerouted.of_addressed (hs : Recorded puts gets s)
    (h : Addressed c response s s') (key : Key) (id : String) :
    Rerouted c (some response) key id s s' := by
  cases h with
  | ignored address hhead hqueue h =>
    subst h
    by_cases hkey : address.key = key
    · subst hkey
      have hnone : s'.queueTime address.key = none := by
        rw [KvsClient.queueTime, hqueue]
        rfl
      refine ⟨?_, ?_, fun tp h => h, fun tp h => .inl h⟩
      · rw [queueStart, hnone]
        split
        · rfl
        · split <;> rfl
      · rw [copies_of_none hqueue]
        split <;> rfl
    · exact .of_other (fun h => hkey ((clears_some hhead).mp h).1)
        (fun h => hkey ((renews_some hhead).mp h).1) rfl rfl
  | renewed address hhead herror queue hqueue h =>
    obtain ⟨_, _, _, rfl⟩ := h
    have hclears : ¬ Clears (some response) key := fun h =>
      ((clears_some hhead).mp h).2 herror
    by_cases hkey : address.key = key
    · subst hkey
      have hget := getElem?_insert_self (t := s.pendingRequestMap)
        (k := address.key) (v := (c.address, queue.2))
      refine ⟨?_, ?_, fun tp h => h, fun tp h => .inl h⟩
      · rw [queueStart, if_neg hclears, if_pos ((renews_some hhead).mpr ⟨rfl, herror⟩),
          KvsClient.queueTime, KvsClient.queueTime, hqueue]
        rw [hget]
        rfl
      · rw [if_neg hclears, KvsClient.copies, KvsClient.copies, queued_of_some hget,
          queued_of_some hqueue]
    · refine .of_other hclears (fun h => hkey ((renews_some hhead).mp h).1) ?_ rfl
      rw [ExtTreeMap.getElem?_insert, if_neg fun heq => hkey (Std.compare_eq_iff_eq.mp heq)]
  | cleared address hhead herror queue hqueue t hretry h =>
    subst h
    have hretried := hs.retried hqueue hretry
    by_cases hkey : address.key = key
    · subst hkey
      have hclears := (clears_some hhead).mpr ⟨rfl, herror⟩
      have hnone := getElem?_erase_self (t := t.pendingRequestMap) (k := address.key)
      refine ⟨?_, ?_, hretried.kept address.key id, fun tp h => ?_⟩
      · rw [queueStart, if_pos hclears, KvsClient.queueTime]
        rw [hnone]
        rfl
      · rw [if_pos hclears]
        exact copies_of_none hnone
      · refine (hretried.fresh address.key id tp h).imp_right ?_
        rintro ⟨_, request, hmem, htype, hid⟩
        -- a request of the queue that is not a GET is a PUT
        refine ⟨hclears, countP_pos_iff.mpr ⟨request, ?_, ?_⟩⟩
        · rwa [queued_of_some hqueue]
        · exact decide_eq_true ⟨((hs.issued hqueue request hmem).put_of_ne_get htype).1, hid⟩
    · have htime : ∀ id, t.time key id = s.time key id := by
        intro id
        refine Option.ext fun tp => ⟨fun h => ?_, hretried.kept key id tp⟩
        exact (hretried.fresh key id tp h).resolve_right fun h => hkey h.1.symm
      refine .of_other (fun h => hkey ((clears_some hhead).mp h).1)
        (fun h => hkey ((renews_some hhead).mp h).1) ?_ (htime id)
      rw [getElem?_erase, if_neg fun heq => hkey (Std.compare_eq_iff_eq.mp heq),
        hretried.queues key hkey]
      rfl

/-- After addresses the records are still of issued requests. -/
theorem Recorded.addressed (hs : Recorded puts gets s)
    (h : Addressed c response s s') : Recorded puts gets s' := by
  cases h with
  | ignored _ _ _ h => exact h ▸ hs
  | renewed address hhead herror queue hqueue h =>
    obtain ⟨_, _, _, rfl⟩ := h
    refine ⟨fun k request hmem => hs.inQueue k request ?_, hs.inGets, hs.inPuts⟩
    rw [queued] at hmem
    rw [getD_insert] at hmem
    split at hmem
    · rename_i hkey
      obtain rfl := Std.compare_eq_iff_eq.mp hkey
      rwa [queued_of_some hqueue]
    · exact hmem
  | cleared address _ _ _ hqueue _ hretry h =>
    subst h
    have hpopulated : Recorded puts gets (s.populateCache address.key address.ips) :=
      ⟨hs.inQueue, hs.inGets, hs.inPuts⟩
    have ht := hpopulated.retryQueue (hs.issued hqueue) hretry
    refine ht.of_le (fun k request hmem => ?_) (fun _ _ h => h) fun _ _ _ h => h
    rw [queued] at hmem
    rw [getD_erase] at hmem
    split at hmem
    · cases hmem
    · exact hmem

/-! ### PUTs that are not lost -/

variable (s)

/-- No address in the cache is empty. -/
def NoEmptyAddress : Prop := ∀ key, "" ∉ s.keyAddressCache.getD key ∅

/-- An answer for a key with a queue has no empty address, and if it has none at all, the
PUTs of the queue wait for a worker too. -/
def Lists (addresses : Option KeyAddressResponse) : Prop :=
  ∀ response ∈ addresses, ∀ address ∈ response.addresses.head?,
    response.error ≠ .noServers → address.key ∈ s.pendingRequestMap →
    "" ∉ address.ips ∧ (address.ips = [] → ∀ request ∈ s.queued address.key,
      request.type = .put → (s.entry address.key request.requestId).isSome)

instance decidableLists (addresses : Option KeyAddressResponse) : Decidable (Lists s addresses) :=
  inferInstanceAs (Decidable (∀ response ∈ addresses, ∀ address ∈ response.addresses.head?, _ → _))

/-- The cache has the addresses that it had, and the new ones of the key. -/
theorem mem_populateCache (key : Key) (ips : List Address) (k : Key) (ip : Address) :
    ip ∈ (s.populateCache key ips).keyAddressCache.getD k ∅ ↔
      ip ∈ s.keyAddressCache.getD k ∅ ∨ (key = k ∧ ip ∈ ips) :=
  (links_foldl_link_values ips).trans or_comm

variable {s}

/-- No empty address is taken into the cache. -/
theorem NoEmptyAddress.addressed (hs : Recorded puts gets s)
    (hcache : NoEmptyAddress s) (hlists : Lists s (some response))
    (h : Addressed c response s s') : NoEmptyAddress s' := by
  cases h with
  | ignored _ _ _ h => exact h ▸ hcache
  | renewed _ _ _ _ _ h =>
    obtain ⟨_, _, _, rfl⟩ := h
    exact hcache
  | cleared address hhead herror _ hqueue _ hretry h =>
    subst h
    have hmem := (ExtTreeMap.getElem?_eq_some_iff.mp hqueue).1
    have hretried := hs.retried hqueue hretry
    intro k hempty
    rw [hretried.cache, mem_populateCache] at hempty
    rcases hempty with hold | ⟨_, hnew⟩
    · exact hcache k hold
    · exact (hlists response rfl address hhead herror hmem).1 hnew

/-- Addresses leave no request without a record. -/
theorem Addressed.pending (hs : Recorded puts gets s)
    (hcache : NoEmptyAddress s) (hlists : Lists s (some response))
    (h : Addressed c response s s') (hpending : 0 < s.copies key id ∨ (s.time key id).isSome) :
    0 < s'.copies key id ∨ (s'.time key id).isSome := by
  have hrerouted := Rerouted.of_addressed hs h key id
  have hkept : (s.time key id).isSome → (s'.time key id).isSome := by
    intro htime
    obtain ⟨tp, htp⟩ := Option.isSome_iff_exists.mp htime
    rw [hrerouted.kept tp htp]
    rfl
  rcases hpending with hcopies | htime
  swap
  · exact .inr (hkept htime)
  by_cases hclears : Clears (some response) key
  swap
  · rw [hrerouted.copies, if_neg hclears]
    exact .inl hcopies
  obtain ⟨request, hrequest, hput⟩ := countP_pos_iff.mp hcopies
  obtain ⟨htype, rfl⟩ := of_decide_eq_true hput
  -- the queue is gone: each of its PUTs was sent, or waits already
  right
  cases h with
  | ignored _ hhead hqueue =>
    obtain ⟨rfl, _⟩ := (clears_some hhead).mp hclears
    rw [queued_of_none hqueue] at hrequest
    cases hrequest
  | renewed _ hhead herror =>
    exact absurd herror ((clears_some hhead).mp hclears).2
  | cleared address hhead herror _ hqueue _ hretry h =>
    subst h
    obtain ⟨rfl, _⟩ := (clears_some hhead).mp hclears
    have hmem := (ExtTreeMap.getElem?_eq_some_iff.mp hqueue).1
    obtain ⟨hempty, hnone⟩ := hlists response rfl address hhead herror hmem
    cases hips : address.ips with
    | nil =>
      refine hkept ?_
      rw [time, Option.isSome_map]
      exact hnone hips request hrequest htype
    | cons ip =>
      have hretried := hs.retried hqueue hretry
      refine hretried.sent (fun hcached => ?_) (fun hcached => ?_) request ?_ htype
      · have hip := (s.mem_populateCache address.key address.ips address.key ip).mpr
          (.inr ⟨rfl, by rw [hips]; exact mem_cons_self⟩)
        rw [hcached] at hip
        exact ExtTreeSet.not_mem_empty hip
      · rw [mem_populateCache] at hcached
        exact hcached.elim (hcache address.key) fun h => hempty h.2
      · rwa [queued_of_some hqueue] at hrequest

/-! ## An answer of a worker -/

/-- Only cached addresses are lost. -/
def Forgets (s s' : KvsClient cfg) : Prop :=
  ∃ cache, s' = { s with keyAddressCache := cache } ∧
    ∀ key, cache.getD key ∅ = s.keyAddressCache.getD key ∅ ∨ cache.getD key ∅ = ∅

theorem Forgets.refl (s : KvsClient cfg) : s.Forgets s := ⟨_, rfl, fun _ => .inl rfl⟩

theorem Forgets.trans (h : s.Forgets t) (h' : t.Forgets s') : s.Forgets s' := by
  obtain ⟨_, rfl, hcache⟩ := h
  obtain ⟨cache', rfl, hcache'⟩ := h'
  refine ⟨cache', rfl, fun key => ?_⟩
  rcases hcache' key with heq | hempty
  · rw [heq]
    exact hcache key
  · exact .inr hempty

theorem Forgets.recorded (h : s.Forgets s') (hs : Recorded puts gets s) :
    Recorded puts gets s' := by
  obtain ⟨_, rfl, _⟩ := h
  exact ⟨hs.inQueue, hs.inGets, hs.inPuts⟩

/-- To forget addresses brings in no empty one. -/
theorem Forgets.noEmptyAddress (h : s.Forgets s') (hcache : NoEmptyAddress s) :
    NoEmptyAddress s' := by
  obtain ⟨_, rfl, hforgets⟩ := h
  intro key hmem
  rcases hforgets key with heq | hempty
  · rw [heq] at hmem
    exact hcache key hmem
  · rw [hempty] at hmem
    exact ExtTreeSet.not_mem_empty hmem

theorem invalidateCacheForKey_forgets (s : KvsClient cfg) (key : Key) :
    s.Forgets (s.invalidateCacheForKey key) := by
  refine ⟨_, rfl, fun k => ?_⟩
  rw [getD_erase]
  split
  · exact .inr rfl
  · exact .inl rfl

/-- `check_tuple` forgets addresses, and asks for another try after a wrong thread. -/
theorem checkTuple_forgets (s : KvsClient cfg) (tuple : KeyTuple) :
    s.Forgets (s.checkTuple tuple).2 ∧
      ((s.checkTuple tuple).1 = true ↔ tuple.error = .wrongThread) := by
  unfold checkTuple
  split
  · rename_i herror
    exact ⟨invalidateCacheForKey_forgets s tuple.key, iff_of_true rfl herror⟩
  · rename_i herror
    split
    · exact ⟨invalidateCacheForKey_forgets s tuple.key, iff_of_false Bool.false_ne_true herror⟩
    · exact ⟨.refl s, iff_of_false Bool.false_ne_true herror⟩

variable {response : KeyResponse}

/-- The ways an answer of a worker is taken. -/
inductive Received (c : Readings) (response : KeyResponse) (s : KvsClient cfg) :
    List KeyResponse → KvsClient cfg → Prop
  | ignored (tuple : KeyTuple) (hhead : response.tuples.head? = some tuple)
      (hnone : response.type ≠ .get → s.entry tuple.key response.responseId = none) :
      Received c response s [] s
  | getAgain (tuple : KeyTuple) (entry : PendingRequest) (htype : response.type = .get)
      (hentry : s.pendingGetResponseMap[tuple.key]? = some entry) (t s' : KvsClient cfg)
      (hforgets : s.Forgets t)
      (htry : { t with pendingGetResponseMap := t.pendingGetResponseMap.insert tuple.key
                         { entry with tp := c.response } }.tryRequest c.reissue entry.request =
        .ok s') :
      Received c response s [] s'
  | getDone (tuple : KeyTuple) (htype : response.type = .get) (t : KvsClient cfg)
      (hforgets : s.Forgets t) :
      Received c response s [response]
        { t with pendingGetResponseMap := t.pendingGetResponseMap.erase tuple.key }
  | putAgain (tuple : KeyTuple) (hhead : response.tuples.head? = some tuple)
      (htype : response.type ≠ .get) (herror : tuple.error = .wrongThread)
      (entry : PendingRequest) (hentry : s.entry tuple.key response.responseId = some entry)
      (t s' : KvsClient cfg) (hforgets : s.Forgets t)
      (htry : { t with pendingPutResponseMap := t.pendingPutResponseMap.insert tuple.key
                         ((t.pendingPutResponseMap.getD tuple.key ∅).insert response.responseId
                           { entry with tp := c.response }) }.tryRequest c.reissue entry.request =
        .ok s') :
      Received c response s [] s'
  | putDone (tuple : KeyTuple) (hhead : response.tuples.head? = some tuple)
      (htype : response.type ≠ .get) (herror : tuple.error ≠ .wrongThread)
      (entry : PendingRequest) (hentry : s.entry tuple.key response.responseId = some entry)
      (t : KvsClient cfg) (hforgets : s.Forgets t)
      (m : ExtTreeMap Key (ExtTreeMap String PendingRequest))
      (hm : ∀ k id, (m.getD k ∅)[id]? =
        if tuple.key = k ∧ response.responseId = id then none else s.entry k id) :
      Received c response s [response] { t with pendingPutResponseMap := m }

variable {entry : PendingRequest}

/-- The answer to a GET. -/
theorem receiveGet_received (htype : response.type = .get)
    (hentry : s.pendingGetResponseMap[tuple.key]? = some entry)
    (h : s.receiveGet c response tuple entry = .ok (results, s')) :
    Received c response s results s' := by
  obtain ⟨hforgets, -⟩ := s.checkTuple_forgets tuple
  unfold receiveGet at h
  split at h
  · rename_i t hcheck
    rw [hcheck] at hforgets
    obtain ⟨s'', htry, h⟩ := bind_eq_ok.mp h
    cases h
    exact .getAgain tuple entry htype hentry t s' hforgets htry
  · rename_i t hcheck
    rw [hcheck] at hforgets
    cases h
    exact .getDone tuple htype t hforgets

theorem getElem?_erase_entry (m : ExtTreeMap Key (ExtTreeMap String PendingRequest))
    (key k : Key) (id id' : String) :
    let entries := (m.getD key ∅).erase id
    ((if entries.size = 0 then m.erase key else m.insert key entries).getD k ∅)[id']? =
      if key = k ∧ id = id' then none else (m.getD k ∅)[id']? := by
  dsimp only
  by_cases hkey : key = k
  · subst hkey
    have hget : ((if ((m.getD key ∅).erase id).size = 0 then m.erase key
        else m.insert key ((m.getD key ∅).erase id)).getD key ∅) = (m.getD key ∅).erase id := by
      split
      · rename_i hsize
        rw [getD_erase_self, eq_empty_iff_size_eq_zero.mpr hsize]
      · exact getD_insert_self
    rw [hget, getElem?_erase]
    simp only [Std.compare_eq_iff_eq, true_and]
  · have hother : ¬ (key = k ∧ id = id') := fun h => hkey h.1
    have hne : ¬ compare key k = .eq := fun heq => hkey (Std.compare_eq_iff_eq.mp heq)
    split
    · rw [getD_erase, if_neg hne]
    · rw [getD_insert, if_neg hne]

theorem entry_of_some {entries : ExtTreeMap String PendingRequest}
    (h : s.pendingPutResponseMap[key]? = some entries) (id : String) :
    s.entry key id = entries[id]? := by
  rw [entry, getD_eq_getD_getElem?, h]
  rfl

theorem entry_of_none (h : s.pendingPutResponseMap[key]? = none) : s.entry key id = none := by
  rw [entry, getD_eq_getD_getElem?, h]
  exact getElem?_empty

/-- The answer to a PUT. -/
theorem receivePut_received (hhead : response.tuples.head? = some tuple)
    (htype : response.type ≠ .get) (hentry : s.entry tuple.key response.responseId = some entry)
    (h : s.receivePut c response tuple (s.pendingPutResponseMap.getD tuple.key ∅) entry =
      .ok (results, s')) : Received c response s results s' := by
  obtain ⟨hforgets, hcheck⟩ := s.checkTuple_forgets tuple
  unfold receivePut at h
  split at h
  · rename_i t heq
    rw [heq] at hforgets hcheck
    obtain ⟨s'', htry, h⟩ := bind_eq_ok.mp h
    cases h
    obtain ⟨cache, rfl, hcache⟩ := hforgets
    exact .putAgain tuple hhead htype (hcheck.mp rfl) entry hentry _ s' ⟨cache, rfl, hcache⟩ htry
  · rename_i t heq
    rw [heq] at hforgets hcheck
    cases h
    refine .putDone tuple hhead htype (fun herror => ?_) entry hentry t hforgets _ fun k id => ?_
    · exact Bool.false_ne_true (hcheck.mpr herror)
    · obtain ⟨_, rfl, _⟩ := hforgets
      exact getElem?_erase_entry s.pendingPutResponseMap tuple.key k response.responseId id

/-- **What `receive_async` does with a reply.** -/
theorem receiveResponse_received (h : s.receiveResponse c response = .ok (results, s')) :
    Received c response s results s' := by
  unfold receiveResponse at h
  cases htuples : response.tuples with
  | nil =>
    rw [htuples] at h
    cases h
  | cons tuple tuples =>
    have hhead : response.tuples.head? = some tuple := by
      rw [htuples]
      rfl
    rw [htuples] at h
    dsimp only at h
    split at h
    · rename_i htype
      cases hentry : s.pendingGetResponseMap[tuple.key]? with
      | none =>
        rw [hentry] at h
        cases h
        exact .ignored tuple hhead fun hget => absurd htype hget
      | some =>
        rw [hentry] at h
        exact receiveGet_received htype hentry h
    · rename_i htype
      cases hentries : s.pendingPutResponseMap[tuple.key]? with
      | none =>
        rw [hentries] at h
        cases h
        exact .ignored tuple hhead fun _ => entry_of_none hentries
      | some entries =>
        have hentry := entry_of_some hentries response.responseId
        rw [hentries] at h
        dsimp only at h
        cases hget : entries[response.responseId]? with
        | none =>
          rw [hget] at h
          cases h
          exact .ignored tuple hhead fun _ => hentry.trans hget
        | some =>
          rw [hget] at h
          refine receivePut_received hhead htype (hentry.trans hget) ?_
          rw [getD_eq_getD_getElem?, hentries]
          exact h

/-- The answer is one to the PUT. -/
def Replies (response : Option KeyResponse) (key : Key) (id : String) : Prop :=
  ∃ reply ∈ response, reply.type ≠ .get ∧ reply.responseId = id ∧
    ∃ tuple ∈ reply.tuples.head?, tuple.key = key

/-- The answer says that the PUT went to the wrong thread. -/
def Refuses (response : Option KeyResponse) (key : Key) (id : String) : Prop :=
  ∃ reply ∈ response, reply.type ≠ .get ∧ reply.responseId = id ∧
    ∃ tuple ∈ reply.tuples.head?, tuple.key = key ∧ tuple.error = .wrongThread

instance decidableReplies (response : Option KeyResponse) (key : Key) (id : String) :
    Decidable (Replies response key id) :=
  inferInstanceAs (Decidable (∃ reply ∈ response, _ ∧ _ ∧ ∃ tuple ∈ reply.tuples.head?, _))

instance decidableRefuses (response : Option KeyResponse) (key : Key) (id : String) :
    Decidable (Refuses response key id) :=
  inferInstanceAs (Decidable (∃ reply ∈ response, _ ∧ _ ∧ ∃ tuple ∈ reply.tuples.head?, _ ∧ _))

theorem replies_some (hhead : reply.tuples.head? = some tuple) : Replies (some reply) key id ↔
      reply.type ≠ .get ∧ reply.responseId = id ∧ tuple.key = key := by
  simp [Replies, hhead]

theorem refuses_some (hhead : reply.tuples.head? = some tuple) : Refuses (some reply) key id ↔
      reply.type ≠ .get ∧ reply.responseId = id ∧ tuple.key = key ∧ tuple.error = .wrongThread := by
  simp [Refuses, hhead]

theorem not_replies_of_get (htype : reply.type = .get) : ¬ Replies (some reply) key id := by
  simp [Replies, htype]

/-- What an answer of a worker, if there is one, does to a PUT. -/
inductive Answered (c : Readings) (response : Option KeyResponse) (key : Key) (id : String)
    (s : KvsClient cfg) (results : List KeyResponse) (s' : KvsClient cfg) : Prop
  | same (hreply : Replies response key id → s.time key id = none)
      (hcopies : s'.copies key id = s.copies key id) (htime : s'.time key id = s.time key id)
  | again (hrefuses : Refuses response key id) (hwaits : (s.time key id).isSome)
      (hresults : results = []) (hcopies : s.copies key id ≤ s'.copies key id)
      (htime : s'.time key id = some c.response)
  | done (hreply : Replies response key id) (hrefuses : ¬ Refuses response key id)
      (hwaits : (s.time key id).isSome)
      (hresults : ∃ reply, response = some reply ∧ results = [reply])
      (hcopies : s'.copies key id = s.copies key id) (htime : s'.time key id = none)

/-- For one request the reply answers it, tries it again, or does nothing. -/
theorem Answered.of_received (hs : Recorded puts gets s) (h : Received c response s results s')
    (key : Key) (id : String) : Answered c (some response) key id s results s' := by
  cases h with
  | ignored _ hhead hnone =>
    refine .same (fun hreply => ?_) rfl rfl
    obtain ⟨htype, rfl, rfl⟩ := (replies_some hhead).mp hreply
    rw [time, hnone htype]
    rfl
  | getAgain tuple entry htype hentry _ _ hforgets htry =>
    obtain ⟨hissued, hget⟩ := hs.inGets tuple.key entry hentry
    obtain ⟨cache, rfl, _⟩ := hforgets
    obtain ⟨hcopies, htime⟩ := (tryRequest_tried hissued.1 htry).other key id fun h => h.1 hget
    exact .same (fun hreply => absurd hreply (not_replies_of_get htype)) hcopies htime
  | getDone _ htype _ hforgets =>
    obtain ⟨cache, rfl, _⟩ := hforgets
    exact .same (fun hreply => absurd hreply (not_replies_of_get htype)) rfl rfl
  | putAgain tuple hhead htype herror entry hentry _ _ hforgets htry =>
    obtain ⟨hissued, hput, hid⟩ := hs.inPuts tuple.key response.responseId entry hentry
    have htried := tryRequest_tried hissued.1 htry
    obtain ⟨cache, rfl, _⟩ := hforgets
    by_cases hown : tuple.key = key ∧ response.responseId = id
    · obtain ⟨rfl, rfl⟩ := hown
      refine .again ((refuses_some hhead).mpr ⟨htype, rfl, rfl, herror⟩) ?_ rfl ?_ ?_
      · rw [time, hentry]
        rfl
      · rw [← hid]
        rcases htried.own (hissued.put_of_ne_get hput).1 with ⟨hcopies, _⟩ | ⟨hcopies, _⟩
        · exact Nat.le_of_lt (Nat.lt_of_lt_of_eq (Nat.lt_succ_self _) hcopies.symm)
        · exact Nat.le_of_eq hcopies.symm
      · refine htried.time_kept ?_
        rw [time, KvsClient.entry]
        rw [getElem?_insert_entry, if_pos ⟨rfl, rfl⟩]
        rfl
    · obtain ⟨hcopies, htime⟩ := htried.other key id fun h =>
        hown ⟨h.2.1, hid.symm.trans h.2.2⟩
      refine .same (fun hreply => ?_) hcopies (htime.trans ?_)
      · obtain ⟨_, hid, hkey⟩ := (replies_some hhead).mp hreply
        exact absurd ⟨hkey, hid⟩ hown
      · rw [time, KvsClient.entry]
        rw [getElem?_insert_entry, if_neg hown]
        rfl
  | putDone tuple hhead htype herror _ hentry _ hforgets _ hm =>
    obtain ⟨_, rfl, _⟩ := hforgets
    by_cases hown : tuple.key = key ∧ response.responseId = id
    · obtain ⟨rfl, rfl⟩ := hown
      refine .done ((replies_some hhead).mpr ⟨htype, rfl, rfl⟩) ?_ ?_ ⟨response, rfl, rfl⟩ rfl ?_
      · exact fun hrefuses => herror ((refuses_some hhead).mp hrefuses).2.2.2
      · rw [time, hentry]
        rfl
      · rw [time, KvsClient.entry, hm, if_pos ⟨rfl, rfl⟩]
        rfl
    · refine .same (fun hreply => ?_) rfl ?_
      · obtain ⟨_, hid, hkey⟩ := (replies_some hhead).mp hreply
        exact absurd ⟨hkey, hid⟩ hown
      · rw [time, KvsClient.entry, hm, if_neg hown]
        rfl

theorem Received.queueTime (hs : Recorded puts gets s) (h : Received c response s results s')
    {tp : Int} (htp : s'.queueTime key = some tp) : tp = (s.queueTime key).getD c.reissue := by
  have hsame : s.queueTime key = some tp → tp = (s.queueTime key).getD c.reissue := by
    intro heq
    rw [heq]
    rfl
  cases h with
  | ignored => exact hsame htp
  | getAgain tuple entry _ hentry _ _ hforgets htry =>
    obtain ⟨cache, rfl, _⟩ := hforgets
    exact (tryRequest_tried (hs.inGets tuple.key entry hentry).1.1 htry).queueTime htp
  | getDone _ _ _ hforgets =>
    obtain ⟨cache, rfl, _⟩ := hforgets
    exact hsame htp
  | putAgain tuple _ _ _ entry hentry _ _ hforgets htry =>
    obtain ⟨cache, rfl, _⟩ := hforgets
    exact (tryRequest_tried (hs.inPuts tuple.key _ entry hentry).1.1 htry).queueTime htp
  | putDone _ _ _ _ _ _ _ hforgets =>
    obtain ⟨_, rfl, _⟩ := hforgets
    exact hsame htp

/-- Only replies to recorded requests are results. -/
theorem Received.result {x : KeyResponse} (h : Received c response s results s')
    (hx : x ∈ results) :
    x = response ∧ (x.type = .get ∨
      ∃ key, Replies (some x) key x.responseId ∧ (s.time key x.responseId).isSome) := by
  cases h with
  | ignored | getAgain | putAgain => cases hx
  | getDone _ htype =>
    obtain rfl := mem_singleton.mp hx
    exact ⟨rfl, .inl htype⟩
  | putDone tuple hhead htype _ _ hentry =>
    obtain rfl := mem_singleton.mp hx
    refine ⟨rfl, .inr ⟨tuple.key, (replies_some hhead).mpr ⟨htype, rfl, rfl⟩, ?_⟩⟩
    rw [time, hentry]
    rfl

/-- After a reply the records are still of issued requests. -/
theorem Recorded.received (hs : Recorded puts gets s) (h : Received c response s results s') :
    Recorded puts gets s' := by
  cases h with
  | ignored => exact hs
  | getAgain tuple entry htype hentry t s' hforgets htry =>
    have hentry' := hs.inGets tuple.key entry hentry
    refine Recorded.tried ?_ hentry'.1 (tryRequest_tried hentry'.1.1 htry)
    have ht := hforgets.recorded hs
    refine ⟨ht.inQueue, fun k e he => ?_, ht.inPuts⟩
    rw [ExtTreeMap.getElem?_insert] at he
    split at he
    · rename_i hkey
      obtain rfl := Std.compare_eq_iff_eq.mp hkey
      cases he
      exact hentry'
    · exact ht.inGets k e he
  | getDone _ _ _ hforgets =>
    refine (hforgets.recorded hs).of_le (fun _ _ h => h) (fun k e he => ?_) fun _ _ _ h => h
    rw [getElem?_erase] at he
    split at he
    · cases he
    · exact he
  | putAgain tuple hhead htype herror entry hentry t s' hforgets htry =>
    have hentry' := hs.inPuts tuple.key _ entry hentry
    refine Recorded.tried ?_ hentry'.1 (tryRequest_tried hentry'.1.1 htry)
    have ht := hforgets.recorded hs
    refine ⟨ht.inQueue, ht.inGets, fun k id e he => ?_⟩
    rw [KvsClient.entry] at he
    rw [getElem?_insert_entry] at he
    split at he
    · rename_i hown
      obtain ⟨rfl, rfl⟩ := hown
      cases he
      exact hentry'
    · exact ht.inPuts k id e he
  | putDone _ _ _ _ _ _ _ hforgets _ hm =>
    have ht := hforgets.recorded hs
    refine ⟨ht.inQueue, ht.inGets, fun k id e he => hs.inPuts k id e ?_⟩
    rw [KvsClient.entry, hm] at he
    split at he
    · cases he
    · exact he

theorem NoEmptyAddress.tried (hcache : NoEmptyAddress s) (h : Tried now key request s s') :
    NoEmptyAddress s' := by
  intro k
  rw [h.cache]
  exact hcache k

theorem NoEmptyAddress.received (hs : Recorded puts gets s) (hcache : NoEmptyAddress s)
    (h : Received c response s results s') : NoEmptyAddress s' := by
  cases h with
  | ignored => exact hcache
  | getAgain tuple entry _ hentry _ _ hforgets htry =>
    refine NoEmptyAddress.tried ?_ (tryRequest_tried (hs.inGets tuple.key entry hentry).1.1 htry)
    exact hforgets.noEmptyAddress hcache
  | getDone _ _ _ hforgets => exact hforgets.noEmptyAddress hcache
  | putAgain tuple _ _ _ entry hentry _ _ hforgets htry =>
    refine NoEmptyAddress.tried ?_ (tryRequest_tried (hs.inPuts tuple.key _ entry hentry).1.1 htry)
    exact hforgets.noEmptyAddress hcache
  | putDone _ _ _ _ _ _ _ hforgets => exact hforgets.noEmptyAddress hcache

end KvsClient

end Testbed.Anna
