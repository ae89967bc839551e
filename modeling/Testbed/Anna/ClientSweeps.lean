import Testbed.Anna.ClientReceives

/-! # What the sweeps do to a PUT

At the end of `receive_async` the queues and the entries that have waited too long are
given up, each with a bad response.  A PUT that is given up in one place may still be
recorded in the other: the sweeps look at each on its own.
-/
namespace Testbed.Anna

open Std Lib List Std.ExtTreeMap

namespace KvsClient
variable {cfg : ClientConfig} {s s' : KvsClient cfg} {key k : Key} {id : String} {c : Readings}
  {puts : List (Key × String)} {gets : List String} {results : List KeyResponse}

/-! ## Bad responses -/

variable {request : KeyRequest}

theorem generateBadResponse_id {x : KeyResponse} (h : generateBadResponse request = .ok x) :
    x.responseId = request.requestId := by
  unfold generateBadResponse at h
  split at h
  · cases h
  · cases h
    rfl

/-- A request that is too late is answered under its own id. -/
theorem generateBadResponse_replies {x : KeyResponse} (hnames : Names key request)
    (htype : request.type = .put) (h : generateBadResponse request = .ok x) :
    Replies (some x) key request.requestId := by
  obtain ⟨_, _, htuples, rfl⟩ := hnames
  unfold generateBadResponse at h
  rw [htuples] at h
  cases h
  refine (replies_some rfl).mpr ⟨?_, rfl, ?_⟩
  · dsimp only
    rw [htype]
    decide
  · rw [if_pos htype]

/-- The PUT's key, and its being no GET, can be told from its id. -/
structure Unique (puts : List (Key × String)) (gets : List String) (key : Key) (id : String) :
    Prop where
  key_eq : ∀ k, (k, id) ∈ puts → k = key
  notMem_gets : id ∉ gets

theorem Unique.of_issued (hunique : Unique puts gets key id) (h : Issued puts gets k request)
    (hid : request.requestId = id) : k = key ∧ request.type = .put := by
  subst hid
  rcases h.2 with ⟨htype, hmem⟩ | ⟨_, hmem⟩
  · exact ⟨hunique.key_eq k hmem, htype⟩
  · exact absurd hmem hunique.notMem_gets

/-- There is one bad response for each late request. -/
theorem countP_badResponses {α : Type} (request : α → KeyRequest) {l : List α}
    (h : l.mapM (fun a => generateBadResponse (request a)) = .ok results) (id : String) :
    (results.countP fun x => x.responseId = id) = l.countP fun a => (request a).requestId = id := by
  have hmap := map_of_mapM_eq_ok (g := KeyResponse.responseId)
    (k := fun a => (request a).requestId) h fun _ _ => generateBadResponse_id
  have hcount := congrArg (List.countP fun x => decide (x = id)) hmap
  rwa [countP_map, countP_map] at hcount

/-! ## The queues -/

/-- The queue of the key has waited too long. -/
def LateQueue (s : KvsClient cfg) (c : Readings) (key : Key) : Prop :=
  ∃ tp ∈ s.queueTime key, expired cfg (c.queue key) tp = true

theorem sweepRequests_eq_ok (h : s.sweepRequests c = .ok (results, s')) :
    let late := s.pendingRequestMap.toList.filter fun pair =>
      expired cfg (c.queue pair.1) pair.2.1
    (late.flatMap fun pair => pair.2.2).mapM generateBadResponse = .ok results ∧
      s' = { s with pendingRequestMap :=
                      late.foldl (fun m pair => m.erase pair.1) s.pendingRequestMap } := by
  obtain ⟨_, hmap, h⟩ := bind_eq_ok.mp h
  cases h
  exact ⟨hmap, rfl⟩

/-- The sweep removes the queues that are too late, and no others. -/
theorem getElem?_sweepRequests (h : s.sweepRequests c = .ok (results, s')) (key : Key) :
    s'.pendingRequestMap[key]? =
      s.pendingRequestMap[key]?.filter fun queue => !expired cfg (c.queue key) queue.1 := by
  obtain ⟨_, rfl⟩ := sweepRequests_eq_ok h
  exact getElem?_sweep
    (fun pair : Key × Int × List KeyRequest => expired cfg (c.queue pair.1) pair.2.1) key

theorem time_sweepRequests (h : s.sweepRequests c = .ok (results, s')) :
    s'.time key id = s.time key id := by
  obtain ⟨_, rfl⟩ := sweepRequests_eq_ok h
  rfl

theorem lateQueue_iff : LateQueue s c key ↔ ∃ queue, s.pendingRequestMap[key]? = some queue ∧
      expired cfg (c.queue key) queue.1 = true := by
  unfold LateQueue queueTime
  cases s.pendingRequestMap[key]? <;> simp

theorem copies_sweepRequests_of_late (h : s.sweepRequests c = .ok (results, s'))
    (hlate : LateQueue s c key) : s'.copies key id = 0 := by
  obtain ⟨_, hqueue, hexpired⟩ := lateQueue_iff.mp hlate
  refine copies_of_none ?_
  rw [getElem?_sweepRequests h, hqueue, Option.filter_some, hexpired]
  rfl

theorem copies_sweepRequests_of_not_late (h : s.sweepRequests c = .ok (results, s'))
    (hlate : ¬ LateQueue s c key) : s'.copies key id = s.copies key id := by
  rw [copies, copies, queued_eq_of_getElem?]
  rw [getElem?_sweepRequests h]
  cases hqueue : s.pendingRequestMap[key]? with
  | none => rfl
  | some queue =>
    have hnot : expired cfg (c.queue key) queue.1 = false := by
      refine Bool.eq_false_iff.mpr fun hexpired => hlate ?_
      exact lateQueue_iff.mpr ⟨queue, hqueue, hexpired⟩
    rw [Option.filter_some, hnot]
    rfl

section
variable (hs : Recorded puts gets s)
include hs

/-- **A late queue is answered**, each of its requests. -/
theorem sweepRequests_replies
    (h : s.sweepRequests c = .ok (results, s')) (hlate : LateQueue s c key)
    (hcopies : 0 < s.copies key id) : ∃ x ∈ results, Replies (some x) key id := by
  obtain ⟨queue, hqueue, hexpired⟩ := lateQueue_iff.mp hlate
  obtain ⟨request, hrequest, hput⟩ := countP_pos_iff.mp hcopies
  obtain ⟨htype, rfl⟩ := of_decide_eq_true hput
  obtain ⟨x, hx, hbad⟩ := exists_of_mapM_eq_ok (sweepRequests_eq_ok h).1 (a := request)
    (mem_flatMap.mpr ⟨(key, queue), mem_filter.mpr
      ⟨mem_toList_iff_getElem?_eq_some.mpr hqueue, hexpired⟩,
      by rwa [queued_of_some hqueue] at hrequest⟩)
  exact ⟨x, hx, generateBadResponse_replies (hs.inQueue key request hrequest).1 htype hbad⟩

section
variable (hunique : Unique puts gets key id)
include hunique

theorem countP_queued_eq :
    ((s.queued key).countP fun request => request.requestId = id) = s.copies key id := by
  refine countP_congr fun request hmem => ?_
  rw [decide_eq_true_iff, decide_eq_true_iff]
  exact ⟨fun hid => ⟨(hunique.of_issued (hs.inQueue key request hmem) hid).2, hid⟩, And.right⟩

/-- A request gets as many answers as it had copies. -/
theorem countP_sweepRequests_of_late (h : s.sweepRequests c = .ok (results, s'))
    (hlate : LateQueue s c key) :
    (results.countP fun x => x.responseId = id) = s.copies key id := by
  obtain ⟨queue, hqueue, hexpired⟩ := lateQueue_iff.mp hlate
  rw [countP_badResponses (fun request => request) (sweepRequests_eq_ok h).1 id,
    ← countP_queued_eq hs hunique, queued_of_some hqueue]
  have hmem : (key, queue) ∈ s.pendingRequestMap.toList.filter
      fun pair => expired cfg (c.queue pair.1) pair.2.1 :=
    mem_filter.mpr ⟨mem_toList_iff_getElem?_eq_some.mpr hqueue, hexpired⟩
  refine countP_flatMap_of_only ((pairwise_toList _).filter _) (g := fun pair => pair.2.2) hmem ?_
  rintro ⟨k, queue'⟩ hpair hkey request hmem hid
  have hqueue' := mem_toList_iff_getElem?_eq_some.mp (mem_filter.mp hpair).1
  have hissued := hs.inQueue k request (mem_queued.mpr ⟨queue', hqueue', hmem⟩)
  exact hkey (hunique.of_issued hissued (of_decide_eq_true hid)).1

theorem countP_sweepRequests_of_not_late (h : s.sweepRequests c = .ok (results, s'))
    (hlate : ¬ LateQueue s c key) : (results.countP fun x => x.responseId = id) = 0 := by
  rw [countP_badResponses (fun request => request) (sweepRequests_eq_ok h).1 id, countP_eq_zero]
  intro request hmem hid
  obtain ⟨⟨k, queue⟩, hpair, hmem⟩ := mem_flatMap.mp hmem
  obtain ⟨hqueue, hexpired⟩ := mem_filter.mp hpair
  have hqueue := mem_toList_iff_getElem?_eq_some.mp hqueue
  have hissued := hs.inQueue k request (mem_queued.mpr ⟨queue, hqueue, hmem⟩)
  obtain ⟨rfl, _⟩ := hunique.of_issued hissued (of_decide_eq_true hid)
  exact hlate (lateQueue_iff.mpr ⟨queue, hqueue, hexpired⟩)

end

theorem Recorded.sweepRequests
    (h : s.sweepRequests c = .ok (results, s')) : Recorded puts gets s' := by
  have hget := getElem?_sweepRequests h
  obtain ⟨_, rfl⟩ := sweepRequests_eq_ok h
  refine hs.of_le (fun k request hmem => ?_) (fun _ _ h => h) fun _ _ _ h => h
  obtain ⟨queue, hqueue, hmem⟩ := mem_queued.mp hmem
  rw [hget, Option.filter_eq_some_iff] at hqueue
  exact mem_queued.mpr ⟨queue, hqueue.1, hmem⟩

end

/-! ## The GETs -/

theorem invalidateCacheForWorker_forgets {worker : Address}
    (h : s.invalidateCacheForWorker worker = .ok s') : s.Forgets s' := by
  obtain ⟨_, _, h⟩ := bind_eq_ok.mp h
  obtain ⟨removed, _, h⟩ := bind_eq_ok.mp h
  cases h
  refine ⟨_, rfl, fun key => ?_⟩
  simp only [getD_eq_getD_getElem?]
  rw [← foldl_map (f := Prod.fst) (g := ExtTreeMap.erase), getElem?_eraseAll]
  split
  · exact Or.inr rfl
  · exact Or.inl rfl

theorem sweepGets_eq_ok (h : s.sweepGets c = .ok (results, s')) : ∃ t, s.Forgets t ∧
      let late := s.pendingGetResponseMap.toList.filter fun pair =>
        expired cfg (c.get pair.1) pair.2.tp
      late.mapM (fun pair => generateBadResponse pair.2.request) = .ok results ∧
      s' = { t with pendingGetResponseMap :=
                      late.foldl (fun m pair => m.erase pair.1) t.pendingGetResponseMap } := by
  obtain ⟨_, hmap, h⟩ := bind_eq_ok.mp h
  obtain ⟨t, hfold, h⟩ := bind_eq_ok.mp h
  cases h
  refine ⟨t, ?_, hmap, rfl⟩
  exact foldlM_invariant (s.Forgets ·)
    (fun pair _ u u' hu h => hu.trans (invalidateCacheForWorker_forgets h)) (.refl s) hfold

/-- The sweep over GETs does nothing to PUTs. -/
theorem sweepGets_same (h : s.sweepGets c = .ok (results, s')) :
    s'.copies key id = s.copies key id ∧ s'.time key id = s.time key id := by
  obtain ⟨t, ⟨_, rfl, _⟩, _, rfl⟩ := sweepGets_eq_ok h
  exact ⟨rfl, rfl⟩

theorem countP_sweepGets (hs : Recorded puts gets s) (hunique : Unique puts gets key id)
    (h : s.sweepGets c = .ok (results, s')) :
    (results.countP fun x => x.responseId = id) = 0 := by
  obtain ⟨_, _, hmap, _⟩ := sweepGets_eq_ok h
  rw [countP_badResponses (fun pair : Key × PendingRequest => pair.2.request) hmap id,
    countP_eq_zero]
  rintro ⟨k, e⟩ hmem hid
  have he := mem_toList_iff_getElem?_eq_some.mp (mem_filter.mp hmem).1
  obtain ⟨hissued, htype⟩ := hs.inGets k e he
  have hput := (hunique.of_issued hissued (of_decide_eq_true hid)).2
  rw [htype] at hput
  cases hput

theorem Recorded.sweepGets (hs : Recorded puts gets s) (h : s.sweepGets c = .ok (results, s')) :
    Recorded puts gets s' := by
  obtain ⟨t, ⟨_, rfl, _⟩, _, rfl⟩ := sweepGets_eq_ok h
  refine hs.of_le (fun _ _ h => h) (fun k e he => ?_) fun _ _ _ h => h
  have hget := getElem?_sweep (m := s.pendingGetResponseMap)
    (fun pair => expired cfg (c.get pair.1) pair.2.tp) k
  rw [hget, Option.filter_eq_some_iff] at he
  exact he.1

/-! ## The PUTs -/

/-- The PUT has waited too long for a worker. -/
def LatePut (s : KvsClient cfg) (c : Readings) (key : Key) (id : String) : Prop :=
  ∃ tp ∈ s.time key id, expired cfg (c.put key id) tp = true

theorem latePut_iff : LatePut s c key id ↔
    ∃ e, s.entry key id = some e ∧ expired cfg (c.put key id) e.tp = true := by
  unfold LatePut time
  cases s.entry key id <;> simp

theorem entry_eq_some_iff {e : PendingRequest} : s.entry key id = some e ↔
    ∃ entries, s.pendingPutResponseMap[key]? = some entries ∧ entries[id]? = some e := by
  cases hentries : s.pendingPutResponseMap[key]? with
  | none => simp [entry_of_none hentries]
  | some => simp [entry_of_some hentries]

/-- The PUTs that the sweep removes are those whose time has passed. -/
theorem mem_latePuts {e : PendingRequest} : (key, id, e) ∈ s.latePuts c ↔
    s.entry key id = some e ∧ expired cfg (c.put key id) e.tp = true := by
  rw [entry_eq_some_iff, latePuts, mem_flatMap]
  constructor
  · rintro ⟨⟨k, entries⟩, hpair, hmem⟩
    obtain ⟨⟨_, _⟩, he, heq⟩ := mem_map.mp hmem
    cases heq
    obtain ⟨he, hexpired⟩ := mem_filter.mp he
    exact ⟨⟨entries, mem_toList_iff_getElem?_eq_some.mp hpair,
      mem_toList_iff_getElem?_eq_some.mp he⟩, hexpired⟩
  · rintro ⟨⟨entries, hentries, he⟩, hexpired⟩
    refine ⟨(key, entries), mem_toList_iff_getElem?_eq_some.mpr hentries, ?_⟩
    exact mem_map.mpr ⟨(id, e), mem_filter.mpr
      ⟨mem_toList_iff_getElem?_eq_some.mpr he, hexpired⟩, rfl⟩

theorem sweepPuts_eq_ok (h : s.sweepPuts c = .ok (results, s')) : ∃ t, s.Forgets t ∧
      (s.latePuts c).mapM (fun put => generateBadResponse put.2.2.request) = .ok results ∧
      s' = { t with
             pendingPutResponseMap := (s.latePuts c).foldl
               (fun m put => m.insert put.1 ((m.getD put.1 ∅).erase put.2.1))
               t.pendingPutResponseMap } := by
  obtain ⟨_, hmap, h⟩ := bind_eq_ok.mp h
  obtain ⟨t, hfold, h⟩ := bind_eq_ok.mp h
  cases h
  refine ⟨t, ?_, hmap, rfl⟩
  exact foldlM_invariant (s.Forgets ·)
    (fun put _ u u' hu h => hu.trans (invalidateCacheForWorker_forgets h)) (.refl s) hfold

theorem getElem?_foldl_erase_entry (l : List (Key × String × PendingRequest))
    (m : ExtTreeMap Key (ExtTreeMap String PendingRequest)) (key : Key) (id : String) :
    ((l.foldl (fun m put => m.insert put.1 ((m.getD put.1 ∅).erase put.2.1)) m).getD key ∅)[id]? =
      if ∃ put ∈ l, put.1 = key ∧ put.2.1 = id then none else (m.getD key ∅)[id]? := by
  induction l generalizing m with
  | nil => simp
  | cons put _ ih =>
    rw [foldl_cons, ih]
    have hfirst : ((m.insert put.1 ((m.getD put.1 ∅).erase put.2.1)).getD key ∅)[id]? =
        if put.1 = key ∧ put.2.1 = id then none else (m.getD key ∅)[id]? := by
      rw [getD_insert]
      by_cases hkey : put.1 = key
      · subst hkey
        rw [if_pos Std.compare_self, getElem?_erase]
        simp
      · rw [if_neg fun heq => hkey (Std.compare_eq_iff_eq.mp heq), if_neg fun h => hkey h.1]
    rw [hfirst]
    simp only [exists_mem_cons_iff]
    by_cases hput : put.1 = key ∧ put.2.1 = id
    · rw [if_pos hput, if_pos (Or.inl hput), ite_self]
    · simp only [hput, false_or, if_false]

/-- The sweep removes the late PUTs, and no others. -/
theorem entry_sweepPuts (h : s.sweepPuts c = .ok (results, s')) (key : Key) (id : String) :
    s'.entry key id = if ∃ put ∈ s.latePuts c, put.1 = key ∧ put.2.1 = id then none
      else s.entry key id := by
  obtain ⟨t, ⟨_, rfl, _⟩, _, rfl⟩ := sweepPuts_eq_ok h
  exact getElem?_foldl_erase_entry (s.latePuts c) s.pendingPutResponseMap key id

theorem latePut_iff_exists_mem :
    LatePut s c key id ↔ ∃ put ∈ s.latePuts c, put.1 = key ∧ put.2.1 = id := by
  rw [latePut_iff]
  constructor
  · rintro ⟨e, he⟩
    exact ⟨(key, id, e), mem_latePuts.mpr he, rfl, rfl⟩
  · rintro ⟨⟨_, _, e⟩, hmem, rfl, rfl⟩
    exact ⟨e, mem_latePuts.mp hmem⟩

section
variable (h : s.sweepPuts c = .ok (results, s'))
include h

theorem time_sweepPuts_of_late (hlate : LatePut s c key id) : s'.time key id = none := by
  rw [time, entry_sweepPuts h, if_pos (latePut_iff_exists_mem.mp hlate)]
  rfl

theorem time_sweepPuts_of_not_late
    (hlate : ¬ LatePut s c key id) : s'.time key id = s.time key id := by
  rw [time, entry_sweepPuts h, if_neg fun hput => hlate (latePut_iff_exists_mem.mpr hput)]
  rfl

theorem copies_sweepPuts : s'.copies key id = s.copies key id := by
  obtain ⟨t, ⟨_, rfl, _⟩, _, rfl⟩ := sweepPuts_eq_ok h
  rfl

end

section
variable (hs : Recorded puts gets s)
include hs

/-- **A late PUT is answered.** -/
theorem sweepPuts_replies (h : s.sweepPuts c = .ok (results, s'))
    (hlate : LatePut s c key id) : ∃ x ∈ results, Replies (some x) key id := by
  obtain ⟨e, he⟩ := latePut_iff.mp hlate
  obtain ⟨_, _, hmap, _⟩ := sweepPuts_eq_ok h
  obtain ⟨x, hx, hbad⟩ := exists_of_mapM_eq_ok hmap (mem_latePuts.mpr he)
  obtain ⟨hissued, htype, rfl⟩ := hs.inPuts key id e he.1
  exact ⟨x, hx, generateBadResponse_replies hissued.1 (hissued.put_of_ne_get htype).1 hbad⟩

section
variable (hunique : Unique puts gets key id)
include hunique

theorem eq_of_mem_latePuts {put : Key × String × PendingRequest} (hmem : put ∈ s.latePuts c)
    (hid : put.2.2.request.requestId = id) : put.1 = key ∧ put.2.1 = id := by
  obtain ⟨k, id', e⟩ := put
  obtain ⟨hissued, _, hid'⟩ := hs.inPuts k id' e (mem_latePuts.mp hmem).1
  exact ⟨(hunique.of_issued hissued hid).1, hid'.symm.trans hid⟩

theorem countP_sweepPuts_of_not_late (h : s.sweepPuts c = .ok (results, s'))
    (hlate : ¬ LatePut s c key id) : (results.countP fun x => x.responseId = id) = 0 := by
  obtain ⟨_, _, hmap, _⟩ := sweepPuts_eq_ok h
  rw [countP_badResponses (fun put : Key × String × PendingRequest => put.2.2.request) hmap id,
    countP_eq_zero]
  intro put hmem hid
  exact hlate (latePut_iff_exists_mem.mpr
    ⟨put, hmem, eq_of_mem_latePuts hs hunique hmem (of_decide_eq_true hid)⟩)

/-- It is answered once. -/
theorem countP_sweepPuts_of_late
    (h : s.sweepPuts c = .ok (results, s')) (hlate : LatePut s c key id) :
    (results.countP fun x => x.responseId = id) = 1 := by
  obtain ⟨e, he, hexpired⟩ := latePut_iff.mp hlate
  obtain ⟨_, hentries, hget⟩ := entry_eq_some_iff.mp he
  obtain ⟨_, _, hmap, _⟩ := sweepPuts_eq_ok h
  rw [countP_badResponses (fun put : Key × String × PendingRequest => put.2.2.request) hmap id]
  -- first the entries of other keys are out, then those of other PUTs of the key
  have hpair := mem_toList_iff_getElem?_eq_some.mpr hentries
  rw [latePuts, countP_flatMap_of_only (pairwise_toList _) hpair, countP_map]
  · refine countP_eq_one_of_only (k := id) (v := e) ((pairwise_toList _).filter _) ?_ ?_ ?_
    · exact mem_filter.mpr ⟨mem_toList_iff_getElem?_eq_some.mpr hget, hexpired⟩
    · exact decide_eq_true (hs.inPuts key id e he).2.2
    · intro entry hentry hne hid
      have hput : (key, entry) ∈ s.latePuts c :=
        mem_flatMap.mpr ⟨_, hpair, mem_map.mpr ⟨entry, hentry, rfl⟩⟩
      exact hne (eq_of_mem_latePuts hs hunique hput (of_decide_eq_true hid)).2
  · intro pair hpair hne put hput hid
    have hmem : put ∈ s.latePuts c := mem_flatMap.mpr ⟨pair, hpair, hput⟩
    have heq := eq_of_mem_latePuts hs hunique hmem (of_decide_eq_true hid)
    obtain ⟨_, _, rfl⟩ := mem_map.mp hput
    exact hne heq.1

end

theorem Recorded.sweepPuts (h : s.sweepPuts c = .ok (results, s')) :
    Recorded puts gets s' := by
  have hentry := entry_sweepPuts h
  obtain ⟨t, ⟨_, rfl, _⟩, _, rfl⟩ := sweepPuts_eq_ok h
  refine hs.of_le (fun _ _ h => h) (fun _ _ h => h) fun k id e he => ?_
  rw [hentry] at he
  split at he
  · cases he
  · exact he

end

end KvsClient

end Testbed.Anna
