import Testbed.Anna.ClientSweeps

/-! # Calls of the client

A call of `receive_async` put together from its parts.  Each record of a PUT that is taken
away comes back as a result (`sweeps_records`, `answer_records`), so all depends on how
often a PUT is recorded (`records`): once, unless it went to the wrong thread, when it is
in the queue of its key and has an entry (`Doubles`).
-/
namespace Testbed.Anna

open Lib

namespace KvsClient
variable {cfg : ClientConfig} {s s' : KvsClient cfg} {key k : Key} {id : String} {c : Readings}
  {puts : List (Key × String)} {gets : List String} {results : List KeyResponse}
  {addresses : Option KeyAddressResponse} {response : Option KeyResponse}

/-- The parts of a call. -/
structure Parts (c : Readings) (addresses : Option KeyAddressResponse)
    (response : Option KeyResponse) (s : KvsClient cfg) (results : List KeyResponse)
    (s' : KvsClient cfg) where
  (s₁ s₂ s₃ s₄ : KvsClient cfg)
  (answers lateRequests lateGets latePuts : List KeyResponse)
  routed : (addresses = none ∧ s₁ = s) ∨ ∃ answer, addresses = some answer ∧ Addressed c answer s s₁
  answered : (response = none ∧ answers = [] ∧ s₂ = s₁) ∨
    ∃ answer, response = some answer ∧ Received c answer s₁ answers s₂
  requests : s₂.sweepRequests c = .ok (lateRequests, s₃)
  gets : s₃.sweepGets c = .ok (lateGets, s₄)
  puts : s₄.sweepPuts c = .ok (latePuts, s')
  results_eq : results = answers ++ lateRequests ++ lateGets ++ latePuts

/-- **A call of `receive_async`** is its parts, one after another. -/
theorem receiveAsync_parts (h : s.receiveAsync c addresses response = .ok (results, s')) :
    Nonempty (Parts c addresses response s results s') := by
  obtain ⟨s₁, hrouted, h⟩ := bind_eq_ok.mp h
  obtain ⟨⟨answers, s₂⟩, hanswered, h⟩ := bind_eq_ok.mp h
  obtain ⟨⟨lateRequests, s₃⟩, hrequests, h⟩ := bind_eq_ok.mp h
  obtain ⟨⟨lateGets, s₄⟩, hgets, h⟩ := bind_eq_ok.mp h
  obtain ⟨⟨latePuts, _⟩, hputs, h⟩ := bind_eq_ok.mp h
  cases h
  refine ⟨s₁, s₂, s₃, s₄, answers, lateRequests, lateGets, latePuts, ?_, ?_, hrequests, hgets,
    hputs, rfl⟩
  · cases addresses with
    | none =>
      cases hrouted
      exact .inl ⟨rfl, rfl⟩
    | some answer => exact .inr ⟨answer, rfl, receiveAddresses_addressed hrouted⟩
  · cases response with
    | none =>
      cases hanswered
      exact .inl ⟨rfl, rfl, rfl⟩
    | some answer => exact .inr ⟨answer, rfl, receiveResponse_received hanswered⟩

namespace Parts

section
variable (h : Parts c addresses response s results s')
include h

section
variable (hs : Recorded puts gets s)
include hs

theorem rerouted (key : Key) (id : String) : Rerouted c addresses key id s h.s₁ := by
  rcases h.routed with ⟨rfl, hsame⟩ | ⟨_, rfl, haddressed⟩
  · rw [hsame]
    exact .of_other (by simp [Clears]) (by simp [Renews]) rfl rfl
  · exact .of_addressed hs haddressed key id

theorem recorded₁ : Recorded puts gets h.s₁ := by
  rcases h.routed with ⟨_, hsame⟩ | ⟨_, _, haddressed⟩
  · rwa [hsame]
  · exact hs.addressed haddressed

theorem recorded₂ : Recorded puts gets h.s₂ := by
  rcases h.answered with ⟨_, _, hsame⟩ | ⟨_, _, hreceived⟩
  · rw [hsame]
    exact h.recorded₁ hs
  · exact (h.recorded₁ hs).received hreceived

theorem recorded₃ : Recorded puts gets h.s₃ := (h.recorded₂ hs).sweepRequests h.requests

theorem recorded₄ : Recorded puts gets h.s₄ := (h.recorded₃ hs).sweepGets h.gets

theorem recorded : Recorded puts gets s' := (h.recorded₄ hs).sweepPuts h.puts

/-- What the reply does to a request is told by `Answered`. -/
theorem effect (key : Key) (id : String) : Answered c response key id h.s₁ h.answers h.s₂ := by
  rcases h.answered with ⟨hnone, _, hsame⟩ | ⟨_, rfl, hreceived⟩
  · rw [hsame]
    refine .same ?_ rfl rfl
    simp [hnone, Replies]
  · exact .of_received (h.recorded₁ hs) hreceived key id

end

end

end Parts

/-! ### How often a PUT is recorded -/

/-- One if the PUT has an entry. -/
def waits (s : KvsClient cfg) (key : Key) (id : String) : Nat :=
  if (s.time key id).isSome then 1 else 0

/-- How often a PUT is recorded. -/
def records (s : KvsClient cfg) (key : Key) (id : String) : Nat :=
  s.copies key id + s.waits key id

theorem waits_congr (h : s'.time key id = s.time key id) : s'.waits key id = s.waits key id := by
  rw [waits, h, waits]

theorem waits_of_none (h : s.time key id = none) : s.waits key id = 0 := by
  rw [waits, h]
  rfl

theorem waits_of_some {tp : Int} (h : s.time key id = some tp) : s.waits key id = 1 := by
  rw [waits, h]
  rfl

theorem waits_of_isSome (h : (s.time key id).isSome) : s.waits key id = 1 := if_pos h

variable (s)

/-- While a PUT is recorded twice, or gets to be, neither record times out and no answer to
the PUT is final. -/
structure Calm (c : Readings) (addresses : Option KeyAddressResponse)
    (response : Option KeyResponse) (key : Key) (id : String) : Prop where
  queue : expired cfg (c.queue key) ((s.queueStart c addresses key).getD c.reissue) = false
  entry : ∀ tp ∈ if Refuses response key id then some c.response else s.time key id,
    expired cfg (c.put key id) tp = false
  reply : Replies response key id → Refuses response key id

/-- The PUT is recorded twice, and stays so, or it gets to be. -/
def Doubles (addresses : Option KeyAddressResponse)
    (response : Option KeyResponse) (key : Key) (id : String) : Prop :=
  (2 ≤ s.records key id ∧ ¬ Clears addresses key) ∨ (Refuses response key id ∧
      ((s.time key id).isSome ∨ (Clears addresses key ∧ 0 < s.copies key id)))

instance decidableCalm (c : Readings) (addresses : Option KeyAddressResponse)
    (response : Option KeyResponse) (key : Key) (id : String) :
    Decidable (Calm s c addresses response key id) :=
  decidable_of_iff (_ ∧ _ ∧ _) ⟨fun h => ⟨h.1, h.2.1, h.2.2⟩, fun h => ⟨h.queue, h.entry, h.reply⟩⟩

instance decidableDoubles (addresses : Option KeyAddressResponse)
    (response : Option KeyResponse) (key : Key) (id : String) :
    Decidable (Doubles s addresses response key id) :=
  inferInstanceAs (Decidable (_ ∨ _))

variable {s}

/-- A request that is doubled is recorded. -/
theorem Doubles.records_pos (h : Doubles s addresses response key id) : 0 < s.records key id := by
  rcases h with ⟨_, _⟩ | ⟨_, hwaits | ⟨_, _⟩⟩
  · omega
  · rw [records, waits_of_isSome hwaits]
    omega
  · rw [records]
    omega

theorem Refuses.replies (h : Refuses response key id) : Replies response key id := by
  obtain ⟨reply, hmem, htype, hid, tuple, htuple, hkey, _⟩ := h
  exact ⟨reply, hmem, htype, hid, tuple, htuple, hkey⟩

namespace Parts
variable (h : Parts c addresses response s results s')
include h

/-- What the addresses do to the records of a request: they clear its queue, or leave it. -/
theorem rerouted_records (hs : Recorded puts gets s) (key : Key) (id : String) :
    (Clears addresses key → h.s₁.copies key id = 0) ∧
    (¬ Clears addresses key →
      h.s₁.copies key id = s.copies key id ∧ h.s₁.time key id = s.time key id) ∧
    ((h.s₁.time key id).isSome → (s.time key id).isSome ∨
      (Clears addresses key ∧ 0 < s.copies key id)) := by
  have hrerouted := h.rerouted hs key id
  refine ⟨fun hclears => ?_, fun hclears => ⟨?_, ?_⟩, fun hsome => ?_⟩
  · rw [hrerouted.copies, if_pos hclears]
  · rw [hrerouted.copies, if_neg hclears]
  · refine Option.ext fun tp => ⟨fun htp => ?_, hrerouted.kept tp⟩
    exact (hrerouted.fresh tp htp).resolve_right fun hfresh => hclears hfresh.1
  · obtain ⟨tp, htp⟩ := Option.isSome_iff_exists.mp hsome
    refine (hrerouted.fresh tp htp).imp_left fun hold => ?_
    rw [hold]
    rfl

/-- The results of the call are those of its parts. -/
theorem countP_results (id : String) : (results.countP fun x => x.responseId = id) =
    (h.answers.countP fun x => x.responseId = id) +
      (h.lateRequests.countP fun x => x.responseId = id) +
      (h.lateGets.countP fun x => x.responseId = id) +
      (h.latePuts.countP fun x => x.responseId = id) := by
  refine (congrArg (List.countP _) h.results_eq).trans ?_
  rw [List.countP_append, List.countP_append, List.countP_append]

/-- A reply is no answer to a request that does not wait. -/
theorem countP_answers (hs : Recorded puts gets s) (hunique : Unique puts gets key id)
    (hget : ∀ reply ∈ response, reply.type = .get → reply.responseId ≠ id)
    (hnot : Replies response key id → h.s₁.time key id = none) :
    (h.answers.countP fun x => x.responseId = id) = 0 := by
  rw [List.countP_eq_zero]
  intro x hx hid
  have hid := of_decide_eq_true hid
  rcases h.answered with ⟨_, hanswers, _⟩ | ⟨_, rfl, hreceived⟩
  · rw [hanswers] at hx
    cases hx
  · obtain ⟨rfl, htype | ⟨k, hreplies, hwaits⟩⟩ := hreceived.result hx
    · exact hget x rfl htype hid
    · subst hid
      obtain ⟨_, htp⟩ := Option.isSome_iff_exists.mp hwaits
      obtain ⟨e, he, _⟩ := Option.map_eq_some_iff.mp htp
      obtain ⟨hissued, _, heid⟩ := (h.recorded₁ hs).inPuts k _ e he
      obtain ⟨rfl, _⟩ := hunique.of_issued hissued heid
      rw [hnot hreplies] at hwaits
      cases hwaits

theorem queueTime₂ (hs : Recorded puts gets s) {tp : Int} (htp : h.s₂.queueTime key = some tp) :
    tp = (s.queueStart c addresses key).getD c.reissue := by
  rw [← (h.rerouted hs key "").queueTime]
  rcases h.answered with ⟨_, _, hsame⟩ | ⟨_, _, hreceived⟩
  · rw [hsame] at htp
    rw [htp]
    rfl
  · exact hreceived.queueTime (h.recorded₁ hs) htp

theorem time₄ : h.s₄.time key id = h.s₂.time key id :=
  (sweepGets_same h.gets).2.trans (time_sweepRequests h.requests)

theorem copies_eq : s'.copies key id = h.s₃.copies key id :=
  (copies_sweepPuts h.puts).trans (sweepGets_same h.gets).1

section
variable (hs : Recorded puts gets s)
include hs

section
variable (hunique : Unique puts gets key id)
include hunique

/-- In a calm call a request that is doubled gets no result. -/
theorem countP_of_calm (hget : ∀ reply ∈ response, reply.type = .get → reply.responseId ≠ id)
    (hdoubles : Doubles s addresses response key id)
    (hcalm : Calm s c addresses response key id) :
    (results.countP fun x => x.responseId = id) = 0 := by
  have hqueue : ¬ LateQueue h.s₂ c key := by
    rintro ⟨tp, htp, hexpired⟩
    rw [h.queueTime₂ hs htp, hcalm.queue] at hexpired
    cases hexpired
  obtain ⟨-, hsame, _⟩ := h.rerouted_records hs key id
  have hentry : (h.answers.countP fun x => x.responseId = id) = 0 ∧ ¬ LatePut h.s₄ c key id := by
    have hlate : ∀ tp, h.s₂.time key id = some tp →
        tp ∈ (if Refuses response key id then some c.response else s.time key id) →
        ¬ LatePut h.s₄ c key id := by
      rintro tp htp hmem ⟨_, htp', hexpired⟩
      rw [h.time₄, htp] at htp'
      cases htp'
      rw [hcalm.entry _ hmem] at hexpired
      cases hexpired
    have hnone : h.s₂.time key id = none → ¬ LatePut h.s₄ c key id := by
      rintro hnone ⟨tp, htp, _⟩
      rw [h.time₄, hnone] at htp
      cases htp
    cases h.effect hs key id with
    | same hreply _ htime =>
      refine ⟨h.countP_answers hs hunique hget hreply, ?_⟩
      cases htp : h.s₂.time key id with
      | none => exact hnone htp
      | some tp =>
        refine hlate tp htp ?_
        -- the PUT waits, so the answer is not one to it
        rw [htime] at htp
        have hrefuses : ¬ Refuses response key id := fun hrefuses => by
          rw [hreply hrefuses.replies] at htp
          cases htp
        obtain ⟨_, hclears⟩ := hdoubles.resolve_right fun h => hrefuses h.1
        rw [if_neg hrefuses, ← (hsame hclears).2]
        exact htp
    | again hrefuses _ hresults _ htime =>
      rw [hresults]
      refine ⟨rfl, hlate _ htime ?_⟩
      rw [if_pos hrefuses]
      rfl
    | done hreply hrefuses => exact absurd (hcalm.reply hreply) hrefuses
  rw [h.countP_results, hentry.1,
    countP_sweepRequests_of_not_late (h.recorded₂ hs) hunique h.requests hqueue,
    countP_sweepGets (h.recorded₃ hs) hunique h.gets,
    countP_sweepPuts_of_not_late (h.recorded₄ hs) hunique h.puts hentry.2]

/-- The sweeps turn records into results. -/
theorem sweeps_records : (h.lateRequests.countP fun x => x.responseId = id) +
      (h.lateGets.countP fun x => x.responseId = id) +
      (h.latePuts.countP fun x => x.responseId = id) + s'.records key id =
    h.s₂.records key id := by
  have hqueue : (h.lateRequests.countP fun x => x.responseId = id) + s'.copies key id =
      h.s₂.copies key id := by
    rw [h.copies_eq]
    by_cases hlate : LateQueue h.s₂ c key
    · rw [countP_sweepRequests_of_late (h.recorded₂ hs) hunique h.requests hlate,
        copies_sweepRequests_of_late h.requests hlate, Nat.add_zero]
    · rw [countP_sweepRequests_of_not_late (h.recorded₂ hs) hunique h.requests hlate,
        copies_sweepRequests_of_not_late h.requests hlate, Nat.zero_add]
  have hentry : (h.latePuts.countP fun x => x.responseId = id) + s'.waits key id =
      h.s₂.waits key id := by
    rw [← waits_congr h.time₄]
    by_cases hlate : LatePut h.s₄ c key id
    · have htime := hlate
      obtain ⟨_, htp, _⟩ := htime
      rw [countP_sweepPuts_of_late (h.recorded₄ hs) hunique h.puts hlate,
        waits_of_none (time_sweepPuts_of_late h.puts hlate), waits_of_some htp]
    · rw [countP_sweepPuts_of_not_late (h.recorded₄ hs) hunique h.puts hlate,
        waits_congr (time_sweepPuts_of_not_late h.puts hlate), Nat.zero_add]
  have hgets := countP_sweepGets (h.recorded₃ hs) hunique h.gets
  unfold records
  omega

section
variable (hget : ∀ reply ∈ response, reply.type = .get → reply.responseId ≠ id)
include hget

/-- A reply turns one record into a result, or none. -/
theorem answer_records (hagain : Refuses response key id → h.s₁.time key id = none) :
    (h.answers.countP fun x => x.responseId = id) + h.s₂.records key id = h.s₁.records key id := by
  unfold records
  cases h.effect hs key id with
  | same hreply hcopies htime =>
    rw [h.countP_answers hs hunique hget hreply, hcopies, waits_congr htime, Nat.zero_add]
  | again hrefuses hwaits =>
    rw [hagain hrefuses] at hwaits
    cases hwaits
  | done hreply _ hwaits hresults hcopies htime =>
    obtain ⟨_, rfl, hresults⟩ := hresults
    obtain ⟨_, hmem, _, hid, _⟩ := hreply
    obtain rfl := Option.some.inj hmem
    rw [hresults, List.countP_singleton, if_pos (decide_eq_true hid), hcopies,
      waits_of_none htime, waits_of_isSome hwaits]
    omega

/-- **Results and records of a request** together never grow, if it is not doubled. -/
theorem countP_of_not_doubles (hdoubles : ¬ Doubles s addresses response key id) :
    (results.countP fun x => x.responseId = id) + s'.records key id ≤ 1 ∧
      (results.countP fun x => x.responseId = id) + s'.records key id ≤ s.records key id := by
  obtain ⟨hcleared, hsame, hfresh⟩ := h.rerouted_records hs key id
  have hfirst : h.s₁.records key id ≤ 1 ∧ h.s₁.records key id ≤ s.records key id := by
    by_cases hclears : Clears addresses key
    · unfold records
      rw [hcleared hclears]
      by_cases hwaits : (h.s₁.time key id).isSome
      · rw [waits_of_isSome hwaits]
        rcases hfresh hwaits with hold | ⟨_, _⟩
        · rw [waits_of_isSome hold]
          omega
        · omega
      · rw [waits_of_none (Option.not_isSome_iff_eq_none.mp hwaits)]
        omega
    · have hrecords : h.s₁.records key id = s.records key id := by
        rw [records, (hsame hclears).1, waits_congr (hsame hclears).2, records]
      have honce : ¬ 2 ≤ s.records key id := fun htwo => hdoubles (.inl ⟨htwo, hclears⟩)
      omega
  have hanswer := h.answer_records hs hunique hget fun hrefuses => by
    refine Option.eq_none_iff_forall_ne_some.mpr fun tp htp => hdoubles (.inr ⟨hrefuses, ?_⟩)
    exact hfresh (by rw [htp]; rfl)
  have hsweeps := h.sweeps_records hs hunique
  rw [h.countP_results]
  omega

end

end

end

end Parts

/-! ### PUTs that are not lost -/

namespace Parts
variable (h : Parts c addresses response s results s')
include h

/-- The call takes no empty address into the cache. -/
theorem noEmptyAddress (hs : Recorded puts gets s) (hcache : NoEmptyAddress s)
    (hlists : Lists s addresses) : NoEmptyAddress s' := by
  have h₁ : NoEmptyAddress h.s₁ := by
    rcases h.routed with ⟨_, hsame⟩ | ⟨answer, rfl, haddressed⟩
    · rwa [hsame]
    · exact hcache.addressed hs hlists haddressed
  have h₂ : NoEmptyAddress h.s₂ := by
    rcases h.answered with ⟨_, _, hsame⟩ | ⟨_, _, hreceived⟩
    · rwa [hsame]
    · exact h₁.received (h.recorded₁ hs) hreceived
  have h₃ : NoEmptyAddress h.s₃ := by
    obtain ⟨_, hsame⟩ := sweepRequests_eq_ok h.requests
    rw [hsame]
    exact h₂
  obtain ⟨_, hgets, _, h₄⟩ := sweepGets_eq_ok h.gets
  obtain ⟨_, hputs, _, h₅⟩ := sweepPuts_eq_ok h.puts
  rw [h₅]
  refine hputs.noEmptyAddress ?_
  rw [h₄]
  exact hgets.noEmptyAddress h₃

/-- **A request stays pending until it is answered.** -/
theorem pending_or_replies (hs : Recorded puts gets s) (hcache : NoEmptyAddress s)
    (hlists : Lists s addresses) (hpending : 0 < s.copies key id ∨ (s.time key id).isSome) :
    (0 < s'.copies key id ∨ (s'.time key id).isSome) ∨ ∃ x ∈ results, Replies (some x) key id := by
  have h₁ : 0 < h.s₁.copies key id ∨ (h.s₁.time key id).isSome := by
    rcases h.routed with ⟨_, hsame⟩ | ⟨_, rfl, haddressed⟩
    · rwa [hsame]
    · exact haddressed.pending hs hcache hlists hpending
  have h₂ : (0 < h.s₂.copies key id ∨ (h.s₂.time key id).isSome) ∨
      ∃ x ∈ h.answers, Replies (some x) key id := by
    cases h.effect hs key id with
    | same _ hcopies htime =>
      rw [hcopies, htime]
      exact .inl h₁
    | again _ _ _ _ htime =>
      rw [htime]
      exact .inl (.inr rfl)
    | done hreply _ _ hresults =>
      obtain ⟨reply, rfl, hresults⟩ := hresults
      rw [hresults]
      exact .inr ⟨reply, List.mem_singleton_self reply, hreply⟩
  have hresults : ∀ x, x ∈ h.answers ∨ x ∈ h.lateRequests ∨ x ∈ h.latePuts → x ∈ results := by
    intro x hx
    have hmem : x ∈ h.answers ++ h.lateRequests ++ h.lateGets ++ h.latePuts := by
      rcases hx with hx | hx | hx <;> simp [hx]
    exact h.results_eq ▸ hmem
  rcases h₂ with (hcopies | htime) | ⟨x, hx, hreplies⟩
  · by_cases hlate : LateQueue h.s₂ c key
    · obtain ⟨x, hx, hreplies⟩ := sweepRequests_replies (h.recorded₂ hs) h.requests hlate hcopies
      exact .inr ⟨x, hresults x (.inr (.inl hx)), hreplies⟩
    · rw [h.copies_eq, copies_sweepRequests_of_not_late h.requests hlate]
      exact .inl (.inl hcopies)
  · rw [← h.time₄] at htime
    by_cases hlate : LatePut h.s₄ c key id
    · obtain ⟨x, hx, hreplies⟩ := sweepPuts_replies (h.recorded₄ hs) h.puts hlate
      exact .inr ⟨x, hresults x (.inr (.inr hx)), hreplies⟩
    · rw [time_sweepPuts_of_not_late h.puts hlate]
      exact .inl (.inr htime)
  · exact .inr ⟨x, hresults x (.inl hx), hreplies⟩

end Parts

/-! ## Calls of `put_async` and `get_async` -/

variable {now : Int}

/-- A PUT is tried under a new id. -/
theorem putAsync_tried {payload : String} {latticeType : LatticeType}
    (h : s.putAsync now key payload latticeType = .ok (id, s')) :
    ∃ t request, s.Quiet t ∧ Names key request ∧ request.type = .put ∧ request.requestId = id ∧
      Tried now key request t s' := by
  obtain ⟨t, htry, h⟩ := bind_eq_ok.mp h
  cases h
  have hnames : Names key (s.prepareDataRequest { key, payload, latticeType } .put).1 :=
    ⟨_, _, rfl, rfl⟩
  exact ⟨_, _, ⟨_, _, _, rfl⟩, hnames, rfl, rfl, tryRequest_tried hnames htry⟩

/-- A GET is tried, unless there is one for the key already. -/
theorem getAsync_tried (h : s.getAsync now key = .ok s') :
    (key ∈ s.pendingGetResponseMap ∧ s' = s) ∨
    (key ∉ s.pendingGetResponseMap ∧ ∃ t request, s.Quiet t ∧ Names key request ∧
      request.type = .get ∧ request.requestId = s.getRequestId.1 ∧
      Tried now key request t s') := by
  unfold getAsync at h
  split at h
  · rename_i hmem
    cases h
    exact .inl ⟨hmem, rfl⟩
  · rename_i hmem
    have hnames : Names key (s.prepareDataRequest { key } .get).1 := ⟨_, _, rfl, rfl⟩
    exact .inr ⟨hmem, _, _, ⟨_, _, _, rfl⟩, hnames, rfl, rfl, tryRequest_tried hnames h⟩

theorem Quiet.records (h : s.Quiet s') : s'.records key id = s.records key id := by
  obtain ⟨_, _, _, rfl⟩ := h
  rfl

theorem Tried.records_other {request : KeyRequest} (h : Tried now k request s s')
    (hother : ¬ (request.type ≠ .get ∧ k = key ∧ request.requestId = id)) :
    s'.records key id = s.records key id := by
  obtain ⟨hcopies, htime⟩ := h.other key id hother
  rw [KvsClient.records, hcopies, waits_congr htime, KvsClient.records]

theorem Recorded.mem_of_records (hs : Recorded puts gets s) (h : 0 < s.records key id) :
    (key, id) ∈ puts := by
  by_cases hcopies : 0 < s.copies key id
  · obtain ⟨request, hmem, hput⟩ := List.countP_pos_iff.mp hcopies
    obtain ⟨htype, rfl⟩ := of_decide_eq_true hput
    refine ((hs.inQueue key request hmem).put_of_ne_get ?_).2
    rw [htype]
    decide
  · cases he : s.entry key id with
    | none =>
      have hwaits := waits_of_none (by rw [time, he]; rfl)
      unfold records at h
      omega
    | some e =>
      obtain ⟨hissued, htype, rfl⟩ := hs.inPuts key id e he
      exact (hissued.put_of_ne_get htype).2

end KvsClient

end Testbed.Anna
