import Mathlib.Algebra.BigOperators.Group.Multiset.Basic
import Testbed.Anna.DeferredRequests

/-! # Every request is answered exactly once

A tuple of a request is answered at once, or it waits in `pending_requests` until
the factors of its key arrive.  The books of a key have two sides: the requests
that arrived for it, and those that wait or were answered.  A call of either
request handler keeps them balanced (`Accounted`), so a run of calls does too
(`run_accounted`).

Two equal tuples cannot be told apart, by the thread or by the client, so the books
are multisets.  A request that waits in vain is one whose factors never come; the
only way to drop a waiting request is a response without an error and without
factors, which `Event.ListsTier` excludes.
-/
namespace Testbed.Anna

open Std Lib
open ServerState List ExtTreeMap

/-- What a response says of the request it answers: the address it goes to, the
type of the request and its id. -/
abbrev Label := Address × RequestType × String

/-- The label of the response to a waiting request. -/
def PendingRequest.label (request : PendingRequest) : Label :=
  (request.addr, request.type, request.responseId)

variable (key : Key)

/-- One label for each tuple of a message that answers a request for the key. -/
def answersIn : Address × Message → List Label
  | (address, .keyResponse response) =>
    (response.tuples.filter (·.key = key)).map fun _ =>
      (address, response.type, response.responseId)
  | _ => []

/-- The answers for a key among the messages. -/
def answers (messages : List (Address × Message)) : Multiset Label :=
  (messages.flatMap (answersIn key) : List Label)

theorem answers_append (messages messages' : List (Address × Message)) :
    answers key (messages ++ messages') = answers key messages + answers key messages' := by
  simp [answers]

theorem answers_singleton (message : Address × Message) :
    answers key [message] = (answersIn key message : Multiset Label) := by
  simp [answers]

variable {key : Key} {request : KeyRequest} {tuple : KeyTuple} {now : Nat}
  {messages : List (Address × Message)}

theorem answers_eq_zero (h : ∀ message ∈ messages, ∃ request, message.2 = .keyRequest request) :
    answers key messages = 0 := by
  refine (Multiset.coe_eq_zero _).mpr (flatMap_eq_nil_iff.mpr fun message hmessage => ?_)
  obtain ⟨_, hrequest⟩ := h message hmessage
  obtain ⟨_, _⟩ := message
  cases hrequest
  rfl

/-- The tuples for the key, in the form in which they would wait. -/
def entriesOf (request : KeyRequest) (key : Key) (tuples : List KeyTuple) :
    Multiset PendingRequest :=
  ((tuples.filter (·.key = key)).map (pendingOf request) : List PendingRequest)

/-- The tuples for the key that an event brings, with a response address. -/
def Event.arrivals (key : Key) : Event → Multiset PendingRequest
  | .userRequest _ request => (entriesOf request key request.tuples).filter (·.addr ≠ "")
  | _ => 0

/-- The event is a call of `user_request_handler` or of
`replication_response_handler`. -/
def Event.IsRequest : Event → Prop
  | .userRequest _ _ | .replicationResponse _ _ => True
  | _ => False

/-- A replication response without an error lists a tier. -/
def Event.ListsTier (srv : Server) : Event → Prop
  | .replicationResponse _ response => ∀ tuple ∈ response.tuples.head?, tuple.error = .noError →
      (replicationPayload srv tuple.payload).globalValues ≠ [] ∨
        (replicationPayload srv tuple.payload).localValues ≠ []
  | _ => True

namespace ServerState
variable {srv : Server} (s : ServerState srv)

/-- The requests that wait for a key. -/
def held (key : Key) : Multiset PendingRequest :=
  (s.pendingRequests.getD key [] : List PendingRequest)

/-- Those among them that have a response address. -/
def waiting (key : Key) : Multiset PendingRequest :=
  (s.held key).filter (·.addr ≠ "")

/-- **The books of a key balance**: the requests that waited in `s` and those that
arrived are those that wait in `s'` and those that were answered in between, each by
one response tuple. -/
def Accounted (s s' : ServerState srv) (key : Key) (arrived : Multiset PendingRequest) : Prop :=
  ∃ answered : Multiset PendingRequest, s.waiting key + arrived = s'.waiting key + answered ∧
      answers key s'.sent = answers key s.sent + answered.map PendingRequest.label

theorem Accounted.refl (key : Key) : Accounted s s key 0 :=
  ⟨0, rfl, by simp⟩

variable {s s' : ServerState srv} {lookup : Lookup} {arrived : Multiset PendingRequest}

theorem Accounted.trans {s'' : ServerState srv} {arrived' : Multiset PendingRequest}
    (h : Accounted s s' key arrived) (h' : Accounted s' s'' key arrived') :
    Accounted s s'' key (arrived + arrived') := by
  obtain ⟨answered, hbooks, hanswers⟩ := h
  obtain ⟨answered', hbooks', hanswers'⟩ := h'
  refine ⟨answered + answered', ?_, ?_⟩
  · calc s.waiting key + (arrived + arrived')
        = s'.waiting key + answered + arrived' := by rw [← add_assoc, hbooks]
      _ = s'.waiting key + arrived' + answered := add_right_comm _ _ _
      _ = s''.waiting key + (answered + answered') := by
        rw [hbooks', add_assoc, add_comm answered']
  · rw [hanswers', hanswers, Multiset.map_add, add_assoc]

/-! ## Calls that leave the books alone -/

/-- No request is answered and none begins or ends to wait. -/
def Quiet (s s' : ServerState srv) : Prop :=
  s'.pendingRequests = s.pendingRequests ∧ ∀ key, answers key s'.sent = answers key s.sent

namespace Quiet
variable {s s' s'' : ServerState srv}

theorem refl (s : ServerState srv) : s.Quiet s := ⟨rfl, fun _ => rfl⟩

theorem trans (h : s.Quiet s') (h' : s'.Quiet s'') : s.Quiet s'' :=
  ⟨h'.1.trans h.1, fun key => (h'.2 key).trans (h.2 key)⟩

theorem held_eq (h : s.Quiet s') (key : Key) : s'.held key = s.held key := by
  rw [held, held, h.1]

theorem accounted (h : s.Quiet s') (key : Key) : Accounted s s' key 0 := by
  refine ⟨0, ?_, by simp [h.2 key]⟩
  rw [waiting, waiting, h.held_eq]

end Quiet

theorem Works.quiet {key : Key} (h : s.Works key s') : s.Quiet s' :=
  ⟨h.silent.1.2, fun key => by rw [h.silent.1.1]⟩

theorem send_quiet (h : ∀ message ∈ messages, ∃ request, message.2 = .keyRequest request) :
    s.Quiet (s.send messages) := by
  refine ⟨rfl, fun key => ?_⟩
  change answers key (s.sent ++ messages) = _
  rw [answers_append, answers_eq_zero h, add_zero]

theorem afterLookup_quiet {tiers : List Tier} (h : s.getResponsibleThreads key tiers = .ok lookup) :
    s.Quiet (s.afterLookup lookup) :=
  ⟨rfl, (send_quiet (s := s) fun message hmessage =>
    (lookup_isGet h message hmessage).imp fun _ hget => hget.1).2⟩

theorem issueReplicationFactorRequest_quiet (h : s.issueReplicationFactorRequest key = .ok s') :
    s.Quiet s' := by
  obtain ⟨⟨_, _⟩, hissue, h⟩ := bind_eq_ok.mp h
  cases h
  refine ⟨rfl, (send_quiet (s := s) fun message' hmessage => ?_).2⟩
  rw [mem_singleton.mp hmessage]
  exact (issue_isGet hissue).imp fun _ hget => hget.1

/-! ## `user_request_handler` -/

/-- A tuple for the key, in the form in which it would wait; nothing for another
key. -/
def entryOf (request : KeyRequest) (key : Key) (tuple : KeyTuple) : Multiset PendingRequest :=
  if tuple.key = key then {pendingOf request tuple} else 0

theorem entriesOf_cons (request : KeyRequest) (key : Key) (tuple : KeyTuple)
    (tuples : List KeyTuple) :
    entriesOf request key (tuple :: tuples) =
      entryOf request key tuple + entriesOf request key tuples := by
  unfold entriesOf entryOf
  by_cases hkey : tuple.key = key
  · rw [filter_cons_of_pos (by simpa using hkey), if_pos hkey]
    rfl
  · rw [filter_cons_of_neg (by simpa using hkey), if_neg hkey, zero_add]

theorem held_pushRequest (s : ServerState srv) (request : KeyRequest) (tuple : KeyTuple)
    (key : Key) :
    (s.pushRequest tuple.key (pendingOf request tuple)).held key =
      s.held key + entryOf request key tuple := by
  unfold held entryOf pushRequest
  by_cases hkey : tuple.key = key
  · subst hkey
    rw [getD_insert_self, if_pos rfl, ← Multiset.coe_add]
    rfl
  · rw [getD_insert, if_neg (by simpa using hkey), if_neg hkey, add_zero]

/-- The answers for the key in the response to a request, were it sent with these
tuples. -/
def drafted (request : KeyRequest) (key : Key) (answered : List KeyTuple) : Multiset Label :=
  (answersIn key (request.responseAddress, .keyResponse (userResponse request answered)) :
    List Label)

variable {answered : List KeyTuple}

theorem drafted_append {tp : KeyTuple} (htp : tp.key = tuple.key) :
    drafted request key (answered ++ [tp]) =
      drafted request key answered + (entryOf request key tuple).map PendingRequest.label := by
  unfold drafted answersIn userResponse entryOf
  dsimp only
  rw [filter_append, map_append, ← Multiset.coe_add]
  by_cases hkey : tuple.key = key
  · rw [filter_cons_of_pos (by simpa [htp] using hkey), if_pos hkey]
    rfl
  · rw [filter_cons_of_neg (by simpa [htp] using hkey), if_neg hkey]
    rfl

theorem fst_of_mem_drafted {label : Label} (h : label ∈ drafted request key answered) :
    label.1 = request.responseAddress := by
  obtain ⟨_, -, rfl⟩ := mem_map.mp (Multiset.mem_coe.mp h)
  rfl

/-- The books while the tuples of one request are worked off: a tuple waits, or it
has its place in the draft of the response. -/
structure Drafting (request : KeyRequest) (key : Key) (arrived : Multiset PendingRequest)
    (acc acc' : ServerState srv × List KeyTuple) (answered : Multiset PendingRequest) : Prop where
  books : acc.1.held key + arrived = acc'.1.held key + answered
  draft : drafted request key acc'.2 = drafted request key acc.2 + answered.map PendingRequest.label
  sent : answers key acc'.1.sent = answers key acc.1.sent

theorem userRequestTuple_drafting {acc acc' : ServerState srv × List KeyTuple} (key : Key)
    (h : userRequestTuple now request acc tuple = .ok acc') :
    ∃ answered, Drafting request key (entryOf request key tuple) acc acc' answered := by
  obtain ⟨s, _⟩ := acc
  obtain ⟨_, _⟩ := acc'
  obtain ⟨_, hlookup, hcases⟩ := userRequestTuple_cases h
  have hquiet := afterLookup_quiet hlookup
  rcases hcases with ⟨-, -, _, hserve, rfl⟩ | ⟨-, -, -, rfl, rfl⟩ | ⟨s₁, rfl, rfl, hwaits⟩
  · obtain ⟨hworks, htp⟩ := userServe_works hserve
    have hquiet := hquiet.trans hworks.quiet
    exact ⟨entryOf request key tuple, by rw [hquiet.held_eq], drafted_append htp, hquiet.2 key⟩
  · exact ⟨entryOf request key tuple, by rw [hquiet.held_eq], drafted_append rfl, hquiet.2 key⟩
  · have hquiet : s.Quiet s₁ := by
      rcases hwaits with ⟨-, rfl⟩ | ⟨-, -, hissue⟩
      · exact hquiet
      · exact hquiet.trans (issueReplicationFactorRequest_quiet hissue)
    refine ⟨0, ?_, by simp, hquiet.2 key⟩
    rw [held_pushRequest, hquiet.held_eq, add_zero]

theorem userRequestTuples_drafting {tuples : List KeyTuple}
    {acc acc' : ServerState srv × List KeyTuple} (key : Key)
    (h : tuples.foldlM (userRequestTuple now request) acc = .ok acc') :
    ∃ answered, Drafting request key (entriesOf request key tuples) acc acc' answered := by
  induction tuples generalizing acc with
  | nil =>
    rw [foldlM_nil_eq_ok] at h
    subst h
    exact ⟨0, rfl, by simp, rfl⟩
  | cons tuple tuples ih =>
    obtain ⟨acc₁, hfirst, hrest⟩ := foldlM_cons_eq_ok.mp h
    obtain ⟨answered, hd⟩ := userRequestTuple_drafting key hfirst
    obtain ⟨answered', hd'⟩ := ih hrest
    refine ⟨answered + answered', ?_, ?_, hd'.sent.trans hd.sent⟩
    · calc acc.1.held key + entriesOf request key (tuple :: tuples)
          = acc₁.1.held key + answered + entriesOf request key tuples := by
            rw [entriesOf_cons, ← add_assoc, hd.books]
        _ = acc₁.1.held key + entriesOf request key tuples + answered := add_right_comm _ _ _
        _ = acc'.1.held key + (answered + answered') := by
            rw [hd'.books, add_assoc, add_comm answered']
    · rw [hd'.draft, hd.draft, Multiset.map_add, add_assoc]

theorem userRequestHandler_accounted (key : Key) (h : s.userRequestHandler now request = .ok s') :
    Accounted s s' key ((entriesOf request key request.tuples).filter (·.addr ≠ "")) := by
  obtain ⟨⟨s₁, tuples⟩, htuples, h⟩ := bind_eq_ok.mp h
  obtain ⟨answered, hbooks, hdraft, hsent⟩ := userRequestTuples_drafting key htuples
  have hlabels := hdraft.trans (zero_add _)
  have haddr : ∀ r ∈ answered, r.addr = request.responseAddress := by
    intro r hr
    have hlabel := hlabels ▸ Multiset.mem_map_of_mem _ hr
    exact fst_of_mem_drafted hlabel
  -- what is drafted is sent just if the request has a response address
  have hsends : s'.pendingRequests = s₁.pendingRequests ∧ answers key s'.sent =
      answers key s.sent + (answered.filter (·.addr ≠ "")).map PendingRequest.label := by
    dsimp only at h hsent
    split at h
    · rename_i hsend
      cases h
      refine ⟨rfl, ?_⟩
      change answers key (s₁.sent ++ [_]) = _
      rw [answers_append, answers_singleton, hsent,
        Multiset.filter_eq_self.mpr fun r hr => haddr r hr ▸ hsend.2, ← hlabels]
      rfl
    · rename_i hsend
      cases h
      refine ⟨rfl, ?_⟩
      by_cases hempty : request.responseAddress = ""
      · rw [Multiset.filter_eq_nil.mpr fun r hr => not_not.mpr ((haddr r hr).trans hempty), hsent]
        simp
      · have htuples : tuples = [] := by
          by_contra hne
          exact hsend ⟨hne, hempty⟩
        subst htuples
        have hnone := Multiset.map_eq_zero.mp hlabels.symm
        rw [hnone, hsent]
        simp
  refine ⟨answered.filter (·.addr ≠ ""), ?_, hsends.2⟩
  have hheld : s'.held key = s₁.held key := by rw [held, held, hsends.1]
  rw [waiting, waiting, hheld, ← Multiset.filter_add, hbooks, Multiset.filter_add]

/-! ## `replication_response_handler` -/

variable {request : PendingRequest}

theorem answers_pendingResponse {tp : KeyTuple} (key' : Key) (htp : tp.key = key) :
    answers key' [pendingResponse request tp] = if key = key' then {request.label} else 0 := by
  rw [answers_singleton]
  unfold pendingResponse answersIn
  dsimp only
  by_cases hkey : key = key'
  · rw [filter_cons_of_pos (by simpa [htp] using hkey), if_pos hkey]
    rfl
  · rw [filter_cons_of_neg (by simpa [htp] using hkey), if_neg hkey]
    rfl

/-- The labels of the requests that are owed a response. -/
def owed (requests : List PendingRequest) : Multiset Label :=
  ((requests : Multiset PendingRequest).filter (·.addr ≠ "")).map PendingRequest.label

theorem owed_cons (request : PendingRequest) (requests : List PendingRequest) :
    owed (request :: requests) =
      (if request.addr ≠ "" then {request.label} else 0) + owed requests := by
  unfold owed
  rw [← Multiset.cons_coe, Multiset.filter_cons, Multiset.map_add]
  split <;> rfl

theorem completeRequest_answers {responsible : Bool} (key' : Key)
    (h : completeRequest now key responsible s request = .ok s') :
    s'.pendingRequests = s.pendingRequests ∧ answers key' s'.sent = answers key' s.sent +
        if key = key' then (if request.addr ≠ "" then {request.label} else 0) else 0 := by
  rcases completeRequest_cases h with ⟨-, haddr, rfl⟩ | ⟨-, haddr, hsilent⟩ |
    ⟨-, haddr, s₁, tp, hprocess, rfl⟩ | ⟨-, haddr, rfl⟩
  · refine ⟨rfl, ?_⟩
    change answers key' (s.sent ++ [_]) = _
    rw [answers_append, answers_pendingResponse key' rfl, if_pos haddr]
  · have hquiet := (pendingSilent_works hsilent).quiet
    refine ⟨hquiet.1, ?_⟩
    rw [hquiet.2, if_neg (not_not.mpr haddr), ite_self, add_zero]
  · obtain ⟨hworks, htp⟩ := pendingProcess_works hprocess
    obtain ⟨hsent, hpending⟩ := hworks.silent.1
    refine ⟨hpending, ?_⟩
    change answers key' (s₁.sent ++ [_]) = _
    rw [answers_append, answers_pendingResponse key' htp, hsent, if_pos haddr]
  · refine ⟨rfl, ?_⟩
    rw [if_neg (not_not.mpr haddr), ite_self, add_zero]

theorem completeRequests_answers {responsible : Bool} {requests : List PendingRequest}
    (key' : Key) (h : requests.foldlM (completeRequest now key responsible) s = .ok s') :
    s'.pendingRequests = s.pendingRequests ∧ answers key' s'.sent =
      answers key' s.sent + if key = key' then owed requests else 0 := by
  induction requests generalizing s with
  | nil =>
    rw [foldlM_nil_eq_ok] at h
    subst h
    refine ⟨rfl, ?_⟩
    split <;> exact (add_zero _).symm
  | cons _ _ ih =>
    obtain ⟨_, hfirst, hrest⟩ := foldlM_cons_eq_ok.mp h
    obtain ⟨hpending, hanswers⟩ := completeRequest_answers key' hfirst
    obtain ⟨hpending', hanswers'⟩ := ih hrest
    refine ⟨hpending'.trans hpending, ?_⟩
    rw [hanswers', hanswers, owed_cons, add_assoc]
    by_cases hkey : key = key'
    · rw [if_pos hkey, if_pos hkey, if_pos hkey]
    · rw [if_neg hkey, if_neg hkey, if_neg hkey, add_zero]

/-- A lookup of a known key succeeds. -/
theorem Known.succeed {tiers : List Tier} (hknown : s.Known key)
    (h : s.getResponsibleThreads key tiers = .ok lookup) : lookup.succeed = true := by
  rcases lookup_spec h with ⟨hsucceed, -⟩ | ⟨hkey, hnone, -⟩
  · exact hsucceed
  · rcases hknown with htrue | hsome
    · cases hkey.symm.trans htrue
    · rw [mem_iff_isSome_getElem?, hnone] at hsome
      cases hsome

theorem mem_foldl_insert_self {α : Type} (f : ExtTreeMap Key KeyReplication → α → KeyReplication)
    {entries : List α} (h : entries ≠ []) (m : ExtTreeMap Key KeyReplication) :
    key ∈ entries.foldl (fun m entry => m.insert key (f m entry)) m := by
  cases entries with
  | nil => exact absurd rfl h
  | cons _ entries => exact mem_foldl_insert f entries mem_insert_self

/-- After such a response the factors of the key are known. -/
theorem mem_learnFactors (hlists : tuple.error = .noError →
      (replicationPayload srv tuple.payload).globalValues ≠ [] ∨
        (replicationPayload srv tuple.payload).localValues ≠ []) :
    getKeyFromMetadata tuple.key ∈ (s.learnFactors tuple).keyReplicationMap := by
  unfold learnFactors
  split
  · rename_i herror
    rcases hlists herror with hglobal | hlocal
    · exact mem_foldl_insert _ _ (mem_foldl_insert_self _ hglobal _)
    · exact mem_foldl_insert_self _ hlocal _
  · exact mem_foldl_insert_self _ (cons_ne_nil _ _) _

theorem learnFactors_quiet (s : ServerState srv) (tuple : KeyTuple) :
    s.Quiet (s.learnFactors tuple) := by
  unfold learnFactors
  split <;> exact ⟨rfl, fun _ => rfl⟩

theorem completeRequests_accounted (key' : Key) (hknown : key ∈ s.keyReplicationMap)
    (h : s.completeRequests now key = .ok s') : Accounted s s' key' 0 := by
  unfold completeRequests at h
  split at h
  · cases h
    exact Accounted.refl s key'
  · rename_i requests hrequests
    obtain ⟨_, hlookup, h⟩ := bind_eq_ok.mp h
    obtain ⟨s₁, hall, h⟩ := bind_eq_ok.mp h
    cases h
    unfold completeAll at hall
    rw [if_pos (Known.succeed (.inr hknown) hlookup)] at hall
    obtain ⟨hpending, hanswers⟩ := completeRequests_answers key' hall
    rw [(afterLookup_quiet hlookup).2] at hanswers
    change s₁.pendingRequests = s.pendingRequests at hpending
    by_cases hkey : key = key'
    · -- all that waited for the key is answered
      subst hkey
      refine ⟨s.waiting key, ?_, ?_⟩
      · have hnone : (s₁.pendingRequests.erase key).getD key [] = [] := getD_erase_self
        change s.waiting key + 0 =
          Multiset.filter _ ((s₁.pendingRequests.erase key).getD key [] : List _) + s.waiting key
        rw [hnone, add_zero]
        exact (zero_add _).symm
      · rw [if_pos rfl] at hanswers
        have hheld : s.held key = requests := by
          rw [held, getD_eq_getD_getElem?, hrequests]
          rfl
        rw [waiting, hheld]
        exact hanswers
    · rw [if_neg hkey, add_zero] at hanswers
      refine ⟨0, ?_, by rw [Multiset.map_zero, add_zero]; exact hanswers⟩
      have hsame : (s₁.pendingRequests.erase key).getD key' [] =
          s.pendingRequests.getD key' [] := by
        rw [getD_erase, if_neg (by simpa using hkey), hpending]
      change s.waiting key' + 0 =
        Multiset.filter _ ((s₁.pendingRequests.erase key).getD key' [] : List _) + 0
      rw [hsame]
      rfl

theorem forwardGossip_isRequest {threads : List ServerThread} {items : List PendingGossip} :
    ∀ message ∈ forwardGossip key threads items, ∃ request, message.2 = .keyRequest request := by
  intro _ hmessage
  obtain ⟨_, -, rfl⟩ := mem_map.mp hmessage
  exact ⟨_, rfl⟩

theorem completeGossip_quiet (h : s.completeGossip key = .ok s') : s.Quiet s' := by
  unfold completeGossip at h
  split at h
  · cases h
    exact Quiet.refl s
  · rename_i items hitems
    obtain ⟨lookup, hlookup, h⟩ := bind_eq_ok.mp h
    obtain ⟨s₁, hall, h⟩ := bind_eq_ok.mp h
    cases h
    have hquiet : s.Quiet s₁ := by
      refine (afterLookup_quiet hlookup).trans ?_
      unfold completeGossipAll at hall
      split at hall
      · split at hall
        · exact foldlM_invariant (Quiet (s.afterLookup lookup))
            (fun gossip _ t t' ht hitem => ht.trans (completeGossipItem_works hitem).quiet)
            (Quiet.refl _) hall
        · cases hall
          exact send_quiet forwardGossip_isRequest
      · cases hall
        exact Quiet.refl _
    exact hquiet

theorem replicationResponseHandler_accounted {response : KeyResponse} (key : Key)
    (hlists : (Event.replicationResponse now response).ListsTier srv)
    (h : s.replicationResponseHandler now response = .ok s') : Accounted s s' key 0 := by
  unfold replicationResponseHandler at h
  split at h
  · cases h
  · rename_i tuple tuples htuples
    have hlists := hlists tuple (by rw [htuples]; rfl)
    have hcomplete : (s.learnFactors tuple).completePending now (getKeyFromMetadata tuple.key) =
        .ok s' → Accounted s s' key 0 := by
      intro hpending
      obtain ⟨_, hrequests, hgossip⟩ := bind_eq_ok.mp hpending
      exact (((learnFactors_quiet s tuple).accounted key).trans
        (completeRequests_accounted key (mem_learnFactors hlists) hrequests)).trans
          ((completeGossip_quiet hgossip).accounted key)
    split at h
    · exact hcomplete h
    · exact hcomplete h
    · exact (issueReplicationFactorRequest_quiet h).accounted key
    · cases h
      exact Accounted.refl s key

/-! ## Runs -/

theorem step_accounted {e : Event} (key : Key) (he : e.IsRequest) (hlists : e.ListsTier srv)
    (h : s.step e = .ok s') : Accounted s s' key (e.arrivals key) := by
  cases e with
  | userRequest => exact userRequestHandler_accounted key h
  | replicationResponse =>
    exact replicationResponseHandler_accounted key hlists h
  | _ => exact he.elim

variable {events : List Event}

theorem run_accounted (key : Key) (hevents : ∀ e ∈ events, e.IsRequest)
    (hlists : ∀ e ∈ events, e.ListsTier srv) (hrun : events.foldlM step s = .ok s') :
    Accounted s s' key (events.map (Event.arrivals key)).sum := by
  induction events generalizing s with
  | nil =>
    rw [foldlM_nil_eq_ok] at hrun
    subst hrun
    exact Accounted.refl s key
  | cons e _ ih =>
    obtain ⟨_, hfirst, hrest⟩ := foldlM_cons_eq_ok.mp hrun
    exact (step_accounted key (hevents e mem_cons_self) (hlists e mem_cons_self) hfirst).trans
        (ih (fun e he => hevents e (mem_cons_of_mem _ he))
          (fun e he => hlists e (mem_cons_of_mem _ he)) hrest)

/-- In balanced books, a request whose label is its own waits once and is not
answered, or it does not wait and is answered once. -/
theorem Accounted.waits_or_answered (h : Accounted s s' key arrived) (haddr : request.addr ≠ "")
    (hdue : request ∈ s.waiting key + arrived)
    (hown : ((s.waiting key + arrived).map PendingRequest.label).count request.label = 1)
    (hnew : (answers key s.sent).count request.label = 0) :
    ((s'.held key).count request = 1 ∧ (answers key s'.sent).count request.label = 0) ∨
      (request ∉ s'.held key ∧ (answers key s'.sent).count request.label = 1) := by
  obtain ⟨_, hbooks, hanswers⟩ := h
  rw [hbooks, Multiset.map_add, Multiset.count_add] at hown
  have hwaiting : (s'.waiting key).count request = (s'.held key).count request :=
    Multiset.count_filter_of_pos haddr
  have hle : (s'.waiting key).count request ≤
      ((s'.waiting key).map PendingRequest.label).count request.label := by
    rw [Multiset.count_map, Multiset.count_eq_card_filter_eq]
    exact Multiset.card_le_card (Multiset.monotone_filter_right _ fun _ heq => heq ▸ rfl)
  rw [hanswers, Multiset.count_add, hnew, ← Multiset.count_eq_zero]
  rw [hbooks] at hdue
  rcases Multiset.mem_add.mp hdue with hmem | hmem
  · have hpos := Multiset.count_pos.mpr hmem
    left
    omega
  · have hpos := Multiset.count_pos.mpr (Multiset.mem_map_of_mem PendingRequest.label hmem)
    right
    omega

theorem addr_ne_of_mem_arrivals (h : request ∈ (events.map (Event.arrivals key)).sum) :
    request.addr ≠ "" := by
  induction events with
  | nil => exact absurd h (Multiset.notMem_zero _)
  | cons e _ ih =>
    rw [map_cons, sum_cons, Multiset.mem_add] at h
    rcases h with h | h
    · cases e with
      | userRequest =>
        rw [Event.arrivals, Multiset.mem_filter] at h
        exact h.2
      | _ => exact absurd h (Multiset.notMem_zero _)
    · exact ih h

end ServerState

/-- **No request is lost or answered twice.**  In every run of the two handlers, the
requests for a key that arrived with a response address are those that wait and those
that were answered, each by one response tuple with its key and its id.  So a request
that no other is like waits once and is not answered, or it was answered once and
waits no more. -/
theorem requests_answered_exactly_once {srv : Server} {s s' : ServerState srv}
    {events : List Event} (hevents : ∀ e ∈ events, e.IsRequest)
    (hlists : ∀ e ∈ events, e.ListsTier srv) (hrun : events.foldlM step s = .ok s')
    (key : Key) :
    Accounted s s' key (events.map (Event.arrivals key)).sum ∧
      ∀ request ∈ s.waiting key + (events.map (Event.arrivals key)).sum,
        ((s.waiting key + (events.map (Event.arrivals key)).sum).map
          PendingRequest.label).count request.label = 1 →
        (answers key s.sent).count request.label = 0 →
        ((s'.held key).count request = 1 ∧ (answers key s'.sent).count request.label = 0) ∨
          (request ∉ s'.held key ∧ (answers key s'.sent).count request.label = 1) := by
  have hbooks := run_accounted key hevents hlists hrun
  refine ⟨hbooks, fun request hdue hown hnew => ?_⟩
  have haddr : request.addr ≠ "" := by
    rcases Multiset.mem_add.mp hdue with hmem | hmem
    · exact (Multiset.mem_filter.mp hmem).2
    · exact addr_ne_of_mem_arrivals hmem
  exact hbooks.waits_or_answered haddr hdue hown hnew

/-- A memory node on its own asks for the factors of `"k"`, and answers a GET when they come. -/
theorem soloState_defers {D : Type} [Priority D] (codecs : ValueCodecs D)
    (repCodec : Codec ReplicationFactor) :
    ∃ s', [Event.userRequest 0 getOfK, .replicationResponse 1 (responseOfK codecs repCodec)].foldlM
      step (soloState codecs repCodec ∅) = .ok s' := by
  obtain ⟨_, _, hasked⟩ := (issue_returns_iff _ "k" _ _).mpr
    (soloState_metadataServed codecs repCodec ∅)
  obtain ⟨s', -, hdeferred, -⟩ := (soloState_deferral codecs repCodec).agree 0 1 hasked
  obtain ⟨w, hwaits, hresponse⟩ := bind_eq_ok.mp hdeferred
  exact ⟨s', foldlM_cons_eq_ok.mpr ⟨w, hwaits, foldlM_cons_eq_ok.mpr ⟨s', hresponse, rfl⟩⟩⟩

/-- A memory node on its own keeps its books over a deferred GET. -/
theorem deferred_get_accounted : ∃ (srv : Server) (s s' : ServerState srv) (response : KeyResponse),
      [Event.userRequest 0 getOfK, .replicationResponse 1 response].foldlM step s = .ok s' ∧
      Accounted s s' "k" {pendingOf getOfK { key := "k" }} := by
  obtain ⟨codecs, repCodec⟩ := exists_codecs
  let s := soloState codecs repCodec ∅
  let response := responseOfK codecs repCodec
  obtain ⟨s', hrun⟩ := soloState_defers codecs repCodec
  have hevents : ∀ e ∈ [Event.userRequest 0 getOfK, .replicationResponse 1 response],
      e.IsRequest := by
    intro e he
    rcases mem_pair.mp he with rfl | rfl <;> trivial
  have hlists : ∀ e ∈ [Event.userRequest 0 getOfK, .replicationResponse 1 response],
      e.ListsTier (soloServer codecs repCodec) := by
    intro e he
    rcases mem_pair.mp he with rfl | rfl
    · trivial
    · intro _ htuple _
      cases htuple
      left
      change (repCodec.parseFromString (codecs.lww.parseFromString
        (codecs.lww.serializeAsString _)).1.value).1.globalValues ≠ []
      rw [codecs.lww.parse_serialize, repCodec.parse_serialize]
      exact cons_ne_nil _ _
  exact ⟨_, s, s', response, hrun, (requests_answered_exactly_once hevents hlists hrun "k").1⟩

end Testbed.Anna
