import Testbed.Anna.ClientCalls

/-! # Runs of the client

A run is a sequence of calls of `put_async`, `get_async` and `receive_async`, with any
answers and any readings of the clock.  Two things are asked of the results of a PUT:
there is at most one, and there will be one, that is, until then the PUT is recorded.

Both hold of most runs (`one_result_per_put`, `outstanding_recorded`) but not of all.  A
PUT that went to the wrong thread joins the queue of its key and keeps its entry, so it
can time out twice (`refused_put_times_out_twice`).  And an answer without addresses
makes the client forget the queue (`put_without_addresses_forgotten`).
-/
namespace Testbed.Anna

open Std Lib List

/-- A call of the client, with the readings of the clock and what is in the sockets. -/
inductive ClientCall where
  | put (now : Int) (key : Key) (payload : String) (latticeType : LatticeType)
  | get (now : Int) (key : Key)
  | receive (c : Readings) (addresses : Option KeyAddressResponse) (response : Option KeyResponse)

/-- A client with its history: the PUTs that were issued, by key and id, the ids of the GETs,
all results so far, and the PUTs that have none. -/
structure ClientTrace (cfg : ClientConfig) where
  client : KvsClient cfg
  puts : List (Key × String) := []
  gets : List String := []
  results : List KeyResponse := []
  outstanding : List (Key × String) := []

open KvsClient

namespace ClientTrace
variable {cfg : ClientConfig}

def call (t : ClientTrace cfg) : ClientCall → Except Fault (ClientTrace cfg)
  | .put now key payload latticeType => do
    let (id, client) ← t.client.putAsync now key payload latticeType
    return { t with
             client
             puts := t.puts ++ [(key, id)]
             outstanding := t.outstanding ++ [(key, id)] }
  | .get now key => do
    let client ← t.client.getAsync now key
    -- a GET of a key that waits already is not issued
    let issued := if key ∈ t.client.pendingGetResponseMap then [] else [t.client.getRequestId.1]
    return { t with client, gets := t.gets ++ issued }
  | .receive c addresses response => do
    let (results, client) ← t.client.receiveAsync c addresses response
    return { t with
             client
             results := t.results ++ results
             outstanding := t.outstanding.filter fun put =>
               !results.any fun x => Replies (some x) put.1 put.2 }

/-- The calls of a new client. -/
def run (cfg : ClientConfig) (seed : UInt32) (calls : List ClientCall) :
    Except Fault (ClientTrace cfg) :=
  calls.foldlM call { client := initial cfg seed }

variable {t u u' : ClientTrace cfg} {seed : UInt32} {calls : List ClientCall}

/-- The ways a trace goes on. -/
inductive Called (u : ClientTrace cfg) : ClientCall → ClientTrace cfg → Prop
  | put (now : Int) (key : Key) (payload : String) (latticeType : LatticeType)
      (s s' : KvsClient cfg) (request : KeyRequest) (hquiet : u.client.Quiet s)
      (hnames : Names key request) (htype : request.type = .put)
      (htried : Tried now key request s s') :
      Called u (.put now key payload latticeType)
        { u with client := s'
                 puts := u.puts ++ [(key, request.requestId)]
                 outstanding := u.outstanding ++ [(key, request.requestId)] }
  | getAgain (now : Int) (key : Key) : Called u (.get now key) u
  | get (now : Int) (key : Key) (s s' : KvsClient cfg) (request : KeyRequest)
      (hquiet : u.client.Quiet s) (hnames : Names key request) (htype : request.type = .get)
      (htried : Tried now key request s s') :
      Called u (.get now key) { u with client := s', gets := u.gets ++ [request.requestId] }
  | receive (c : Readings) (addresses : Option KeyAddressResponse)
      (response : Option KeyResponse) (results : List KeyResponse) (s' : KvsClient cfg)
      (hparts : Parts c addresses response u.client results s') :
      Called u (.receive c addresses response)
        { u with client := s'
                 results := u.results ++ results
                 outstanding := u.outstanding.filter fun put =>
                   !results.any fun x => Replies (some x) put.1 put.2 }

variable {a : ClientCall}

theorem call_called (h : u.call a = .ok u') : Called u a u' := by
  cases a with
  | put now key payload latticeType =>
    obtain ⟨⟨_, s'⟩, hput, h⟩ := bind_eq_ok.mp h
    cases h
    obtain ⟨s, request, hquiet, hnames, htype, rfl, htried⟩ := putAsync_tried hput
    exact .put now key payload latticeType s s' request hquiet hnames htype htried
  | get now key =>
    obtain ⟨s', hget, h⟩ := bind_eq_ok.mp h
    cases h
    rcases getAsync_tried hget with
      ⟨hmem, rfl⟩ | ⟨hmem, s, request, hquiet, hnames, htype, hid, htried⟩
    · rw [if_pos hmem, append_nil]
      exact .getAgain now key
    · rw [if_neg hmem, ← hid]
      exact .get now key s s' request hquiet hnames htype htried
  | receive c addresses response =>
    obtain ⟨⟨results, s'⟩, hreceive, h⟩ := bind_eq_ok.mp h
    cases h
    obtain ⟨hparts⟩ := receiveAsync_parts hreceive
    exact .receive c addresses response results s' hparts

theorem Called.recorded (h : Called u a u') (hu : Recorded u.puts u.gets u.client) :
    Recorded u'.puts u'.gets u'.client := by
  cases h with
  | put _ key _ _ _ _ request hquiet hnames htype htried =>
    have hs := (hu.quiet hquiet).mono (subset_append_left u.puts [(key, request.requestId)])
      (List.Subset.refl u.gets)
    exact hs.tried ⟨hnames, .inl ⟨htype, by simp⟩⟩ htried
  | getAgain => exact hu
  | get _ _ _ _ request hquiet hnames htype htried =>
    have hs := (hu.quiet hquiet).mono (List.Subset.refl u.puts)
      (subset_append_left u.gets [request.requestId])
    exact hs.tried ⟨hnames, .inr ⟨htype, by simp⟩⟩ htried
  | receive _ _ _ _ _ hparts => exact hparts.recorded hu

theorem recorded_initial (cfg : ClientConfig) (seed : UInt32) :
    Recorded [] [] (initial cfg seed) := by
  refine ⟨fun key request hmem => ?_, fun key e he => ?_, fun key id e he => ?_⟩
  · rw [queued_of_none ExtTreeMap.getElem?_empty] at hmem
    cases hmem
  · have hnone : (initial cfg seed).pendingGetResponseMap[key]? = none := ExtTreeMap.getElem?_empty
    cases he
  · rw [entry_of_none ExtTreeMap.getElem?_empty] at he
    cases he

theorem recorded_of_run (h : run cfg seed calls = .ok t) : Recorded t.puts t.gets t.client :=
  foldlM_invariant (fun u => Recorded u.puts u.gets u.client)
    (fun _ _ _ _ hu h => (call_called h).recorded hu) (recorded_initial cfg seed) h

theorem issued_of_foldlM (h : calls.foldlM call u = .ok t) :
    u.puts <+: t.puts ∧ u.gets <+: t.gets := by
  refine foldlM_invariant (fun u' => u.puts <+: u'.puts ∧ u.gets <+: u'.gets) ?_
    ⟨prefix_rfl, prefix_rfl⟩ h
  intro a _ v _ hv h
  cases call_called h with
  | put => exact ⟨hv.1.trans (prefix_append _ _), hv.2⟩
  | getAgain => exact hv
  | get => exact ⟨hv.1, hv.2.trans (prefix_append _ _)⟩
  | receive => exact hv

theorem unique_of_nodup {puts : List (Key × String)} {gets : List String} {key : Key}
    {id : String} (h : (puts.map Prod.snd ++ gets).Nodup) (hmem : (key, id) ∈ puts) :
    Unique puts gets key id where
  key_eq k hk := by
    have hputs := (nodup_append.mp h).1
    exact congrArg Prod.fst (inj_on_of_nodup_map hputs hk hmem rfl)
  notMem_gets hget := (nodup_append.mp h).2.2 id (mem_map.mpr ⟨_, hmem, rfl⟩) id hget rfl

/-- A PUT has come back at most once, and once it has, it is not recorded any more. -/
structure AtMostOnce (key : Key) (id : String) (u : ClientTrace cfg) : Prop where
  le_one : (u.results.countP fun x => x.responseId = id) ≤ 1
  gone : (u.results.countP fun x => x.responseId = id) = 1 →
    (key, id) ∈ u.puts ∧ u.client.records key id = 0

theorem AtMostOnce.called {key : Key} {id : String} (h : Called u a u') (hu : AtMostOnce key id u)
    (hrecorded : Recorded u.puts u.gets u.client) (hunique : Unique u'.puts u'.gets key id)
    (hnodup : (u'.puts.map Prod.snd).Nodup)
    (hget : ∀ c addresses reply, a = .receive c addresses (some reply) → reply.type = .get →
      reply.responseId ≠ id) (hcalm : ∀ c addresses response, a = .receive c addresses response →
      Doubles u.client addresses response key id → Calm u.client c addresses response key id) :
    AtMostOnce key id u' := by
  cases h with
  | put _ _ _ _ _ _ _ hquiet _ _ htried =>
    refine ⟨hu.le_one, fun hone => ?_⟩
    obtain ⟨hmem, hgone⟩ := hu.gone hone
    refine ⟨mem_append_left _ hmem, ?_⟩
    rw [← hgone, ← hquiet.records]
    refine htried.records_other ?_
    -- the id of the new PUT is not that of an old one
    rintro ⟨_, rfl, rfl⟩
    rw [map_append] at hnodup
    exact (nodup_append.mp hnodup).2.2 _ (mem_map.mpr ⟨_, hmem, rfl⟩) _ (mem_singleton_self _) rfl
  | getAgain => exact hu
  | get _ _ _ _ _ hquiet _ htype htried =>
    refine ⟨hu.le_one, fun hone => ⟨(hu.gone hone).1, ?_⟩⟩
    rw [← (hu.gone hone).2, ← hquiet.records]
    exact htried.records_other fun h => h.1 htype
  | receive c addresses response _ _ hparts =>
    have hget' : ∀ reply ∈ response, reply.type = .get → reply.responseId ≠ id := by
      rintro reply rfl
      exact hget c addresses reply rfl
    have hle := hu.le_one
    by_cases hdoubles : Doubles u.client addresses response key id
    · have hnew := hparts.countP_of_calm hrecorded hunique hget' hdoubles
        (hcalm c addresses response rfl hdoubles)
      have hpos := hdoubles.records_pos
      have hold : (u.results.countP fun x => x.responseId = id) = 0 := by
        by_contra hne
        have hgone := (hu.gone (by omega)).2
        omega
      refine ⟨?_, ?_⟩
      · rw [countP_append, hold, hnew]
        omega
      · rw [countP_append, hold, hnew]
        omega
    · obtain ⟨_, _⟩ := hparts.countP_of_not_doubles hrecorded hunique hget' hdoubles
      have hnew : (u.results.countP fun x => x.responseId = id) = 1 → u.client.records key id = 0 :=
        fun hold => (hu.gone hold).2
      refine ⟨?_, fun hcount => ⟨?_, ?_⟩⟩
      · rw [countP_append]
        omega
      · rw [countP_append] at hcount
        by_cases hold : (u.results.countP fun x => x.responseId = id) = 1
        · exact (hu.gone hold).1
        · exact hrecorded.mem_of_records (by omega)
      · rw [countP_append] at hcount
        dsimp only
        omega

/-- In a run with distinct ids, where no answer to a GET has the id of a PUT, each PUT has at
most one result if the calls are calm while it is recorded twice. -/
theorem one_result_per_put (hrun : run cfg seed calls = .ok t)
    (hdistinct : (t.puts.map Prod.snd ++ t.gets).Nodup)
    (hgets : ∀ c addresses reply, .receive c addresses (some reply) ∈ calls →
      reply.type = .get → reply.responseId ∉ t.puts.map Prod.snd)
    (hcalm : ∀ pre c addresses response post u,
      calls = pre ++ .receive c addresses response :: post → run cfg seed pre = .ok u →
        ∀ put ∈ u.puts, Doubles u.client addresses response put.1 put.2 →
          Calm u.client c addresses response put.1 put.2) :
    ∀ put ∈ t.puts, (t.results.countP fun x => x.responseId = put.2) ≤ 1 := by
  rintro ⟨key, id⟩ hput
  have hinitial : AtMostOnce key id { client := initial cfg seed } :=
    ⟨Nat.zero_le 1, fun h => absurd h Nat.zero_ne_one⟩
  have honce : AtMostOnce key id t := by
    refine foldlM_reachable (AtMostOnce key id) ?_ hinitial hrun
    · intro pre a post u u' hsplit hpre hu hcall
      -- what is issued in `u'` is issued at the end
      have hrest : post.foldlM call u' = .ok t := by
        rw [run, hsplit] at hrun
        obtain ⟨v, hv, hrun⟩ := foldlM_append_eq_ok.mp hrun
        rw [hpre] at hv
        cases hv
        obtain ⟨_, hv', hrun⟩ := foldlM_cons_eq_ok.mp hrun
        rw [hcall] at hv'
        cases hv'
        exact hrun
      obtain ⟨hputs, hgets'⟩ := issued_of_foldlM hrest
      have hunique := unique_of_nodup hdistinct hput
      have hrecorded := recorded_of_run hpre
      refine hu.called (call_called hcall) hrecorded ?_ ?_ ?_ ?_
      · exact ⟨fun k hk => hunique.key_eq k (hputs.subset hk),
          fun hget => hunique.notMem_gets (hgets'.subset hget)⟩
      · exact (nodup_append.mp hdistinct).1.sublist (hputs.sublist.map Prod.snd)
      · rintro c addresses reply rfl htype rfl
        refine hgets c addresses reply ?_ htype (mem_map.mpr ⟨_, hput, rfl⟩)
        rw [hsplit]
        exact mem_append_right _ mem_cons_self
      · rintro c addresses response rfl hdoubles
        exact hcalm pre c addresses response post u hsplit hpre (key, id)
          (hrecorded.mem_of_records hdoubles.records_pos) hdoubles
  exact honce.le_one

/-- A client with one routing thread and a timeout of ten seconds. -/
def soloClient : ClientConfig where
  routingThreads := [⟨"10.0.0.9", 0⟩]
  ut := ⟨"10.0.0.7", 0⟩
  timeout := 10000
  randR seed := (0, seed)
  reallocates _ := false

/-- All readings of a call are the same. -/
def readings (now : Int) : Readings :=
  ⟨now, fun _ => now, now, now, fun _ => now, fun _ => now, fun _ _ => now⟩

/-- A PUT that is sent and goes to the wrong thread. -/
def refusedPut : List ClientCall :=
  [.put 0 "k" "v" .lww,
    .receive (readings 0) (some { addresses := [⟨"k", ["tcp://10.0.0.1:6200"]⟩] }) none,
    .receive (readings 0) none (some { type := .put, responseId := "10.0.0.7:0_1",
                                       tuples := [{ key := "k", error := .wrongThread }] })]

/-- The PUT gets another address and is answered. -/
def refusedPutAnswered : List ClientCall :=
  refusedPut ++ [.receive (readings 0) (some { addresses := [⟨"k", ["tcp://10.0.0.2:6200"]⟩] })
      (some { type := .put, responseId := "10.0.0.7:0_1", tuples := [{ key := "k" }] })]

theorem of_run_eq_ok (P : ClientTrace cfg → Prop) [DecidablePred P]
    {x : Except Fault (ClientTrace cfg)} (h : x = .ok t)
    (hx : x.toOption.all P = true) : P t := by
  subst h
  exact of_decide_eq_true hx

/-- A PUT that is refused, and answered by another thread. -/
theorem refused_put_answered_once : ∃ t, run soloClient 0 refusedPutAnswered = .ok t ∧
      ∀ put ∈ t.puts, (t.results.countP fun x => x.responseId = put.2) ≤ 1 := by
  obtain ⟨t, hrun⟩ : ∃ t, run soloClient 0 refusedPutAnswered = .ok t := ⟨_, rfl⟩
  refine ⟨t, hrun, one_result_per_put hrun ?_ ?_ ?_⟩
  · exact of_run_eq_ok (fun t => (t.puts.map Prod.snd ++ t.gets).Nodup) hrun (by decide)
  · intro c addresses _ hmem htype
    -- all answers are to PUTs
    simp only [refusedPutAnswered, refusedPut, cons_append, nil_append, mem_cons,
      ClientCall.receive.injEq, Option.some.injEq, reduceCtorEq, and_false, false_or,
      not_mem_nil, or_false] at hmem
    rcases hmem with ⟨-, -, rfl⟩ | ⟨-, -, rfl⟩ <;> cases htype
  · intro pre c _ _ _ u hsplit hpre
    obtain _ | ⟨_, _ | ⟨_, _ | ⟨_, _ | ⟨_, pre⟩⟩⟩⟩ := pre
    · cases hsplit
    iterate 3
      · cases hsplit
        exact of_run_eq_ok (fun u => ∀ put ∈ u.puts, Doubles u.client _ _ put.1 put.2 →
          Calm u.client _ _ _ put.1 put.2) hpre (by decide)
    · cases pre <;> cases hsplit

/-- A PUT that went to the wrong thread times out both in the queue and in its entry. -/
theorem refused_put_times_out_twice :
    ∃ t, run soloClient 0 (refusedPut ++ [.receive (readings 11000000000) none none]) = .ok t ∧
      (t.puts.map Prod.snd ++ t.gets).Nodup ∧
      ∃ put ∈ t.puts, ¬ (t.results.countP fun x => x.responseId = put.2) ≤ 1 := by
  refine ⟨_, rfl, ?_⟩
  decide

/-! ## PUTs without a result -/

/-- The PUTs without a result are recorded. -/
structure Kept (u : ClientTrace cfg) : Prop where
  cache : NoEmptyAddress u.client
  pending : ∀ put ∈ u.outstanding,
    0 < u.client.copies put.1 put.2 ∨ (u.client.time put.1 put.2).isSome

theorem Kept.called (h : Called u a u') (hu : Kept u) (hrecorded : Recorded u.puts u.gets u.client)
    (hlists : ∀ c addresses response, a = .receive c addresses response →
      Lists u.client addresses) : Kept u' := by
  cases h with
  | put _ key _ _ _ _ request hquiet _ htype htried =>
    obtain ⟨_, _, _, rfl⟩ := hquiet
    refine ⟨NoEmptyAddress.tried ?_ htried, fun put hput => ?_⟩
    · exact hu.cache
    by_cases hown : put = (key, request.requestId)
    · subst hown
      rcases htried.own htype with ⟨hcopies, _⟩ | ⟨_, htime⟩
      · exact .inl (hcopies ▸ Nat.succ_pos _)
      · exact .inr (htime ▸ rfl)
    · obtain ⟨hcopies, htime⟩ := htried.other put.1 put.2 fun h =>
        hown (Prod.ext h.2.1.symm h.2.2.symm)
      rw [hcopies, htime]
      exact hu.pending put ((mem_append.mp hput).resolve_right fun h => hown (mem_singleton.mp h))
  | getAgain => exact hu
  | get _ _ _ _ _ hquiet _ htype htried =>
    obtain ⟨_, _, _, rfl⟩ := hquiet
    refine ⟨NoEmptyAddress.tried ?_ htried, fun put hput => ?_⟩
    · exact hu.cache
    obtain ⟨hcopies, htime⟩ := htried.other put.1 put.2 fun h => h.1 htype
    rw [hcopies, htime]
    exact hu.pending put hput
  | receive c addresses response _ _ hparts =>
    have hlists := hlists c addresses response rfl
    refine ⟨hparts.noEmptyAddress hrecorded hu.cache hlists, fun put hput => ?_⟩
    obtain ⟨hmem, hno⟩ := mem_filter.mp hput
    have hpending := hparts.pending_or_replies hrecorded hu.cache hlists (hu.pending put hmem)
    refine hpending.resolve_right ?_
    rintro ⟨x, hx, hreplies⟩
    rw [any_eq_true.mpr ⟨x, hx, decide_eq_true hreplies⟩] at hno
    cases hno

/-- In a run where the answers of the routing tier list addresses, each PUT without a result
is in the queue of its key or waits for a worker. -/
theorem outstanding_recorded (hrun : run cfg seed calls = .ok t)
    (hlists : ∀ pre c addresses response post u,
      calls = pre ++ .receive c addresses response :: post → run cfg seed pre = .ok u →
        Lists u.client addresses) :
    ∀ put ∈ t.outstanding,
      (∃ request ∈ t.client.queued put.1, request.type = .put ∧ request.requestId = put.2) ∨
        (t.client.entry put.1 put.2).isSome := by
  have hinitial : Kept ({ client := initial cfg seed } : ClientTrace cfg) := by
    refine ⟨fun key hmem => ?_, fun put hput => by cases hput⟩
    rw [initial] at hmem
    exact ExtTreeSet.not_mem_empty hmem
  have hkept : Kept t := by
    refine foldlM_reachable Kept ?_ hinitial hrun
    intro pre a post u _ hsplit hpre hu hcall
    refine hu.called (call_called hcall) (recorded_of_run hpre) ?_
    rintro c addresses response rfl
    exact hlists pre c addresses response post u hsplit hpre
  intro put hput
  rcases hkept.pending put hput with hcopies | htime
  · obtain ⟨request, hmem, hown⟩ := countP_pos_iff.mp hcopies
    exact .inl ⟨request, hmem, of_decide_eq_true hown⟩
  · rw [time, Option.isSome_map] at htime
    exact .inr htime

/-- A PUT that is refused is still recorded. -/
theorem refused_put_recorded :
    ∃ t, run soloClient 0 refusedPut = .ok t ∧ t.outstanding = [("k", "10.0.0.7:0_1")] ∧
      ∀ put ∈ t.outstanding,
        (∃ request ∈ t.client.queued put.1, request.type = .put ∧ request.requestId = put.2) ∨
          (t.client.entry put.1 put.2).isSome := by
  obtain ⟨t, hrun⟩ : ∃ t, run soloClient 0 refusedPut = .ok t := ⟨_, rfl⟩
  refine ⟨t, hrun, ?_, outstanding_recorded hrun ?_⟩
  · exact of_run_eq_ok (fun t => t.outstanding = [("k", "10.0.0.7:0_1")]) hrun (by decide)
  · intro pre c _ _ _ u hsplit hpre
    obtain _ | ⟨_, _ | ⟨_, _ | ⟨_, pre⟩⟩⟩ := pre
    · cases hsplit
    · cases hsplit
      exact of_run_eq_ok (fun u => Lists u.client _) hpre (by decide)
    · cases hsplit
      exact of_run_eq_ok (fun u => Lists u.client _) hpre (by decide)
    · cases pre <;> cases hsplit

/-- An answer without addresses makes the client forget the PUT that asked for them. -/
theorem put_without_addresses_forgotten : ∃ t, run soloClient 0 [.put 0 "k" "v" .lww,
        .receive (readings 0) (some { addresses := [⟨"k", []⟩] }) none] = .ok t ∧
      t.results = [] ∧ ∃ put ∈ t.outstanding,
        ¬ ((∃ request ∈ t.client.queued put.1, request.type = .put ∧ request.requestId = put.2) ∨
          (t.client.entry put.1 put.2).isSome) := by
  refine ⟨_, rfl, ?_⟩
  decide

end ClientTrace

/-! ## Request ids -/

namespace KvsClient
variable {cfg : ClientConfig} {s : KvsClient cfg}

/-- The ids of that many calls of `get_request_id`. -/
def requestIds (s : KvsClient cfg) : Nat → List String
  | 0 => []
  | n + 1 => s.getRequestId.1 :: s.getRequestId.2.requestIds n

/-- The counter is even before every call: the number of the id is odd, and the counter is not
reset. -/
theorem getRequestId_even {k : Nat} (h : s.rid = UInt32.ofNat (2 * k)) :
    s.getRequestId.1 = cfg.ut.ip ++ ":" ++ toString cfg.ut.tid ++ "_" ++
        toString ((2 * k + 1) % 2 ^ 32) ∧
      s.getRequestId.2.rid = UInt32.ofNat (2 * (k + 1)) := by
  have hnext : s.rid + 1 = UInt32.ofNat (2 * k + 1) := by rw [h, UInt32.ofNat_add]; rfl
  have hodd : ¬ (s.rid + 1) % 10000 = 0 := fun hreset => by
    have hmod := congrArg UInt32.toNat hreset
    rw [hnext, UInt32.toNat_mod, UInt32.toNat_ofNat'] at hmod
    change (2 * k + 1) % 2 ^ 32 % 10000 = 0 at hmod
    omega
  rw [getRequestId, if_neg hodd, hnext]
  exact ⟨by rw [UInt32.toNat_ofNat'], (UInt32.ofNat_add (2 * k + 1) 1).symm⟩

theorem requestIds_eq {k : Nat} (h : s.rid = UInt32.ofNat (2 * k)) (n : Nat) :
    s.requestIds n = (List.range' k n).map fun i =>
      cfg.ut.ip ++ ":" ++ toString cfg.ut.tid ++ "_" ++ toString ((2 * i + 1) % 2 ^ 32) := by
  induction n generalizing s k with
  | zero => rfl
  | succ _ ih =>
    rw [requestIds, (getRequestId_even h).1, ih (getRequestId_even h).2]
    rfl

/-- **Request ids are unique**: the counter comes around after `2 ^ 31` calls. -/
theorem requestIds_nodup (s : KvsClient cfg) (hrid : s.rid = 0) {n : Nat} (hn : n < 2 ^ 31) :
    (s.requestIds n).Nodup := by
  rw [requestIds_eq (k := 0) hrid]
  refine List.Nodup.map_on (fun i hi j hj h => ?_) nodup_range'
  have hnumbers : toString ((2 * i + 1) % 2 ^ 32) = toString ((2 * j + 1) % 2 ^ 32) := by
    have hchars := congrArg String.toList h
    simp only [String.toList_append] at hchars
    exact String.toList_injective (append_cancel_left hchars)
  have hmod := Lib.Text.toString_injective hnumbers
  rw [mem_range'_1] at hi hj
  omega

/-- Three requests of a new client. -/
theorem requestIds_nodup_three : ∃ s : KvsClient ClientTrace.soloClient, (s.requestIds 3).Nodup :=
  ⟨initial _ 0, requestIds_nodup (initial _ 0) rfl (by decide)⟩
end KvsClient

end Testbed.Anna
