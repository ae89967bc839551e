import Testbed.Anna.RequestHandlers
import Testbed.Anna.SmallClusters

/-! # Which PUTs an answer acknowledges

Both request handlers log a PUT without a lattice type, and a PUT whose type is not
the one its key is stored with, and go on; the response tuple keeps protobuf's
default error, `NO_ERROR`.  So an answer without an error means that the payload
was merged exactly for the PUTs that the thread `Accepts`
(`acknowledged_put_applied_iff`); `acknowledged_put_dropped` is an instance of the
failure.
-/
namespace Testbed.Anna

open Std Lib

namespace ServerState
variable {srv : Server}

/-- The store of `s'` is that of `s` with the payload merged into the key, by the
serializer of the type. -/
def Applied (s s' : ServerState srv) (key : Key) (type : LatticeType) (payload : String) : Prop :=
  ∃ serializer, srv.serializers.at type = .ok serializer ∧
    s'.store = (serializer.put s.store key payload).2

variable (s : ServerState srv)

/-- A PUT that is not dropped: it has a type, and the key is not stored with
another one, or else merging the payload would change nothing. -/
def Accepts (key : Key) (type : LatticeType) (payload : String) : Prop :=
  type ≠ .none ∧ (s.typeMismatch key type = false ∨ s.Applied s key type payload)

/-- In the call of `user_request_handler` the tuple is answered by `tp`, in a step
from `s₁` to `s₂`. -/
def AnswersTuple (now : Nat) (request : KeyRequest) (tuple : KeyTuple)
    (s₁ s₂ : ServerState srv) (tp : KeyTuple) : Prop :=
  ∃ pre post answered, request.tuples = pre ++ tuple :: post ∧
    pre.foldlM (userRequestTuple now request) (s, []) = .ok (s₁, answered) ∧
    userRequestTuple now request (s₁, answered) tuple = .ok (s₂, answered ++ [tp])

/-- In the call of `replication_response_handler` for the response tuple
`factors`, the waiting request is answered by `tp`, in a step from `s₁` to `s₂`. -/
def AnswersPending (now : Nat) (factors : KeyTuple)
    (request : PendingRequest) (s₁ s₂ : ServerState srv) (tp : KeyTuple) : Prop :=
  ∃ pre post lookup, (s.learnFactors factors).pendingRequests[getKeyFromMetadata factors.key]? =
      some (pre ++ request :: post) ∧
    (s.learnFactors factors).getResponsibleThreads (getKeyFromMetadata factors.key)
      [srv.selfTier] = .ok lookup ∧
    lookup.succeed = true ∧
    pre.foldlM (completeRequest now (getKeyFromMetadata factors.key) (srv.wt.isIn lookup.threads))
      ((s.learnFactors factors).afterLookup lookup) = .ok s₁ ∧
    completeRequest now (getKeyFromMetadata factors.key) (srv.wt.isIn lookup.threads) s₁ request =
      .ok s₂ ∧
    s₂.sent = s₁.sent ++ [pendingResponse request tp]

/-! ## PUT in the two handlers -/

variable {s s' : ServerState srv} {now : Nat} {tp : KeyTuple}

theorem not_applied_none {key : Key} {payload : String} : ¬ s.Applied s' key .none payload := by
  rintro ⟨_, hat, -⟩
  rw [SerializerMap.at, srv.serializers.entry_eq_none.mpr rfl] at hat
  cases hat

theorem PutResult.applied_iff {key : Key} {type reported : LatticeType} {payload : String}
    (h : PutResult s key type payload s' reported) :
    s.Applied s' key type payload ↔ s.Accepts key type payload := by
  cases h with
  | untyped htype =>
    subst htype
    exact ⟨fun happ => absurd happ not_applied_none, fun hacc => absurd rfl hacc.1⟩
  | mismatch htype hstored =>
    exact ⟨fun happ => ⟨htype, Or.inr happ⟩, fun hacc => hacc.2.resolve_left (by simp [hstored])⟩
  | merged htype hstored hput =>
    obtain ⟨serializer, hat, hput⟩ := bind_eq_ok.mp hput
    cases hput
    exact ⟨fun _ => ⟨htype, Or.inl hstored⟩, fun _ => ⟨serializer, hat, rfl⟩⟩

theorem userServe_put {threads : List ServerThread} {tuple : KeyTuple}
    (h : s.userServe now .put threads tuple = .ok (s', tp)) :
    tp.error = .noError ∧ (s.Applied s' tuple.key tuple.latticeType tuple.payload ↔
        s.Accepts tuple.key tuple.latticeType tuple.payload) := by
  obtain ⟨⟨_, _⟩, hput, h⟩ := bind_eq_ok.mp h
  cases h
  obtain ⟨_, hresult, rfl⟩ := userPut_result hput
  refine ⟨?_, hresult.applied_iff⟩
  split <;> rfl

theorem AnswersTuple.applied_iff {s₁ s₂ : ServerState srv} {request : KeyRequest}
    {tuple : KeyTuple} (h : s.AnswersTuple now request tuple s₁ s₂ tp)
    (hput : request.type = .put) :
    (tp.error = .noError → s₁.Applied s₂ tuple.key tuple.latticeType tuple.payload) ↔
      (s₁.Responsible tuple.key → s₁.Accepts tuple.key tuple.latticeType tuple.payload) := by
  obtain ⟨_, _, _, -, -, hstep⟩ := h
  obtain ⟨lookup, hlookup, hserve | hwrong | hpend⟩ := userRequestTuple_cases hstep
  · obtain ⟨hsucceed, hin, tp', hserve, htp⟩ := hserve
    obtain rfl : tp = tp' := by simpa using htp
    rw [hput] at hserve
    obtain ⟨herror, hiff⟩ := userServe_put hserve
    -- the lookup changes neither the store nor the stored types
    change (tp.error = .noError → (s₁.afterLookup lookup).Applied s₂ _ _ _) ↔
      (_ → (s₁.afterLookup lookup).Accepts _ _ _)
    have hresp : s₁.Responsible tuple.key := ⟨lookup, hlookup, hsucceed, hin⟩
    simp only [herror, hresp, hiff, true_imp_iff]
  · obtain ⟨_, hin, -, -, htp⟩ := hwrong
    obtain rfl : tp = _ := by simpa using htp
    simp [not_responsible hlookup hin]
  · -- a tuple that waits is not answered
    obtain ⟨_, -, hsame, -⟩ := hpend
    simp at hsame

theorem AnswersPending.applied_iff {s₁ s₂ : ServerState srv} {factors : KeyTuple}
    {request : PendingRequest} (h : s.AnswersPending now factors request s₁ s₂ tp)
    (hput : request.type = .put) :
    (tp.error = .noError →
        s₁.Applied s₂ (getKeyFromMetadata factors.key) request.latticeType request.payload) ↔
      ((s.learnFactors factors).Responsible (getKeyFromMetadata factors.key) →
        s₁.Accepts (getKeyFromMetadata factors.key) request.latticeType request.payload) := by
  obtain ⟨_, _, lookup, -, hlookup, hsucceed, -, hstep, hsent⟩ := h
  obtain ⟨hin, haddr, hwrong⟩ | ⟨hin, haddr, hsilent⟩ | ⟨hin, haddr, s', tp', hserve, hsend⟩ |
    ⟨hin, haddr, hnone⟩ := completeRequest_cases hstep
  · subst hwrong
    obtain rfl := pendingResponse_inj (List.singleton_inj.mp (List.append_cancel_left hsent))
    simp [not_responsible hlookup hin]
  · rw [(pendingSilent_works hsilent).silent.1.1] at hsent
    simp at hsent
  · rw [pendingProcess, hput] at hserve
    obtain ⟨_, hresult, htp⟩ := pendingPut_result hserve
    have hsent' : s₂.sent = s₁.sent ++ [pendingResponse request tp'] := by
      rw [hsend, ← hresult.works.silent.1.1]
      rfl
    obtain rfl := pendingResponse_inj
      (List.singleton_inj.mp (List.append_cancel_left (hsent.symm.trans hsent')))
    have herror : tp.error = .noError := by rw [htp]
    have happ : s₁.Applied s₂ (getKeyFromMetadata factors.key) request.latticeType
        request.payload ↔ s₁.Applied s' (getKeyFromMetadata factors.key) request.latticeType
        request.payload := by
      rw [hsend]
      rfl
    have hresp : (s.learnFactors factors).Responsible (getKeyFromMetadata factors.key) :=
      ⟨lookup, hlookup, hsucceed, hin⟩
    simp only [herror, hresp, true_imp_iff, happ, hresult.applied_iff]
  · subst hnone
    simp at hsent

end ServerState

open ServerState

/-- **What an acknowledged PUT means.**  In every call of `user_request_handler`
with a PUT, and of `replication_response_handler` for a waiting PUT, an answer
without an error means that the payload was merged, iff the thread accepts the
PUT or is not responsible for its key (and then the answer has an error). -/
theorem acknowledged_put_applied_iff {srv : Server} (s : ServerState srv) (now : Nat) :
    (∀ request tuple s₁ s₂ tp, request.type = .put → s.AnswersTuple now request tuple s₁ s₂ tp →
      ((tp.error = .noError → s₁.Applied s₂ tuple.key tuple.latticeType tuple.payload) ↔
        (s₁.Responsible tuple.key → s₁.Accepts tuple.key tuple.latticeType tuple.payload))) ∧
    (∀ factors request s₁ s₂ tp, request.type = .put →
      s.AnswersPending now factors request s₁ s₂ tp →
      ((tp.error = .noError →
          s₁.Applied s₂ (getKeyFromMetadata factors.key) request.latticeType request.payload) ↔
        ((s.learnFactors factors).Responsible (getKeyFromMetadata factors.key) →
          s₁.Accepts (getKeyFromMetadata factors.key) request.latticeType request.payload))) :=
  ⟨fun _ _ _ _ _ hput h => h.applied_iff hput, fun _ _ _ _ _ hput h => h.applied_iff hput⟩

section
variable {D : Type} [Priority D] (codecs : ValueCodecs D) (repCodec : Codec ReplicationFactor)

/-- A node on its own that keeps the one replica of the key `"k"`. -/
def keeperOfK : ServerState (soloServer codecs repCodec) :=
  soloState codecs repCodec
    ((∅ : ExtTreeMap Key KeyReplication).insert "k" ⟨fun _ => some 1, fun _ => some 1⟩)

theorem keeperOfK_answers (tuple : KeyTuple)
    {s' : ServerState (soloServer codecs repCodec)} (hkey : tuple.key = "k")
    (hserve : (keeperOfK codecs repCodec).userServe 0 .put [⟨"A", "a", 0, 0⟩] tuple =
      .ok (s', tp)) :
    (keeperOfK codecs repCodec).AnswersTuple 0 { type := .put, tuples := [tuple] } tuple
      (keeperOfK codecs repCodec) s' tp := by
  have hlookup : (keeperOfK codecs repCodec).getResponsibleThreads tuple.key [.memory] =
      .ok ⟨[⟨"A", "a", 0, 0⟩], true, 0, []⟩ := by
    rw [hkey]
    exact soloState_lookup codecs repCodec (by decide) ExtTreeMap.getElem?_insert_self rfl rfl
  have hin : (ServerThread.mk "A" "a" 0 0).isIn [⟨"A", "a", 0, 0⟩] = true := by decide
  exact ⟨[], [], [], rfl, rfl, userRequestTuple_of_serve hlookup rfl hin hserve⟩

end

/-- A node on its own merges a PUT of a fresh key. -/
theorem acknowledged_put_merged : ∃ (srv : Server) (s s' : ServerState srv) (tp : KeyTuple),
      s.AnswersTuple 0 { type := .put, tuples := [{ key := "k", latticeType := .lww }] }
        { key := "k", latticeType := .lww } s s' tp ∧
      tp.error = .noError ∧ s.Applied s' "k" .lww "" := by
  obtain ⟨codecs, repCodec⟩ := exists_codecs
  have hanswers := keeperOfK_answers codecs repCodec
    { key := "k", latticeType := .lww } rfl rfl
  exact ⟨_, _, _, _, hanswers, rfl,
    ((acknowledged_put_applied_iff _ 0).1 _ _ _ _ _ rfl hanswers).mpr
      (fun _ => ⟨by decide, Or.inl rfl⟩) rfl⟩

/-- A node on its own acknowledges a PUT without a lattice type, and drops it. -/
theorem acknowledged_put_dropped :
    ¬ ∀ (srv : Server) (s s₁ s₂ : ServerState srv) (now : Nat) (request : KeyRequest)
      (tuple tp : KeyTuple), request.type = .put → s.AnswersTuple now request tuple s₁ s₂ tp →
      tp.error = .noError → s₁.Applied s₂ tuple.key tuple.latticeType tuple.payload := by
  intro h
  obtain ⟨codecs, repCodec⟩ := exists_codecs
  have hanswers := keeperOfK_answers codecs repCodec { key := "k" } rfl rfl
  exact not_applied_none (h _ _ _ _ _ _ _ _ rfl hanswers rfl)

end Testbed.Anna
