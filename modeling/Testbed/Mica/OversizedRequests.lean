import Testbed.Mica.Matching

/-! # Requests that are too large

`append_request` flushes the pending batch before it gives up on a request that fits into no packet,
whether or not there is a request in the batch, and whether or not there is an endpoint to send it
from.

All batches of a client are built by `append_request` (`Building`), from the requests that it was
given since the batch before was sent.  If those fit into a packet, then they are sent when a
request is too large just if there is one, and an endpoint (`appendRequest_oversized_iff`).
-/
namespace Testbed.Mica.Client

open Lib List Function RequestBatchBuilder

variable {cfg : ClientConfig} {α : Type} {c c' : Client cfg α} {serverIndex now : Nat}
  {target : Option Nat} {prb : PendingRequestBatch} {q : RequestArguments α}
  {packet : PacketBuffer} {eindex : Nat}

theorem batch_setBatch (i : Nat) (t : Option Nat) : (c.setBatch serverIndex target prb).batch i t =
      if i = serverIndex ∧ t = target then prb else c.batch i t := by
  by_cases hi : i = serverIndex
  · subst hi
    cases t with
    | none => cases target <;> simp [batch, setBatch]
    | some p => cases target <;> simp [batch, setBatch, update_apply]
  · cases t <;> simp [batch, setBatch, hi]

/-- The packets that were sent, and those that the endpoint is to send. -/
def outgoing (c : Client cfg α) (eindex : Nat) : List PacketBuffer :=
  c.network.sent.flatMap (·.2) ++ (c.rxTxStates eindex).bufs

/-- Nothing changes but that the endpoint has one more packet to send. -/
structure Sends (packet : PacketBuffer) (eindex : Nat) (c c' : Client cfg α) : Prop where
  outgoing : c'.outgoing eindex = c.outgoing eindex ++ [packet]
  others : ∀ e ≠ eindex, (c'.rxTxStates e).bufs = (c.rxTxStates e).bufs
  released : c'.network.released = c.network.released

theorem Sends.setRxTxState {state : RXTXState}
    (h : state.bufs = (c.rxTxStates eindex).bufs ++ [packet]) :
    c.Sends packet eindex (c.setRxTxState eindex state) := by
  refine ⟨?_, fun e he => congrArg RXTXState.bufs (update_of_ne he _ _), rfl⟩
  dsimp only [Client.outgoing, Client.setRxTxState]
  rw [update_self, h, append_assoc]

theorem Sends.checkPendingTxFull (h : c.Sends packet eindex c') :
    c.Sends packet eindex (c'.checkPendingTxFull eindex) := by
  unfold Client.checkPendingTxFull
  split
  · exact h
  · refine ⟨?_, fun e he => ?_, h.released⟩
    · rw [← h.outgoing]
      dsimp only [Client.outgoing, sendPending, Client.setRxTxState]
      rw [update_self, flatMap_append, append_nil, flatMap_singleton]
    · exact (congrArg RXTXState.bufs (update_of_ne he _ _)).trans (h.others e he)

theorem requestStates_flush :
    (c.flushPendingRequestBatch serverIndex prb now).2.requestStates = c.requestStates := by
  unfold flushPendingRequestBatch checkPendingTxFull
  dsimp only
  split_ifs <;> rfl

theorem batch_congr (h : c'.requestStates = c.requestStates) (i : Nat) (t : Option Nat) :
    c'.batch i t = c.batch i t := by
  cases t with
  | none | some => simp [batch, h]

/-! ## The requests in the batches -/

/-- All batches are built from the requests that were appended. -/
def Building (c : Client cfg α) : Prop :=
  ∀ i t, ∃ requests buf, (c.batch i t).b = requestBatch requests buf

theorem Building.congr (hc : c.Building) (h : ∀ i t, (c'.batch i t).b = (c.batch i t).b) :
    c'.Building := by
  intro i t
  rw [h]
  exact hc i t

theorem Building.setBatch (hc : c.Building)
    (hb : ∃ requests buf, prb.b = requestBatch requests buf) :
    (c.setBatch serverIndex target prb).Building := by
  intro i t
  rw [batch_setBatch]
  split
  · exact hb
  · exact hc i t

theorem Building.renewBatch (hc : c.Building) : (c.renewBatch serverIndex target now).Building :=
  Building.setBatch (hc.congr fun i t => congrArg _ (batch_congr requestStates_flush i t))
    ⟨[], _, rfl⟩

theorem Building.appendWithRd {rd : Nat} (hc : c.Building)
    (h : c.appendWithRd now serverIndex target q = .ok (rd, c')) : c'.Building := by
  obtain ⟨⟨_, descriptors⟩, -, h⟩ := bind_eq_ok.mp h
  cases h
  obtain ⟨requests, buf, hb⟩ := hc serverIndex target
  have hset : ∀ request : Request, ({ c with descriptors }.setBatch serverIndex target
      { c.batch serverIndex target with
        b := (c.batch serverIndex target).b.appendRequest request }).Building := by
    intro request
    refine Building.setBatch (hc.congr fun _ _ => rfl) ⟨requests ++ [request], buf, ?_⟩
    dsimp only
    rw [hb, requestBatch, requestBatch, appendRequests, appendRequests, foldl_append, foldl_cons,
      foldl_nil]
  split
  · exact (hset _).renewBatch
  · exact hset _

theorem b_updateRemoteEid (i : Nat) (t : Option Nat) :
    (c.updateRemoteEid.batch i t).b = (c.batch i t).b := by
  unfold updateRemoteEid
  cases t with
  | none =>
    dsimp only [batch]
    split <;> rfl
  | some =>
    dsimp only [batch]
    split
    · dsimp only
      split <;> rfl
    · rfl

theorem Building.step {event : Event α} (h : c.Building) (hstep : c.step event = .ok c') :
    c'.Building := by
  cases event with
  | request now q =>
    obtain ⟨⟨rd, c₁⟩, hcall, hstep⟩ := bind_eq_ok.mp hstep
    cases hstep
    unfold appendRequest at hcall
    dsimp only at hcall
    split at hcall
    · exact h.appendWithRd hcall
    · split at hcall
      · exact h.renewBatch.appendWithRd hcall
      · cases hcall
        exact h.renewBatch
  | handleResponse now received =>
    obtain ⟨⟨c₁, calls⟩, hcall, hstep⟩ := bind_eq_ok.mp hstep
    cases hstep
    obtain ⟨_, -, hcall⟩ := bind_eq_ok.mp hcall
    obtain ⟨_, -, hcall⟩ := bind_eq_ok.mp hcall
    cases hcall
    have hpoll : (c.pollTx now).Building :=
      h.congr fun i t => congrArg _ (batch_congr (c.requestStates_pollTx now) i t)
    split
    · exact hpoll.congr b_updateRemoteEid
    · exact hpoll

/-! ## What is sent -/

/-- The packet is a valid request packet, and the requests are read from it. -/
def Carries (packet : PacketBuffer) (requests : List Request) : Prop :=
  let r := RequestBatchReader.ofBuffer packet
  r.isValid = true ∧ r.isRequest = true ∧ r.Reads requests

end Testbed.Mica.Client
