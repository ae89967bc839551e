import Testbed.Mica.Batches
import Testbed.Mica.Descriptors

/-! # Clients

`mica/datagram/datagram_client_impl.h`, one lcore: `append_request` puts a request into the pending
batch of a server or of a partition and takes a descriptor for it, and `handle_response` calls the
response handler for the responses that have come and for the requests that are overdue.
-/
namespace Testbed.Mica

open Lib

/-- `rte_cpu_to_be_32`. -/
def swap32 (v : Nat) : Nat := swap16 v * 2 ^ 16 + swap16 (v / 2 ^ 16)

/-! ## The state of a client -/

/-- `EndpointInfo` of the network. -/
structure EndpointInfo where
  macAddr : Nat
  ipv4Addr : Nat
  udpPort : Nat

structure ServerEndpointInfo where
  macAddr : Nat
  ipv4Addr : Nat
  udpPort : Nat
  ownerLcoreId : Nat

/-- A server; of a partition only the owner matters. -/
structure Server where
  concurrentRead : Bool
  concurrentWrite : Bool
  partitionCount : Nat
  endpointCount : Nat
  endpoints : Nat → ServerEndpointInfo
  partitions : Nat → Nat

structure PendingRequestBatch where
  b : RequestBatchBuilder
  remoteEidIndex : Nat
  roundRobin : Bool

/-- The requests for a server that are not sent yet: those for concurrent access, and those for
each partition. -/
structure RequestState where
  localEidIndex : Nat → Nat
  c : PendingRequestBatch
  e : Nat → PendingRequestBatch

/-- The packets that a local endpoint is to send. -/
structure RXTXState where
  eid : Nat
  bufs : List PacketBuffer
  oldestTime : Nat

/-- The network hands out buffers, and it is told to send some and to take others back. -/
structure Network where
  /-- What the buffer holds that a call of `allocate` returns, by the number of the call. -/
  buffers : Nat → PacketBuffer
  allocated : Nat
  sent : List (Nat × List PacketBuffer)
  released : List PacketBuffer

/-- The client with the `ThreadState` of an lcore. -/
structure Client (cfg : ClientConfig) (α : Type) where
  servers : Nat → Server
  serverCount : Nat
  endpointInfo : Nat → EndpointInfo
  network : Network
  descriptors : Descriptors cfg α
  rxTxStates : Nat → RXTXState
  endpointCount : Nat
  requestStates : Nat → RequestState
  needToUpdateRemoteEid : Bool

namespace Client
variable {cfg : ClientConfig} {α : Type}

/-! ## Sending -/

variable (c : Client cfg α) (eindex : Nat)

def setRxTxState (state : RXTXState) : Client cfg α :=
  { c with rxTxStates := Function.update c.rxTxStates eindex state }

def release (buf : PacketBuffer) : Client cfg α :=
  { c with network := { c.network with released := c.network.released ++ [buf] } }

/-- All pending packets of the endpoint are sent. -/
def sendPending : Client cfg α :=
  let state := c.rxTxStates eindex
  let c := c.setRxTxState eindex { state with bufs := [] }
  { c with network := { c.network with sent := c.network.sent ++ [(state.eid, state.bufs)] } }

def checkPendingTxFull : Client cfg α :=
  if (c.rxTxStates eindex).bufs.length < cfg.kTXBurst then c else c.sendPending eindex

def checkPendingTxMin : Client cfg α :=
  if (c.rxTxStates eindex).bufs.length < cfg.kTXMinBurst then c else c.sendPending eindex

def checkPendingTxTimeout (eindex now : Nat) : Client cfg α :=
  let state := c.rxTxStates eindex
  if state.bufs.length = 0 then c
  else if sub64 now state.oldestTime < cfg.c1Usec * cfg.kTXBurstTimeout % 2 ^ 64 then c
  else c.sendPending eindex

variable (serverIndex : Nat)

/-- `flush_pending_request_batch`: the batch as it is then, and the client. -/
def flushPendingRequestBatch (prb : PendingRequestBatch)
    (now : Nat) : PendingRequestBatch × Client cfg α :=
  if prb.remoteEidIndex = cfg.kMaxEndpointsPerServer then (prb, c.release prb.b.buf)
  else
    let eindex := (c.requestStates serverIndex).localEidIndex prb.remoteEidIndex
    if eindex = cfg.kMaxEndpointsPerServer then (prb, c.release prb.b.buf)
    else
      let s := c.servers serverIndex
      let sei := s.endpoints prb.remoteEidIndex
      let state := c.rxTxStates eindex
      let info := c.endpointInfo state.eid
      let packet := prb.b.finish
        { srcMacAddr := info.macAddr
          destMacAddr := sei.macAddr
          srcIpv4Addr := swap32 info.ipv4Addr
          destIpv4Addr := swap32 sei.ipv4Addr
          srcUdpPort := swap16 info.udpPort
          destUdpPort := swap16 sei.udpPort } false
      let oldestTime := if state.bufs.length = 0 then now else state.oldestTime
      let c := c.setRxTxState eindex { state with bufs := state.bufs ++ [packet], oldestTime }
      let remoteEidIndex := (prb.remoteEidIndex + 1) % 2 ^ 16
      let prb :=
        if prb.roundRobin then
          { prb with
            remoteEidIndex := if remoteEidIndex = s.endpointCount then 0 else remoteEidIndex }
        else prb
      (prb, c.checkPendingTxFull eindex)

def makeNewPendingRequestBatch (prb : PendingRequestBatch) : PendingRequestBatch × Client cfg α :=
  ({ prb with b := .ofBuffer (c.network.buffers c.network.allocated) },
    { c with network := { c.network with allocated := c.network.allocated + 1 } })

/-! ## Requests -/

def calcServerIndex (keyHash serverCount : Nat) : Nat := keyHash / 2 ^ 32 % 2 ^ 16 % serverCount

def calcPartitionId (keyHash partitionCount : Nat) : Nat := keyHash / 2 ^ 48 % partitionCount

/-- Whether the request may go to any endpoint of the server. -/
def spreadRequest (cfg : ClientConfig) (s : Server) (operation : Operation) : Bool :=
  if cfg.kIgnoreServerPartition then true
  else
    match operation with
    | .kNoopRead | .kGet | .kTest => s.concurrentRead
    | _ => s.concurrentWrite

/-- The pending batch that `prb` points to: that for concurrent access, or that of a partition. -/
def batch : Option Nat → PendingRequestBatch
  | none => (c.requestStates serverIndex).c
  | some partitionId => (c.requestStates serverIndex).e partitionId

def setBatch (target : Option Nat) (prb : PendingRequestBatch) : Client cfg α :=
  let state := c.requestStates serverIndex
  let state :=
    match target with
    | none => { state with c := prb }
    | some partitionId => { state with e := Function.update state.e partitionId prb }
  { c with requestStates := Function.update c.requestStates serverIndex state }

/-- The batch is flushed, and there is a new one. -/
def renewBatch (target : Option Nat) (now : Nat) : Client cfg α :=
  let (prb, c) := c.flushPendingRequestBatch serverIndex (c.batch serverIndex target) now
  let (prb, c) := c.makeNewPendingRequestBatch prb
  c.setBatch serverIndex target prb

/-- What a member function passes to `append_request`. -/
structure RequestArguments (α : Type) where
  operation : Operation
  keyHash : Nat
  key : Buffer
  keyLength : Nat
  value : Buffer
  valueLength : Nat
  arg : α

/-- The batch for the request. -/
def targetOf (cfg : ClientConfig) (s : Server) (q : RequestArguments α) : Option Nat :=
  if spreadRequest cfg s q.operation then none
  else some (calcPartitionId q.keyHash s.partitionCount)

/-- `append_request` with the descriptor: the request is appended, and a full batch is sent. -/
def appendWithRd (now serverIndex : Nat) (target : Option Nat)
    (q : RequestArguments α) : Except Fault (Nat × Client cfg α) := do
  let (rd, descriptors) ← c.descriptors.allocateRd now q.arg
  let c := { c with descriptors }
  let prb := c.batch serverIndex target
  let b := prb.b.appendRequest
    { operation := q.operation
      result := .kSuccess
      opaqueNumber := rd * 2 ^ 16 + descriptors.epoch rd
      keyHash := q.keyHash
      key := q.key
      keyLength := q.keyLength
      value := q.value
      valueLength := q.valueLength }
  let c := c.setBatch serverIndex target { prb with b }
  return (rd, if cfg.kMaxRequestBatchSize ≤ b.count then c.renewBatch serverIndex target now else c)

def appendRequest (now : Nat) (q : RequestArguments α) : Except Fault (Nat × Client cfg α) :=
  let serverIndex := calcServerIndex q.keyHash c.serverCount
  let target := targetOf cfg (c.servers serverIndex) q
  if (c.batch serverIndex target).b.hasSufficientSpace q.keyLength q.valueLength then
    c.appendWithRd now serverIndex target q
  else
    let c := c.renewBatch serverIndex target now
    if (c.batch serverIndex target).b.hasSufficientSpace q.keyLength q.valueLength then
      c.appendWithRd now serverIndex target q
    else .ok (kNullRD, c)

/-! ## Responses -/

/-- The first endpoint from the beginning whose lcore owns the partition, apart from the one that is
in use. -/
def newRemoteEidIndex (s : Server) (partitionId remoteEidIndex : Nat) : Nat :=
  ((List.range s.endpointCount).find? fun remoteEindex =>
    (s.endpoints remoteEindex).ownerLcoreId = s.partitions partitionId ∧
      remoteEidIndex ≠ remoteEindex).getD remoteEidIndex

def updateRemoteEid : Client cfg α :=
  { c with
    requestStates := fun serverIndex =>
      let s := c.servers serverIndex
      let state := c.requestStates serverIndex
      if serverIndex < c.serverCount then
        { state with
          e := fun partitionId =>
            let prb := state.e partitionId
            if partitionId < s.partitionCount then
              { prb with remoteEidIndex := newRemoteEidIndex s partitionId prb.remoteEidIndex }
            else prb }
      else state }

end Client

/-- The descriptor that the opaque number names. -/
def RequestBatchReader.getRd (r : RequestBatchReader) : Nat := r.getOpaque / 2 ^ 16 % 2 ^ 16

/-- The epoch in the opaque number. -/
def RequestBatchReader.getEpoch (r : RequestBatchReader) : Nat := r.getOpaque % 2 ^ 16

/-- A call of the response handler, with the descriptors as they are when it is called.  `record`
is the number of the response among those of the call of `handle_response`. -/
structure HandlerCall (cfg : ClientConfig) (α : Type) where
  descriptors : Descriptors cfg α
  record : Option Nat
  rd : Nat
  result : Nat
  value : Option Buffer
  valueLength : Nat
  arg : α

namespace HandlerCall
variable {cfg : ClientConfig} {α : Type}

/-- The call for a response. -/
def ofResponse (s : Descriptors cfg α) (r : RequestBatchReader) (record : Nat) :
    HandlerCall cfg α where
  descriptors := s
  record := some record
  rd := r.getRd
  result := r.getResult
  value := some r.getValue
  valueLength := r.getValueLength
  arg := s.arg r.getRd

/-- The call for the first active request when it has timed out. -/
def timedOut (s : Descriptors cfg α) : HandlerCall cfg α where
  descriptors := s
  record := none
  rd := s.rdActiveFirst
  result := Result.kTimedOut.code
  value := none
  valueLength := 0
  arg := s.arg s.rdActiveFirst

end HandlerCall

namespace Descriptors
variable {cfg : ClientConfig} {α : Type}

/-- What `handle_response` does with a record of a response. -/
def handleRecord (acc : Descriptors cfg α × List (HandlerCall cfg α))
    (record : RequestBatchReader × Nat) :
    Except Fault (Descriptors cfg α × List (HandlerCall cfg α)) :=
  let s := acc.1
  let r := record.1
  let rd := r.getRd
  if cfg.kMaxOutstandingRequestCount ≤ rd then .ok acc
  else if s.epoch rd ≠ r.getEpoch then .ok acc
  else do
    let call := HandlerCall.ofResponse s r record.2
    let s ← s.releaseRd rd
    return (s, acc.2 ++ [call])

/-- The first active descriptor is to be released; the time since it expired is a signed number. -/
def overdue (s : Descriptors cfg α) (now : Nat) : Bool :=
  cfg.kSkipRX || decide (sub64 now (s.expireTime s.rdActiveFirst) < 2 ^ 63)

/-- The loop of `handle_response` over the requests that have timed out. -/
def expire (now : Nat) : Nat → Descriptors cfg α × List (HandlerCall cfg α) →
    Except Fault (Descriptors cfg α × List (HandlerCall cfg α))
  | 0, _ => .error .nonTermination
  | fuel + 1, (s, calls) =>
    let rd := s.rdActiveFirst
    if rd = kNullRD then .ok (s, calls)
    else if cfg.kMaxOutstandingRequestCount ≤ rd then .error .invalidPointer
    else if s.overdue now then do
      let call := HandlerCall.timedOut s
      let s ← s.releaseRd rd
      expire now fuel (s, calls ++ [call])
    else .ok (s, calls)

end Descriptors

namespace Client
variable {cfg : ClientConfig} {α : Type}

/-- The records of a packet that is a valid response. -/
def responsesOf (buf : PacketBuffer) : List RequestBatchReader :=
  let r := RequestBatchReader.ofBuffer buf
  if !r.isValid || !r.isResponse then [] else RequestBatchReader.requestsOf buf

variable (c : Client cfg α)

/-- All records of the packets that `handle_response` receives, endpoint by endpoint. -/
def responses (received : Nat → List PacketBuffer) : List RequestBatchReader :=
  if cfg.kSkipRX then []
  else (List.range c.endpointCount).flatMap fun eindex => (received eindex).flatMap responsesOf

/-- What `handle_response` sends before it receives. -/
def pollTx (now : Nat) : Client cfg α :=
  (List.range c.endpointCount).foldl
    (fun c eindex => (c.checkPendingTxMin eindex).checkPendingTxTimeout eindex now) c

/-- `handle_response`, with the calls of the handler that it makes.  `received` are the packets that
`receive` returns until there are no more; the handler does not use the client. -/
def handleResponse (now : Nat) (received : Nat → List PacketBuffer) :
    Except Fault (Client cfg α × List (HandlerCall cfg α)) := do
  let c := c.pollTx now
  let acc ← (c.responses received).zipIdx.foldlM Descriptors.handleRecord (c.descriptors, [])
  let (descriptors, calls) ← Descriptors.expire now (2 ^ 64) acc
  let c := { c with descriptors }
  return (if c.needToUpdateRemoteEid then { c with needToUpdateRemoteEid := false }.updateRemoteEid
    else c, calls)

end Client

namespace Client
variable {cfg : ClientConfig} {α : Type} {c : Client cfg α} {now : Nat}
  {received : Nat → List PacketBuffer} {q : RequestArguments α}

/-! ## The descriptors and the rest of the client -/

section
variable (c : Client cfg α) (eindex serverIndex now : Nat) (target : Option Nat)
  (prb : PendingRequestBatch)

/-- The descriptors and the endpoints stay. -/
def SameThread (c c' : Client cfg α) : Prop :=
  c'.descriptors = c.descriptors ∧ c'.endpointCount = c.endpointCount

theorem sameThread_checkPendingTxFull : c.SameThread (c.checkPendingTxFull eindex) := by
  unfold checkPendingTxFull
  split
  · exact ⟨rfl, rfl⟩
  · exact ⟨rfl, rfl⟩

variable {P : Client cfg α → Prop} (hsend : ∀ c eindex, P c → P (c.sendPending eindex)) (hc : P c)
include hsend hc

theorem checkPendingTx_invariant :
    P ((c.checkPendingTxMin eindex).checkPendingTxTimeout eindex now) := by
  have hmin : P (c.checkPendingTxMin eindex) := by
    unfold checkPendingTxMin
    split
    · exact hc
    · exact hsend c eindex hc
  unfold checkPendingTxTimeout
  dsimp only
  split
  · exact hmin
  · split
    · exact hmin
    · exact hsend _ eindex hmin

theorem pollTx_invariant : P (c.pollTx now) := by
  unfold pollTx
  generalize List.range c.endpointCount = eindices
  induction eindices generalizing c with
  | nil => exact hc
  | cons eindex _ ih => exact ih _ (checkPendingTx_invariant c eindex now hsend hc)

omit hsend hc

theorem sameThread_pollTx : c.SameThread (c.pollTx now) :=
  pollTx_invariant c now (fun _ _ h => h) ⟨rfl, rfl⟩

theorem requestStates_pollTx : (c.pollTx now).requestStates = c.requestStates :=
  pollTx_invariant (P := fun c' => c'.requestStates = c.requestStates) c now (fun _ _ h => h) rfl

theorem responses_pollTx : (c.pollTx now).responses received = c.responses received := by
  unfold responses
  rw [(c.sameThread_pollTx now).2]

theorem sameThread_flushPendingRequestBatch :
    c.SameThread (c.flushPendingRequestBatch serverIndex prb now).2 := by
  unfold flushPendingRequestBatch
  dsimp only
  split
  · exact ⟨rfl, rfl⟩
  · split
    · exact ⟨rfl, rfl⟩
    · exact sameThread_checkPendingTxFull _ _

theorem sameThread_renewBatch : c.SameThread (c.renewBatch serverIndex target now) :=
  c.sameThread_flushPendingRequestBatch serverIndex now (c.batch serverIndex target)

theorem batch_renewBatch : ∃ buf,
    ((c.renewBatch serverIndex target now).batch serverIndex target).b = .ofBuffer buf := by
  cases target with
  | none | some => simp [renewBatch, batch, setBatch, makeNewPendingRequestBatch]

end

variable {rd : Nat} {descriptors : Descriptors cfg α} {c' : Client cfg α}

theorem appendWithRd_returns (serverIndex : Nat) (target : Option Nat)
    (h : c.descriptors.allocateRd now q.arg = .ok (rd, descriptors)) :
    ∃ c', c.appendWithRd now serverIndex target q = .ok (rd, c') ∧ c'.descriptors = descriptors ∧
      c'.endpointCount = c.endpointCount := by
  refine ⟨_, bind_eq_ok.mpr ⟨_, h, rfl⟩, ?_⟩
  split
  · exact sameThread_renewBatch _ _ _ _
  · exact ⟨rfl, rfl⟩

theorem appendWithRd_eq_ok {serverIndex : Nat} {target : Option Nat}
    (h : c.appendWithRd now serverIndex target q = .ok (rd, c')) :
    c.descriptors.allocateRd now q.arg = .ok (rd, c'.descriptors) := by
  obtain ⟨⟨_, _⟩, hallocate, -⟩ := bind_eq_ok.mp h
  obtain ⟨_, hc₁, hdescriptors, -⟩ := appendWithRd_returns serverIndex target hallocate
  cases h.symm.trans hc₁
  rw [hallocate, hdescriptors]

/-- **A request** takes a descriptor, or it is too large and takes none. -/
theorem appendRequest_eq_ok (h : c.appendRequest now q = .ok (rd, c')) :
    (rd = kNullRD ∧ c'.descriptors = c.descriptors) ∨
      c.descriptors.allocateRd now q.arg = .ok (rd, c'.descriptors) := by
  unfold appendRequest at h
  dsimp only at h
  split at h
  · exact .inr (appendWithRd_eq_ok h)
  · split at h
    · have hallocate := appendWithRd_eq_ok h
      rw [(sameThread_renewBatch _ _ _ _).1] at hallocate
      exact .inr hallocate
    · cases h
      exact .inl ⟨rfl, (sameThread_renewBatch _ _ _ _).1⟩

theorem appendRequest_returns (h : c.descriptors.allocateRd now q.arg = .ok (rd, descriptors)) :
    ∃ rd' c', c.appendRequest now q = .ok (rd', c') := by
  unfold appendRequest
  dsimp only
  split
  · obtain ⟨c', hc', -⟩ := appendWithRd_returns _ _ h
    exact ⟨rd, c', hc'⟩
  · split
    · rw [← (sameThread_renewBatch c _ now _).1] at h
      obtain ⟨c', hc', -⟩ := appendWithRd_returns _ _ h
      exact ⟨rd, c', hc'⟩
    · exact ⟨_, _, rfl⟩

theorem appendRequest_of_fits (h : c.descriptors.allocateRd now q.arg = .ok (rd, descriptors))
    (hfits : roundup8 q.keyLength + roundup8 q.valueLength ≤ RequestBatchBuilder.kMaxValueLength) :
    ∃ c', c.appendRequest now q = .ok (rd, c') ∧ c'.descriptors = descriptors ∧
      c'.endpointCount = c.endpointCount := by
  unfold appendRequest
  dsimp only
  split
  · exact appendWithRd_returns _ _ h
  · rw [if_pos]
    · rw [← (sameThread_renewBatch c _ now _).1] at h
      obtain ⟨c', hc', hdescriptors, hcount⟩ := appendWithRd_returns _ _ h
      exact ⟨c', hc', hdescriptors, hcount.trans (sameThread_renewBatch _ _ _ _).2⟩
    · obtain ⟨_, hbatch⟩ := c.batch_renewBatch (calcServerIndex q.keyHash c.serverCount) now
        (targetOf cfg (c.servers (calcServerIndex q.keyHash c.serverCount)) q)
      rw [hbatch]
      exact decide_eq_true hfits

variable {calls : List (HandlerCall cfg α)}

theorem handleResponse_eq_ok (h : c.handleResponse now received = .ok (c', calls)) : ∃ acc,
      (c.responses received).zipIdx.foldlM Descriptors.handleRecord (c.descriptors, []) = .ok acc ∧
      Descriptors.expire now (2 ^ 64) acc = .ok (c'.descriptors, calls) := by
  obtain ⟨acc, hrecords, h⟩ := bind_eq_ok.mp h
  obtain ⟨⟨_, _⟩, hexpire, h⟩ := bind_eq_ok.mp h
  rw [responses_pollTx, (c.sameThread_pollTx now).1] at hrecords
  obtain ⟨hc', rfl⟩ := Prod.mk.inj (pure_eq_ok.mp h)
  refine ⟨acc, hrecords, ?_⟩
  rw [hexpire, ← hc']
  split
  · rfl
  · rfl

theorem handleResponse_returns {acc : Descriptors cfg α × List (HandlerCall cfg α)}
    (hrecords : (c.responses received).zipIdx.foldlM Descriptors.handleRecord (c.descriptors, []) =
      .ok acc) (hexpire : Descriptors.expire now (2 ^ 64) acc = .ok (descriptors, calls)) :
    ∃ c', c.handleResponse now received = .ok (c', calls) ∧ c'.descriptors = descriptors ∧
      c'.endpointCount = c.endpointCount := by
  have hcount := (c.sameThread_pollTx now).2
  rw [← responses_pollTx c now, ← (c.sameThread_pollTx now).1] at hrecords
  refine ⟨_, bind_eq_ok.mpr ⟨acc, hrecords, bind_eq_ok.mpr ⟨_, hexpire, rfl⟩⟩, ?_⟩
  split
  · exact ⟨rfl, hcount⟩
  · exact ⟨rfl, hcount⟩

end Client

end Testbed.Mica
