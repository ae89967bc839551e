import Testbed.Mica.Batches
import Testbed.Mica.Processing

/-! # Servers

`mica/datagram/datagram_server_impl.h`, one worker: a burst of received packets is parsed packet by
packet into a ring of requests, from where the pipeline takes them, and the answers to the requests
of a packet are gathered in a pending response batch, which is put into `pending_tx` when the last
request of the packet is retired.
-/
namespace Testbed.Mica

open Lib
open PacketBuffer
open RequestBatchBuilder List Function

/-! ## The state of a worker -/

/-- How many requests fit into a packet of `kMaxPacketLength` bytes. -/
def kMaxRequestsPerPacket : Nat := 61

/-- `StaticConfig` of the server.  The positions of the requests of a burst are 16-bit numbers. -/
structure ServerConfig where
  kRXBurst : Nat
  kTXBurst : Nat
  kTXMinBurst : Nat
  kTXBurstTimeout : Nat
  kMaxParsedRequestCount : Nat
  /-- `stopwatch_.c_1_usec()`. -/
  c1Usec : Nat
  kRXBurst_lt : kRXBurst * kMaxRequestsPerPacket < 2 ^ 16
  isPowerOfTwo : ∃ k, kMaxParsedRequestCount = 2 ^ k

/-- `ParsedRequest`; the packet is told by its position in the burst. -/
structure ParsedRequest where
  srcBuf : Nat
  key : Buffer
  value : Buffer
  keyHash : Nat
  valueLength : Nat
  opaqueNumber : Nat
  keyLength : Nat
  operation : Nat
  lastInPacket : Bool
  deriving Inhabited

/-- A buffer for responses, by the number of the call of `allocate` that returned it. -/
structure ResponseBuffer where
  id : Nat
  packet : PacketBuffer

structure PendingResponseBatch where
  id : Nat
  b : RequestBatchBuilder
  valueLength : Nat
  result : Result

/-- The packets of an endpoint: `pending_tx`, and what was passed to `send`. -/
structure TxState where
  pendingTx : List ResponseBuffer
  oldestTime : Nat
  sent : List ResponseBuffer

/-- All packets that were put into `pending_tx`. -/
def TxState.handed (t : TxState) : List ResponseBuffer := t.sent ++ t.pendingTx

/-- `RequestAccessor` of the server, with the endpoints and the network of the worker. -/
structure ServerAccessor (cfg : ServerConfig) where
  eid : Nat
  bufs : Nat → PacketBuffer
  packetCount : Nat
  now : Nat
  requests : Nat → ParsedRequest
  pendingResponseBatch : PendingResponseBatch
  nextPacketIndexToParse : Nat
  nextIndexToPrepare : Nat
  nextIndexToRetire : Nat
  txStates : Nat → TxState
  /-- What the buffer holds that a call of `allocate` returns, by the number of the call. -/
  buffers : Nat → PacketBuffer
  allocated : Nat
  /-- The packets of the burst that were released, by their positions. -/
  released : List Nat
  /-- Whether an entry of the ring was written that was not retired. -/
  overwritten : Bool

/-- `is_valid` and `is_request`. -/
def PacketBuffer.isRequestPacket (buf : PacketBuffer) : Bool :=
  (RequestBatchReader.ofBuffer buf).isValid && (RequestBatchReader.ofBuffer buf).isRequest

/-- The entry for the request that the reader is at. -/
def ParsedRequest.ofReader (srcBuf : Nat) (r : RequestBatchReader) : ParsedRequest :=
  { srcBuf
    key := r.getKey
    value := r.getValue
    keyHash := r.getKeyHash
    valueLength := r.getValueLength % 2 ^ 32
    opaqueNumber := r.getOpaque
    keyLength := r.getKeyLength % 2 ^ 8
    operation := r.getOperation % 2 ^ 8
    lastInPacket := false }

namespace ServerAccessor
variable {cfg : ServerConfig}

/-! ## Packets that are sent -/

variable (a : ServerAccessor cfg) (eid : Nat)

def setTxState (t : TxState) : ServerAccessor cfg :=
  { a with txStates := update a.txStates eid t }

def send : ServerAccessor cfg :=
  let t := a.txStates eid
  a.setTxState eid { t with sent := t.sent ++ t.pendingTx, pendingTx := [] }

def checkPendingTxFull : ServerAccessor cfg :=
  if (a.txStates eid).pendingTx.length ≠ cfg.kTXBurst then a else a.send eid

def checkPendingTxMin : ServerAccessor cfg :=
  if (a.txStates eid).pendingTx.length ≠ cfg.kTXMinBurst then a else a.send eid

def checkPendingTxTimeout (eid now : Nat) : ServerAccessor cfg :=
  if (a.txStates eid).pendingTx.length = 0 then a
  else if sub64 now (a.txStates eid).oldestTime < cfg.c1Usec * cfg.kTXBurstTimeout % 2 ^ 64 then a
  else a.send eid

def makeNewPendingResponseBatch : ServerAccessor cfg :=
  { a with
    pendingResponseBatch :=
      { a.pendingResponseBatch with id := a.allocated, b := .ofBuffer (a.buffers a.allocated) }
    allocated := a.allocated + 1 }

/-- The addresses of the packet that answers `src`. -/
def responseAddresses (src : PacketBuffer) : Addresses :=
  let srcR := RequestBatchReader.ofBuffer src
  { srcMacAddr := srcR.getDestMacAddr
    destMacAddr := srcR.getSrcMacAddr
    srcIpv4Addr := srcR.getDestIpv4Addr
    destIpv4Addr := srcR.getSrcIpv4Addr
    srcUdpPort := srcR.getDestUdpPort
    destUdpPort := srcR.getSrcUdpPort }

variable (srcBuf : Nat)

def flushPendingResponseBatch : ServerAccessor cfg :=
  let batch := a.pendingResponseBatch
  let packet := batch.b.finish (responseAddresses (a.bufs srcBuf)) true
  let t := a.txStates a.eid
  let oldestTime := if t.pendingTx.length = 0 then a.now else t.oldestTime
  let t := { t with pendingTx := t.pendingTx ++ [⟨batch.id, packet⟩], oldestTime }
  (a.setTxState a.eid t).checkPendingTxFull a.eid

def release : ServerAccessor cfg :=
  { a with released := a.released ++ [srcBuf] }

/-! ## Requests -/

variable (index : Nat)

/-- The entry of the ring. -/
def parsedRequest : ParsedRequest :=
  a.requests (index &&& (cfg.kMaxParsedRequestCount - 1))

/-- The constructor. -/
def create (cfg : ServerConfig) (buffers : Nat → PacketBuffer) (requests : Nat → ParsedRequest) :
    ServerAccessor cfg :=
  makeNewPendingResponseBatch
    { eid := 0
      bufs := fun _ => ⟨fun _ => 0, 0⟩
      packetCount := 0
      now := 0
      requests
      pendingResponseBatch := ⟨0, .ofBuffer ⟨fun _ => 0, 0⟩, 0, .kSuccess⟩
      nextPacketIndexToParse := 0
      nextIndexToPrepare := 0
      nextIndexToRetire := 0
      txStates := fun _ => ⟨[], 0, []⟩
      buffers
      allocated := 0
      released := []
      overwritten := false }

/-- `setup`, with the packets that were received from the endpoint. -/
def setup (bufs : Nat → PacketBuffer) (packetCount now : Nat) : ServerAccessor cfg :=
  { a with
    eid
    bufs
    packetCount
    now
    nextPacketIndexToParse := 0
    nextIndexToPrepare := 0
    nextIndexToRetire := 0
    released := [] }

/-- The body of `while (r.find_next())`. -/
def parseRequest (a : ServerAccessor cfg) (r : RequestBatchReader) : ServerAccessor cfg :=
  { a with
    requests := update a.requests
      (a.nextIndexToPrepare &&& (cfg.kMaxParsedRequestCount - 1)) (.ofReader srcBuf r)
    nextIndexToPrepare := (a.nextIndexToPrepare + 1) % 2 ^ 16
    overwritten := a.overwritten ||
      decide (¬ sub64 a.nextIndexToPrepare a.nextIndexToRetire < cfg.kMaxParsedRequestCount) }

/-- The request that was written last is the last in its packet. -/
def markLast : ServerAccessor cfg :=
  let mask := cfg.kMaxParsedRequestCount - 1
  let lastPrepared := (a.nextIndexToPrepare + mask) &&& mask
  { a with
    requests := update a.requests lastPrepared
      { a.requests lastPrepared with lastInPacket := true } }

/-- `next_packet_index_to_parse_++`. -/
def nextPacket : ServerAccessor cfg :=
  { a with nextPacketIndexToParse := (a.nextPacketIndexToParse + 1) % 2 ^ 16 }

/-- `parse_request_batch`: the loop over the packets that are left. -/
def parseLoop : Nat → ServerAccessor cfg → Bool × ServerAccessor cfg
  | 0, a => (false, a)
  | fuel + 1, a =>
    if a.nextPacketIndexToParse < a.packetCount then
      let srcBuf := a.nextPacketIndexToParse
      let buf := a.bufs srcBuf
      let a := a.nextPacket
      if buf.isRequestPacket then
        let orgNextIndexToPrepare := a.nextIndexToPrepare
        let a := (RequestBatchReader.requestsOf buf).foldl (parseRequest srcBuf) a
        if orgNextIndexToPrepare = a.nextIndexToPrepare then parseLoop fuel (a.release srcBuf)
        else (true, a.markLast)
      else
        -- the packet is not released
        parseLoop fuel a
    else (false, a)

def parseRequestBatch : Bool × ServerAccessor cfg :=
  parseLoop (a.packetCount + 1) a

def prepare : Bool × ServerAccessor cfg :=
  if index = a.nextIndexToPrepare then a.parseRequestBatch else (true, a)

/-- `get_operation` and so on, for an entry of the ring; the value is written into the response
packet. -/
def requestData (pr : ParsedRequest) (b : RequestBatchBuilder) : RequestData :=
  { operation := Operation.ofCode pr.operation
    keyHash := pr.keyHash
    key := pr.key
    keyLength := pr.keyLength
    value := pr.value
    valueLength := pr.valueLength
    outValue := fun i => b.buf.data (b.getOutValue 0 + i)
    outValueLength := b.getMaxOutValueLength 0 }

def get : RequestData :=
  requestData (a.parsedRequest index) a.pendingResponseBatch.b

/-- The bytes from `get_out_value` on. -/
def setOutValue (outValue : Buffer) : ServerAccessor cfg :=
  let b := a.pendingResponseBatch.b
  let data : Memory := fun x =>
    if b.getOutValue 0 ≤ x then outValue (x - b.getOutValue 0) else b.buf.data x
  { a with pendingResponseBatch :=
      { a.pendingResponseBatch with b := { b with buf := { b.buf with data } } } }

def setOutValueLength (len : Nat) : ServerAccessor cfg :=
  { a with pendingResponseBatch := { a.pendingResponseBatch with valueLength := len } }

def setResult (result : Result) : ServerAccessor cfg :=
  { a with pendingResponseBatch := { a.pendingResponseBatch with result } }

/-- The answer is appended to the pending response batch. -/
def appendResponse (pr : ParsedRequest) : ServerAccessor cfg :=
  let batch := a.pendingResponseBatch
  { a with pendingResponseBatch :=
      { batch with
        b := batch.b.appendRequestNoKeyValue pr.operation batch.result pr.opaqueNumber pr.keyHash 0
          batch.valueLength } }

/-- The body of `retire`, with the entry of the ring. -/
def retireRequest (pr : ParsedRequest) : ServerAccessor cfg :=
  let a := a.appendResponse pr
  let flushResponse := pr.lastInPacket || a.pendingResponseBatch.b.getMaxOutKeyLength == 0
  let a := if flushResponse then
      (a.flushPendingResponseBatch pr.srcBuf).makeNewPendingResponseBatch
    else a
  let a := if pr.lastInPacket then a.release pr.srcBuf else a
  { a with nextIndexToRetire := (a.nextIndexToRetire + 1) % 2 ^ 16 }

def retire : ServerAccessor cfg :=
  a.retireRequest (a.parsedRequest index)

instance instRequestAccessor : RequestAccessor (ServerAccessor cfg) where
  prepare := prepare
  get := get
  setOutValue a _ outValue := a.setOutValue outValue
  setOutValueLength a _ len := a.setOutValueLength len
  setResult a _ result := a.setResult result
  retire := retire

/-! ## The ring of parsed requests -/

/-- The entries of a ring from the position `r` on are those of the list. -/
def InRing (size : Nat) (ring : Nat → ParsedRequest) (r : Nat) (l : List ParsedRequest) : Prop :=
  ∀ i pr, r ≤ i → l[i]? = some pr → ring (i % size) = pr

section
variable {size r : Nat} {ring : Nat → ParsedRequest} {l : List ParsedRequest}

theorem InRing.update (h : InRing size ring r l) (hroom : l.length < r + size)
    (pr : ParsedRequest) :
    InRing size (update ring (l.length % size) pr) r (l ++ [pr]) := by
  intro i pr' hi hget
  rcases Nat.lt_trichotomy i l.length with hlt | rfl | _
  · rw [getElem?_append_left hlt] at hget
    rw [update_of_ne (Memory.mod_ne_of_lt hlt (by omega))]
    exact h i pr' hi hget
  · rw [getElem?_concat_length] at hget
    cases hget
    exact update_self _ _ _
  · rw [getElem?_eq_none (by rw [length_append, length_singleton]; omega)] at hget
    cases hget

theorem InRing.of_append {l' : List ParsedRequest} (h : InRing size ring r (l ++ l')) :
    InRing size ring r l := by
  intro i pr hi hget
  refine h i pr hi ?_
  rw [List.getElem?_append_left (List.getElem?_eq_some_iff.mp hget).1]
  exact hget

theorem InRing.mono {r' : Nat} (h : InRing size ring r l) (hle : r ≤ r') : InRing size ring r' l :=
  fun i pr hi hget => h i pr (hle.trans hi) hget

end

theorem and_kParsedRequestMask :
    index &&& (cfg.kMaxParsedRequestCount - 1) = index % cfg.kMaxParsedRequestCount := by
  obtain ⟨k, hk⟩ := cfg.isPowerOfTwo
  rw [hk]
  exact Nat.and_two_pow_sub_one_eq_mod index k

section
variable {a : ServerAccessor cfg} {r : Nat} {l : List ParsedRequest}

theorem parseRequest_eq {n : Nat} (hprepare : a.nextIndexToPrepare = n)
    (hretire : a.nextIndexToRetire = r) (hr : r ≤ n) (hroom : n < r + cfg.kMaxParsedRequestCount)
    (hn : n + 1 < 2 ^ 16) (srcBuf : Nat) (x : RequestBatchReader) :
    parseRequest srcBuf a x =
      { a with
        requests := update a.requests (n % cfg.kMaxParsedRequestCount) (.ofReader srcBuf x)
        nextIndexToPrepare := n + 1 } := by
  have hfree : sub64 n r < cfg.kMaxParsedRequestCount := by
    rw [sub64_of_le hr (by omega)]
    omega
  unfold parseRequest
  rw [hprepare, hretire, and_kParsedRequestMask, Nat.mod_eq_of_lt hn,
    decide_eq_false (not_not_intro hfree), Bool.or_false]

/-- **The requests of a packet are parsed** into the ring, which has room for them. -/
theorem foldl_parseRequest (srcBuf : Nat) (xs : List RequestBatchReader)
    (hring : InRing cfg.kMaxParsedRequestCount a.requests r l)
    (hprepare : a.nextIndexToPrepare = l.length) (hretire : a.nextIndexToRetire = r)
    (hr : r ≤ l.length) (hroom : l.length + xs.length ≤ r + cfg.kMaxParsedRequestCount)
    (hn : l.length + xs.length < 2 ^ 16) :
    ∃ ring, xs.foldl (parseRequest srcBuf) a =
        { a with requests := ring, nextIndexToPrepare := l.length + xs.length } ∧
      InRing cfg.kMaxParsedRequestCount ring r (l ++ xs.map (.ofReader srcBuf)) := by
  induction xs generalizing a l with
  | nil =>
    refine ⟨a.requests, ?_, ?_⟩
    · rw [length_nil, Nat.add_zero, ← hprepare]
      rfl
    · rw [map_nil, append_nil]
      exact hring
  | cons x _ ih =>
    rw [length_cons] at hroom hn
    rw [foldl_cons, parseRequest_eq hprepare hretire hr (by omega) (by omega) srcBuf x]
    have hlength : (l ++ [ParsedRequest.ofReader srcBuf x]).length = l.length + 1 := by
      rw [length_append, length_singleton]
    have hnext := hring.update (by omega) (.ofReader srcBuf x)
    obtain ⟨ring, hfold, hrest⟩ := ih (a := { a with
        requests := update a.requests (l.length % cfg.kMaxParsedRequestCount) (.ofReader srcBuf x)
        nextIndexToPrepare := l.length + 1 }) hnext hlength.symm hretire (by omega)
      (by omega) (by omega)
    refine ⟨ring, ?_, ?_⟩
    · rw [hfold, hlength, length_cons, Nat.add_assoc, Nat.add_comm 1]
    · rw [append_assoc] at hrest
      exact hrest

theorem markLast_eq {pr : ParsedRequest} (hr : r ≤ l.length)
    (hring : InRing cfg.kMaxParsedRequestCount a.requests r (l ++ [pr]))
    (hprepare : a.nextIndexToPrepare = l.length + 1)
    (hroom : l.length < r + cfg.kMaxParsedRequestCount) :
    ∃ ring, a.markLast = { a with requests := ring } ∧
      InRing cfg.kMaxParsedRequestCount ring r (l ++ [{ pr with lastInPacket := true }]) := by
  have hposition : (a.nextIndexToPrepare + (cfg.kMaxParsedRequestCount - 1)) &&&
      (cfg.kMaxParsedRequestCount - 1) = l.length % cfg.kMaxParsedRequestCount := by
    rw [and_kParsedRequestMask, hprepare, show l.length + 1 + (cfg.kMaxParsedRequestCount - 1) =
        l.length + cfg.kMaxParsedRequestCount by omega, Nat.add_mod_right]
  have hentry := hring l.length pr hr getElem?_concat_length
  refine ⟨_, ?_, hring.of_append.update hroom { pr with lastInPacket := true }⟩
  unfold markLast
  dsimp only
  rw [hposition, hentry]

end

/-! ## Answers -/

/-- The header of the answer at the offset. -/
def AnswerAt (buf : PacketBuffer) (h : Nat) (pr : ParsedRequest) (outcome : Outcome) : Prop :=
  buf.HeaderAt h (pr.operation % 256 ^ 1) outcome.result (pr.opaqueNumber % 256 ^ 4)
    (pr.keyHash % 256 ^ 8) 0 outcome.outValueLength

/-- The bytes of an answer. -/
def answerLength (outcome : Outcome) : Nat := sizeofRequestHeader + roundup8 outcome.outValueLength

variable (b : RequestBatchBuilder)

/-- `b'` is `b` with one more answer. -/
structure Appended (pr : ParsedRequest) (outcome : Outcome) (b' : RequestBatchBuilder) : Prop where
  h : b'.h = b.h + answerLength outcome
  remainingSpace : b'.remainingSpace = b.remainingSpace
  before : ∀ x < b.h, b'.buf.data x = b.buf.data x
  answer : AnswerAt b'.buf b.h pr outcome

section Answer
variable (a : ServerAccessor cfg) (index srcBuf : Nat) (pr : ParsedRequest) (outcome : Outcome)

/-- The calls before `retire`. -/
def tell : ServerAccessor cfg :=
  let a := match outcome.outValue with
    | some outValue => a.setOutValue outValue
    | none => a
  (a.setOutValueLength outcome.outValueLength).setResult outcome.result

theorem answer_eq : RequestAccessor.answer a index outcome = (a.tell outcome).retire index := rfl

/-- **An answer is appended as in `RequestBatchBuilder.appendAnswer`**: the table has copied
`written` bytes of the value to `get_out_value`, and the rest of the buffer is as it was. -/
theorem appendResponse_eq_appendAnswer {operation : Operation}
    (hoperation : pr.operation = operation.code) (value : Buffer) (written : Nat)
    (hvalue : outcome.outValue = some fun i => if i < written then value i else
      a.pendingResponseBatch.b.buf.data (a.pendingResponseBatch.b.getOutValue 0 + i)) :
    ((a.tell outcome).appendResponse pr).pendingResponseBatch.b =
      a.pendingResponseBatch.b.appendAnswer ⟨operation, outcome.result, pr.opaqueNumber, pr.keyHash,
        value, written, outcome.outValueLength⟩ := by
  unfold tell appendResponse RequestBatchBuilder.appendAnswer
  rw [hvalue, hoperation]
  dsimp only [setOutValue, setOutValueLength, setResult]
  congr 3
  funext x
  rw [Memory.copy_id]
  by_cases hx : a.pendingResponseBatch.b.getOutValue 0 ≤ x
  · rw [if_pos hx, Nat.add_sub_of_le hx]
    congr 1
    simp only [eq_iff_iff]
    omega
  · rw [if_neg hx, if_neg (by omega)]

theorem tell_eq : ∃ batch : PendingResponseBatch,
    a.tell outcome = { a with pendingResponseBatch := batch } ∧
    batch.id = a.pendingResponseBatch.id ∧ batch.valueLength = outcome.outValueLength ∧
    batch.result = outcome.result ∧ batch.b.h = a.pendingResponseBatch.b.h ∧
    batch.b.remainingSpace = a.pendingResponseBatch.b.remainingSpace ∧
    ∀ x < a.pendingResponseBatch.b.h, batch.b.buf.data x = a.pendingResponseBatch.b.buf.data x := by
  unfold tell
  cases outcome.outValue with
  | none => exact ⟨_, rfl, rfl, rfl, rfl, rfl, rfl, fun x _ => rfl⟩
  | some =>
    refine ⟨_, rfl, rfl, rfl, rfl, rfl, rfl, fun x hx => if_neg ?_⟩
    unfold getOutValue
    omega

theorem appendResponse_tell_eq : ∃ batch : PendingResponseBatch,
    (a.tell outcome).appendResponse pr = { a with pendingResponseBatch := batch } ∧
    batch.id = a.pendingResponseBatch.id ∧
    Appended a.pendingResponseBatch.b pr outcome batch.b := by
  obtain ⟨batch, htell, hid, hvalueLength, hresult, hh, hspace, hdata⟩ := a.tell_eq outcome
  have happend : (a.tell outcome).appendResponse pr = { a with
      pendingResponseBatch := { batch with
        b := batch.b.appendRequestNoKeyValue pr.operation outcome.result pr.opaqueNumber pr.keyHash
          0 outcome.outValueLength } } := by
    unfold appendResponse
    rw [htell, ← hvalueLength, ← hresult]
  refine ⟨_, happend, hid, ?_, hspace, fun x hx => ?_, ?_⟩
  · unfold answerLength
    rw [← Nat.add_assoc, ← hh]
    rfl
  · exact (data_writeHeader _ _ _ _ _ _ _ _ (.inl (hh ▸ hx))).trans (hdata x hx)
  · rw [← hh]
    exact headerAt_writeHeader _ _ _ _ _ _ _ _

theorem send_setTxState (eid : Nat) (t : TxState) : ∃ t' : TxState,
    (a.setTxState eid t).send eid = a.setTxState eid t' ∧ t'.handed = t.handed := by
  unfold send setTxState
  dsimp only
  rw [update_self, update_idem]
  exact ⟨_, rfl, append_nil _⟩

theorem checkPendingTxFull_setTxState (eid : Nat) (t : TxState) : ∃ t' : TxState,
    (a.setTxState eid t).checkPendingTxFull eid = a.setTxState eid t' ∧ t'.handed = t.handed := by
  unfold checkPendingTxFull
  split
  · exact ⟨t, rfl, rfl⟩
  · exact a.send_setTxState eid t

/-- **A batch that is flushed** is handed to the endpoint, and the next one is made. -/
theorem flush_makeNew_eq : ∃ t : TxState,
    (a.flushPendingResponseBatch srcBuf).makeNewPendingResponseBatch =
      { a with
        txStates := update a.txStates a.eid t
        pendingResponseBatch := { a.pendingResponseBatch with
          id := a.allocated
          b := .ofBuffer (a.buffers a.allocated) }
        allocated := a.allocated + 1 } ∧
    t.handed = (a.txStates a.eid).handed ++ [⟨a.pendingResponseBatch.id,
      a.pendingResponseBatch.b.finish (responseAddresses (a.bufs srcBuf)) true⟩] := by
  unfold flushPendingResponseBatch
  dsimp only
  generalize (if (a.txStates a.eid).pendingTx.length = 0 then a.now
    else (a.txStates a.eid).oldestTime) = oldestTime
  obtain ⟨t, hcheck, hhanded⟩ := a.checkPendingTxFull_setTxState a.eid
    ⟨(a.txStates a.eid).pendingTx ++ [⟨a.pendingResponseBatch.id,
      a.pendingResponseBatch.b.finish (responseAddresses (a.bufs srcBuf)) true⟩], oldestTime,
      (a.txStates a.eid).sent⟩
  refine ⟨t, ?_, hhanded.trans (append_assoc _ _ _).symm⟩
  rw [hcheck]
  rfl

theorem parsedRequest_tell : (a.tell outcome).parsedRequest index = a.parsedRequest index := by
  obtain ⟨_, htell, -⟩ := a.tell_eq outcome
  rw [htell]
  rfl

/-- **A request in the middle of its packet** is answered. -/
theorem answer_of_not_last (hspace : a.pendingResponseBatch.b.remainingSpace ≠ 0)
    (hlast : (a.parsedRequest index).lastInPacket = false) : ∃ batch : PendingResponseBatch,
    RequestAccessor.answer a index outcome =
      { a with
        pendingResponseBatch := batch
        nextIndexToRetire := (a.nextIndexToRetire + 1) % 2 ^ 16 } ∧
    batch.id = a.pendingResponseBatch.id ∧
    Appended a.pendingResponseBatch.b (a.parsedRequest index) outcome batch.b := by
  obtain ⟨batch, happend, hid, happended⟩ :=
    a.appendResponse_tell_eq (a.parsedRequest index) outcome
  have hroom : (batch.b.getMaxOutKeyLength == 0) = false := by
    unfold getMaxOutKeyLength
    rw [happended.remainingSpace, beq_eq_false_iff_ne]
    exact hspace
  refine ⟨batch, ?_, hid, happended⟩
  rw [answer_eq]
  unfold retire retireRequest
  dsimp only
  rw [parsedRequest_tell, happend]
  rw [hlast, hroom]
  rfl

/-- **The last request of a packet** is answered: the batch is flushed, and the packet is
released. -/
theorem answer_of_last (hlast : (a.parsedRequest index).lastInPacket = true) :
    ∃ (batch : PendingResponseBatch) (t : TxState), RequestAccessor.answer a index outcome =
        { a with
          txStates := update a.txStates a.eid t
          pendingResponseBatch := { batch with
            id := a.allocated
            b := .ofBuffer (a.buffers a.allocated) }
          allocated := a.allocated + 1
          released := a.released ++ [(a.parsedRequest index).srcBuf]
          nextIndexToRetire := (a.nextIndexToRetire + 1) % 2 ^ 16 } ∧
      t.handed = (a.txStates a.eid).handed ++ [⟨a.pendingResponseBatch.id,
        batch.b.finish (responseAddresses (a.bufs (a.parsedRequest index).srcBuf)) true⟩] ∧
      Appended a.pendingResponseBatch.b (a.parsedRequest index) outcome batch.b := by
  obtain ⟨batch, happend, hid, happended⟩ :=
    a.appendResponse_tell_eq (a.parsedRequest index) outcome
  obtain ⟨t, hflush, hhanded⟩ := flush_makeNew_eq { a with pendingResponseBatch := batch }
    (a.parsedRequest index).srcBuf
  rw [hid] at hhanded
  refine ⟨batch, t, ?_, hhanded, happended⟩
  rw [answer_eq]
  unfold retire retireRequest
  dsimp only
  rw [parsedRequest_tell, happend, hlast, Bool.true_or, if_pos rfl, if_pos rfl, hflush]
  rfl

end Answer

end ServerAccessor

end Testbed.Mica
