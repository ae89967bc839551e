import Testbed.Mica.Packets

/-! # Batches and the Ethernet frame

The client appends requests to a pending batch as long as `has_sufficient_space` allows it, and the
server appends an answer to a pending response batch for each request that it retires, after it
wrote the value into the packet.  Both look at `remaining_space_`, which the constructor sets to
the space for one request and nothing ever lowers.  So a batch keeps to the Ethernet frame if and
only if its requests, or its answers, happen to be short enough (`sound_iff`).
-/
namespace Testbed.Mica

open Lib
open RequestBatchReader Memory

/-- `ETHER_MAX_LEN - ETHER_CRC_LEN`. -/
def kMaxPacketLength : Nat := kEtherMaxLen - kEtherCrcLen

/-- The addresses of a packet. -/
structure Addresses where
  srcMacAddr : Nat
  destMacAddr : Nat
  srcIpv4Addr : Nat
  destIpv4Addr : Nat
  srcUdpPort : Nat
  destUdpPort : Nat

/-- What the server answers to a request: `written` bytes are copied to `get_out_value`, and then
`set_out_value_length` tells how long the value is. -/
structure Answer where
  operation : Operation
  result : Result
  opaqueNumber : Nat
  keyHash : Nat
  value : Buffer
  written : Nat
  valueLength : Nat

/-- The bytes of an answer in the packet. -/
def Answer.encodedLength (answer : Answer) : Nat :=
  sizeofRequestHeader + roundup8 answer.valueLength

/-- Answers that are written from the offset on end in the frame, and so do their values. -/
def Answer.Fit : Nat → List Answer → Prop
  | h, [] => h ≤ kMaxPacketLength
  | h, answer :: rest => h + sizeofRequestHeader + answer.written ≤ kMaxPacketLength ∧
    Fit (h + answer.encodedLength) rest

namespace RequestBatchBuilder

variable (b : RequestBatchBuilder)

/-- The end of `flush_pending_request_batch` and `flush_pending_response_batch`. -/
def finish (addresses : Addresses) (response : Bool) : PacketBuffer :=
  let b := b.setSrcMacAddr addresses.srcMacAddr
  let b := b.setDestMacAddr addresses.destMacAddr
  let b := b.setSrcIpv4Addr addresses.srcIpv4Addr
  let b := b.setDestIpv4Addr addresses.destIpv4Addr
  let b := b.setSrcUdpPort addresses.srcUdpPort
  let b := b.setDestUdpPort addresses.destUdpPort
  let b := if response then b.setResponse else b.setRequest
  b.finalize.buf

/-- The value is copied, and `retire` appends the answer. -/
def appendAnswer (answer : Answer) : RequestBatchBuilder :=
  let data := copy id b.buf.data (b.getOutValue 0) answer.value answer.written
  { b with buf := { b.buf with data } }.appendRequestNoKeyValue answer.operation.code
    answer.result answer.opaqueNumber answer.keyHash 0 answer.valueLength

variable (answers : List Answer)

def appendAnswers : RequestBatchBuilder :=
  answers.foldl appendAnswer b

/-- Each request is appended after `has_sufficient_space` returned `true`. -/
def AdmitsRequests : RequestBatchBuilder → List Request → Prop
  | _, [] => True
  | b, q :: rest => b.hasSufficientSpace q.keyLength q.valueLength = true ∧
    AdmitsRequests (b.appendRequest q) rest

/-- Each value has at most `get_out_value_length` bytes. -/
def AdmitsAnswers : RequestBatchBuilder → List Answer → Prop
  | _, [] => True
  | b, answer :: rest => answer.written ≤ b.getMaxOutValueLength 0 ∧
    answer.valueLength ≤ b.getMaxOutValueLength 0 ∧ AdmitsAnswers (b.appendAnswer answer) rest

/-- **The packet keeps to the frame**, whatever the buffer held: its length, the bytes that are
written, and the fields that tell its length. -/
def Sound (make : PacketBuffer → RequestBatchBuilder) (addresses : Addresses) (response : Bool) :
    Prop :=
  ∀ buf,
    let b := make buf
    let packet := b.finish addresses response
    b.h ≤ kMaxPacketLength ∧ (∀ x, kMaxPacketLength ≤ x → packet.data x = buf.data x) ∧
      packet.length = b.h ∧ swap16 (packet.load 16 2) = b.h - sizeofEtherHdr ∧
      swap16 (packet.load 38 2) = b.h - sizeofEtherHdr - sizeofIpv4Hdr

/-- The batch that the client sends. -/
def requestBatch (requests : List Request) (buf : PacketBuffer) : RequestBatchBuilder :=
  (ofBuffer buf).appendRequests requests

/-- The batch that the server sends. -/
def responseBatch (buf : PacketBuffer) : RequestBatchBuilder :=
  (ofBuffer buf).appendAnswers answers

/-! ## The end of a batch -/

section
variable (b : RequestBatchBuilder) (addresses : Addresses) (response : Bool) {x : Nat}

theorem finish_eq : ∃ b' : RequestBatchBuilder, b'.h = b.h ∧
    (∀ x, 44 ≤ x → b'.buf.data x = b.buf.data x) ∧
    b.finish addresses response = b'.finalize.buf := by
  refine ⟨_, ?_, fun x hx => ?_, rfl⟩
  · cases response <;> rfl
  · cases response
    · simp (disch := omega) only [setSrcMacAddr, setDestMacAddr, setSrcIpv4Addr, setDestIpv4Addr,
        setSrcUdpPort, setDestUdpPort, setRequest, Bool.false_eq_true, if_false,
        PacketBuffer.data_store_apart]
    · simp (disch := omega) only [setSrcMacAddr, setDestMacAddr, setSrcIpv4Addr, setDestIpv4Addr,
        setSrcUdpPort, setDestUdpPort, setResponse, if_true, PacketBuffer.data_store_apart]

theorem data_finish (hx : 44 ≤ x) : (b.finish addresses response).data x = b.buf.data x := by
  obtain ⟨b', -, hdata, hfinish⟩ := b.finish_eq addresses response
  rw [hfinish, b'.data_finalize hx, hdata x hx]

theorem lengths_finish (hlong : b.h < 2 ^ 16) : (b.finish addresses response).length = b.h ∧
      swap16 ((b.finish addresses response).load 16 2) = b.h - sizeofEtherHdr ∧
      swap16 ((b.finish addresses response).load 38 2) = b.h - sizeofEtherHdr - sizeofIpv4Hdr := by
  obtain ⟨b', hh, -, hfinish⟩ := b.finish_eq addresses response
  rw [hfinish, b'.lengths_finalize.1, b'.lengths_finalize.2, b'.length_finalize, hh,
    Nat.mod_eq_of_lt hlong, Nat.mod_eq_of_lt (by omega), Nat.mod_eq_of_lt (by omega)]
  exact ⟨rfl, rfl, rfl⟩

theorem addresses_finish :
    let r := RequestBatchReader.ofBuffer (b.finish addresses response)
    r.getSrcMacAddr = addresses.srcMacAddr % 256 ^ 6 ∧
      r.getDestMacAddr = addresses.destMacAddr % 256 ^ 6 ∧
      r.getSrcIpv4Addr = addresses.srcIpv4Addr % 256 ^ 4 ∧
      r.getDestIpv4Addr = addresses.destIpv4Addr % 256 ^ 4 ∧
      r.getSrcUdpPort = addresses.srcUdpPort % 256 ^ 2 ∧
      r.getDestUdpPort = addresses.destUdpPort % 256 ^ 2 := by
  intro r
  simp only [r, getSrcMacAddr, getDestMacAddr, getSrcIpv4Addr, getDestIpv4Addr,
    getSrcUdpPort, getDestUdpPort,
    RequestBatchReader.ofBuffer, finish]
  simp (disch := omega) only [load_finalize]
  cases response <;>
    simp (disch := omega) only [setSrcMacAddr, setDestMacAddr, setSrcIpv4Addr, setDestIpv4Addr,
      setSrcUdpPort, setDestUdpPort, setRequest, setResponse, Bool.false_eq_true, if_false, if_true,
      PacketBuffer.load_store_apart, PacketBuffer.load_store_self, and_self]

/-- **A packet is a valid request or response** if its length fits. -/
theorem isValid_finish (hmin : sizeofRequestBatchHeader ≤ b.h) (hmax : b.h < 2 ^ 16) :
    let r := RequestBatchReader.ofBuffer (b.finish addresses response)
    r.isValid = true ∧ r.isRequest = !response ∧ r.isResponse = response := by
  unfold finish RequestBatchReader.isRequest RequestBatchReader.isResponse
  cases response
  · exact ⟨isValid_finalize _ hmin hmax (Or.inl (PacketBuffer.load_store_self _)), rfl, rfl⟩
  · exact ⟨isValid_finalize _ hmin hmax (Or.inr (PacketBuffer.load_store_self _)), rfl, rfl⟩

theorem sound_of_unchanged {make : PacketBuffer → RequestBatchBuilder}
    (hlength : ∀ buf, (make buf).h ≤ kMaxPacketLength)
    (hdata : ∀ buf x, kMaxPacketLength ≤ x → (make buf).buf.data x = buf.data x) :
    Sound make addresses response := by
  intro buf
  refine ⟨hlength buf, fun x hx => ?_,
    lengths_finish _ addresses response ((hlength buf).trans_lt (by decide))⟩
  exact (data_finish _ addresses response (le_trans (by decide) hx)).trans (hdata buf x hx)

end

/-! ## The client -/

theorem sound_requestBatch_iff (requests : List Request) (addresses : Addresses) :
    Sound (requestBatch requests) addresses false ↔ packetLength requests ≤ kMaxPacketLength := by
  have hh : ∀ buf, (requestBatch requests buf).h = packetLength requests :=
    fun buf => h_appendRequests _ requests
  constructor
  · intro hsound
    exact hh ⟨fun _ => 0, 0⟩ ▸ (hsound ⟨fun _ => 0, 0⟩).1
  · intro hlength
    refine sound_of_unchanged addresses false (fun buf => hh buf ▸ hlength) fun buf x hx => ?_
    exact data_appendRequests _ requests (Or.inr (le_trans hlength hx))

/-! ## The server -/

section Answers
variable (b b' : RequestBatchBuilder) (answer : Answer) (answers : List Answer) {x : Nat}

theorem h_appendAnswer : (b.appendAnswer answer).h = b.h + answer.encodedLength := by
  unfold Answer.encodedLength
  rw [← Nat.add_assoc]
  rfl

theorem data_appendAnswer (hwritten : b.h + sizeofRequestHeader + answer.written ≤ x) :
    (b.appendAnswer answer).buf.data x = b.buf.data x := by
  have hend : b.h + sizeofRequestHeader ≤ x := by omega
  refine (data_writeHeader _ _ _ _ _ _ _ _ (Or.inr hend)).trans ?_
  refine copy_id.trans (if_neg ?_)
  have hvalue : b.getOutValue 0 = b.h + sizeofRequestHeader := rfl
  omega

theorem data_appendAnswers (hfit : Answer.Fit b.h answers) (hx : kMaxPacketLength ≤ x) :
    (b.appendAnswers answers).buf.data x = b.buf.data x := by
  induction answers generalizing b with
  | nil => rfl
  | cons answer _ ih =>
    refine (ih (b.appendAnswer answer) ?_).trans (b.data_appendAnswer answer (hfit.1.trans hx))
    rw [h_appendAnswer]
    exact hfit.2

theorem h_appendAnswers_le (hfit : Answer.Fit b.h answers) :
    (b.appendAnswers answers).h ≤ kMaxPacketLength := by
  induction answers generalizing b with
  | nil => exact hfit
  | cons answer _ ih =>
    refine ih (b.appendAnswer answer) ?_
    rw [h_appendAnswer]
    exact hfit.2

theorem le_h_appendAnswers : b.h ≤ (b.appendAnswers answers).h := by
  induction answers generalizing b with
  | nil => exact Nat.le_refl _
  | cons answer _ ih =>
    refine le_trans ?_ (ih (b.appendAnswer answer))
    rw [h_appendAnswer]
    exact Nat.le_add_right _ _

theorem data_appendAnswer_congr (hh : b.h = b'.h) (hbyte : b.buf.data x = b'.buf.data x ∨
      b.getOutValue 0 ≤ x ∧ x < b.getOutValue 0 + answer.written) :
    (b.appendAnswer answer).buf.data x = (b'.appendAnswer answer).buf.data x := by
  have hvalue : b.getOutValue 0 = b'.getOutValue 0 := by
    unfold getOutValue
    rw [hh]
  have hcopy : copy id b.buf.data (b.getOutValue 0) answer.value answer.written x =
      copy id b'.buf.data (b'.getOutValue 0) answer.value answer.written x := by
    rw [copy_id, copy_id, ← hvalue]
    split
    · rfl
    · rename_i hout
      exact hbyte.resolve_right hout
  unfold appendAnswer appendRequestNoKeyValue writeHeader skip
  simp only [PacketBuffer.data_store, hcopy, hh]

theorem data_appendAnswers_congr (hh : b.h = b'.h) (hbyte : b.buf.data x = b'.buf.data x) :
    (b.appendAnswers answers).buf.data x = (b'.appendAnswers answers).buf.data x := by
  induction answers generalizing b b' with
  | nil => exact hbyte
  | cons answer _ ih =>
    refine ih _ _ ?_ (data_appendAnswer_congr b b' answer hh (Or.inl hbyte))
    rw [h_appendAnswer, h_appendAnswer, hh]

theorem fit_of_unchanged (hh : b.h = b'.h)
    (hlength : (b.appendAnswers answers).h ≤ kMaxPacketLength)
    (hsame : ∀ x, kMaxPacketLength ≤ x →
      (b.appendAnswers answers).buf.data x ≠ (b'.appendAnswers answers).buf.data x) :
    Answer.Fit b.h answers := by
  induction answers generalizing b b' with
  | nil => exact hlength
  | cons answer rest ih =>
    have hnext : (b.appendAnswer answer).h = (b'.appendAnswer answer).h := by
      rw [h_appendAnswer, h_appendAnswer, hh]
    constructor
    · by_contra hlong
      have hend := (b.appendAnswer answer).le_h_appendAnswers rest
      have hanswer : (b.appendAnswer answer).h = b.h + answer.encodedLength :=
        h_appendAnswer b answer
      have hheader : sizeofRequestHeader ≤ answer.encodedLength := Nat.le_add_right _ _
      have hvalue : b.getOutValue 0 = b.h + sizeofRequestHeader := rfl
      have hlength' : ((b.appendAnswer answer).appendAnswers rest).h ≤ kMaxPacketLength := hlength
      refine hsame (b.getOutValue 0 + answer.written - 1) (by omega) ?_
      refine data_appendAnswers_congr _ _ rest hnext ?_
      exact data_appendAnswer_congr b b' answer hh (Or.inr (by omega))
    · rw [← h_appendAnswer]
      exact ih _ _ hnext hlength hsame

end Answers

theorem sound_responseBatch_iff (addresses : Addresses) :
    Sound (responseBatch answers) addresses true ↔ Answer.Fit sizeofRequestBatchHeader answers := by
  constructor
  · intro hsound
    refine fit_of_unchanged (ofBuffer ⟨fun _ => 0, 0⟩) (ofBuffer ⟨fun _ => 1, 0⟩) answers rfl
      (hsound _).1 fun x hx hsame => ?_
    have hzero := (hsound ⟨fun _ => 0, 0⟩).2.1 x hx
    have hone := (hsound ⟨fun _ => 1, 0⟩).2.1 x hx
    have hlong : 44 ≤ x := le_trans (by decide) hx
    rw [data_finish _ _ _ hlong] at hzero hone
    have hbyte : (0 : UInt8) = 1 := hzero.symm.trans (hsame.trans hone)
    exact absurd hbyte (by decide)
  · intro hfit
    refine sound_of_unchanged addresses true (fun buf => ?_) fun buf x hx => ?_
    · exact h_appendAnswers_le (ofBuffer buf) answers hfit
    · exact data_appendAnswers (ofBuffer buf) answers hfit hx

/-- **Packets keep to the Ethernet frame** if and only if the requests and the answers fit. -/
theorem sound_iff (addresses : Addresses) :
    (∀ requests, Sound (requestBatch requests) addresses false ↔
      packetLength requests ≤ kMaxPacketLength) ∧
    ∀ answers, Sound (responseBatch answers) addresses true ↔
      Answer.Fit sizeofRequestBatchHeader answers :=
  ⟨fun requests => sound_requestBatch_iff requests addresses,
    fun answers => sound_responseBatch_iff answers addresses⟩

/-- Two requests with values of 800 bytes. -/
def longRequests : List Request :=
  List.replicate 2 ⟨.kSet, .kSuccess, 0, 0, fun _ => 0, 8, fun _ => 0, 800⟩

/-- One answer with a value of `get_out_value_length` bytes. -/
def longAnswers : List Answer := [⟨.kGet, .kSuccess, 0, 0, fun _ => 0, 1442, 1442⟩]

/-- The space for one request is there for each of two, and the packet is too long.  So is the
packet with the answer, whose value is padded to a word. -/
theorem not_sound_long :
    (longRequests.length ≤ 255 ∧ (∀ buf, AdmitsRequests (ofBuffer buf) longRequests) ∧
      ¬ Sound (requestBatch longRequests) ⟨0, 0, 0, 0, 0, 0⟩ false) ∧
    (∀ buf, AdmitsAnswers (ofBuffer buf) longAnswers) ∧
      ¬ Sound (responseBatch longAnswers) ⟨0, 0, 0, 0, 0, 0⟩ true := by
  refine ⟨⟨by decide, fun buf => ⟨rfl, rfl, trivial⟩, fun hsound => ?_⟩, fun buf => ?_,
    fun hsound => ?_⟩
  · have hlong := (sound_requestBatch_iff longRequests _).mp hsound
    exact absurd hlong (by decide)
  · exact ⟨(by decide : 1442 ≤ sub64 1442 0), (by decide : 1442 ≤ sub64 1442 0), trivial⟩
  · have hlong := ((sound_responseBatch_iff longAnswers _).mp hsound).2
    exact absurd (show 48 + (24 + roundup8 1442) ≤ kMaxPacketLength from hlong) (by decide)

end RequestBatchBuilder

end Testbed.Mica
