import Testbed.Mica.Items

/-! # Packets

`mica/datagram/datagram_protocol.h`: a packet is an Ethernet frame with an IP and a UDP header, a
batch header and requests one after another, each with a header, a key and a value, padded to
words.  `RequestBatchBuilder` writes such a packet into a buffer, and `RequestBatchReader` reads
it; how many requests there are is told by the lengths alone.

A packet that was built is read as it was built (`reads_build`).
-/
namespace Testbed.Mica

open Lib Nat List

/-! ## `mica/processor/types.h` and `mica/table/types.h` -/

inductive Operation where
  | kReset
  | kNoopRead
  | kNoopWrite
  | kAdd
  | kSet
  | kGet
  | kTest
  | kDelete
  | kIncrement
  deriving DecidableEq, Repr

/-- The number of the enumerator. -/
def Operation.code : Operation → Nat
  | .kReset => 0
  | .kNoopRead => 1
  | .kNoopWrite => 2
  | .kAdd => 3
  | .kSet => 4
  | .kGet => 5
  | .kTest => 6
  | .kDelete => 7
  | .kIncrement => 8

/-- `static_cast<Operation>`, if there is an enumerator with the number. -/
def Operation.ofCode : Nat → Option Operation
  | 0 => some .kReset
  | 1 => some .kNoopRead
  | 2 => some .kNoopWrite
  | 3 => some .kAdd
  | 4 => some .kSet
  | 5 => some .kGet
  | 6 => some .kTest
  | 7 => some .kDelete
  | 8 => some .kIncrement
  | _ => none

theorem Operation.ofCode_code (operation : Operation) : ofCode operation.code = some operation := by
  cases operation <;> rfl

theorem Operation.code_lt (operation : Operation) : operation.code < 256 := by
  cases operation <;> decide

/-- The number of the enumerator. -/
def Result.code : Result → Nat
  | .kSuccess => 0
  | .kError => 1
  | .kInsufficientSpace => 2
  | .kExists => 3
  | .kNotFound => 4
  | .kPartialValue => 5
  | .kNotProcessed => 6
  | .kNotSupported => 7
  | .kTimedOut => 8
  | .kRejected => 9

/-- `static_cast<Result>`, if there is an enumerator with the number. -/
def Result.ofCode : Nat → Option Result
  | 0 => some .kSuccess
  | 1 => some .kError
  | 2 => some .kInsufficientSpace
  | 3 => some .kExists
  | 4 => some .kNotFound
  | 5 => some .kPartialValue
  | 6 => some .kNotProcessed
  | 7 => some .kNotSupported
  | 8 => some .kTimedOut
  | 9 => some .kRejected
  | _ => none

theorem Result.ofCode_code (result : Result) : ofCode result.code = some result := by
  cases result <;> rfl

theorem Result.code_lt (result : Result) : result.code < 256 := by
  cases result <;> decide

/-! ## Buffers -/

/-- `PacketBuffer`: the bytes from `get_data()` on, and `get_length()`, a 16-bit number. -/
structure PacketBuffer where
  data : Memory
  length : Nat

namespace PacketBuffer

/-- The number in `w` bytes, as the CPU reads it. -/
def load (buf : PacketBuffer) (offset w : Nat) : Nat := Memory.load id buf.data offset w

def store (buf : PacketBuffer) (offset w v : Nat) : PacketBuffer :=
  { buf with data := Memory.store id buf.data offset w v }

/-- `memcpy<8>` into the buffer. -/
def memcpy8 (buf : PacketBuffer) (offset : Nat) (source : Buffer) (n : Nat) : PacketBuffer :=
  { buf with data := Memory.copy id buf.data offset source (spanned n) }

def setLength (buf : PacketBuffer) (length : Nat) : PacketBuffer := { buf with length }

section
variable (buf : PacketBuffer) {offset offset' w w' v x n : Nat} {source : Buffer}

variable (length : Nat)

@[simp] theorem load_setLength : (buf.setLength length).load offset w = buf.load offset w := rfl

@[simp] theorem data_setLength : (buf.setLength length).data = buf.data := rfl

theorem load_lt : buf.load offset w < 256 ^ w := Memory.load_lt _ _ _

theorem load_store_self : (buf.store offset w v).load offset w = v % 256 ^ w :=
  Memory.load_store (Memory.distinct_id _ _)

theorem load_store_apart (h : offset' + w' ≤ offset ∨ offset + w ≤ offset') :
    (buf.store offset w v).load offset' w' = buf.load offset' w' :=
  Memory.load_store_apart (Memory.apart_id h.symm)

theorem data_store : (buf.store offset w v).data x =
    if offset ≤ x ∧ x < offset + w then Memory.byteOf v (x - offset) else buf.data x :=
  Memory.copy_id

theorem data_store_apart (h : x < offset ∨ offset + w ≤ x) :
    (buf.store offset w v).data x = buf.data x :=
  buf.data_store.trans (if_neg (by omega))

theorem data_memcpy8_apart (h : x < offset ∨ offset + spanned n ≤ x) :
    (buf.memcpy8 offset source n).data x = buf.data x :=
  Memory.copy_id.trans (if_neg (by omega))

theorem data_memcpy8_self {i : Nat} (hi : i < spanned n) :
    (buf.memcpy8 offset source n).data (offset + i) = source i := by
  refine Memory.copy_id.trans ?_
  rw [if_pos (by omega), Nat.add_sub_cancel_left]

end

end PacketBuffer

open PacketBuffer

/-- `rte_cpu_to_be_16`, which is also `rte_be_to_cpu_16`. -/
def swap16 (v : Nat) : Nat := v % 256 * 256 + v / 256 % 256

theorem swap16_lt (v : Nat) : swap16 v < 256 ^ 2 := by
  unfold swap16
  omega

theorem swap16_swap16 {v : Nat} (h : v < 2 ^ 16) : swap16 (swap16 v) = v := by
  have hhigh : v / 256 < 256 := by omega
  have hmod : (v % 256 * 256 + v / 256) % 256 = v / 256 := by omega
  have hdiv : (v % 256 * 256 + v / 256) / 256 = v % 256 := by omega
  unfold swap16
  rw [mod_eq_of_lt hhigh, hmod, hdiv]
  omega

def sizeofEtherHdr : Nat := 14
def sizeofIpv4Hdr : Nat := 20
def sizeofRequestBatchHeader : Nat := 48
def sizeofRequestHeader : Nat := 24

def kEtherMaxLen : Nat := 1518
def kEtherCrcLen : Nat := 4

/-- `ETHER_TYPE_IPv4`. -/
def kEtherTypeIpv4 : Nat := 0x0800

/-- `IPPROTO_UDP`. -/
def kIpProtoUdp : Nat := 17

/-! ## `RequestBatchReader` -/

/-- The reader; `h` is the offset of the request header, if there was one. -/
structure RequestBatchReader where
  buf : PacketBuffer
  h : Option Nat

namespace RequestBatchReader

/-- The constructor. -/
def ofBuffer (buf : PacketBuffer) : RequestBatchReader := ⟨buf, none⟩

variable (r : RequestBatchReader)

/-- The tests of `is_valid`, one after another. -/
def isValid : Bool :=
  let len := r.buf.length
  if len < sizeofRequestBatchHeader then false
  else if r.buf.load 12 2 ≠ swap16 kEtherTypeIpv4 then false
  else if r.buf.load 14 1 ≠ 0x45 then false
  else if r.buf.load 18 2 ≠ 0 ∨ r.buf.load 20 2 ≠ 0 then false
  else if swap16 (r.buf.load 16 2) ≠ len - sizeofEtherHdr then false
  else if r.buf.load 23 1 ≠ kIpProtoUdp then false
  else if swap16 (r.buf.load 38 2) ≠ len - sizeofEtherHdr - sizeofIpv4Hdr then false
  else if r.buf.load 42 1 ≠ 0x78 ∧ r.buf.load 42 1 ≠ 0x79 then false
  else true

def getDestMacAddr : Nat := r.buf.load 0 6
def getSrcMacAddr : Nat := r.buf.load 6 6
def getSrcIpv4Addr : Nat := r.buf.load 26 4
def getDestIpv4Addr : Nat := r.buf.load 30 4
def getSrcUdpPort : Nat := r.buf.load 34 2
def getDestUdpPort : Nat := r.buf.load 36 2

def isRequest : Bool := r.buf.load 42 1 == 0x78

def isResponse : Bool := r.buf.load 42 1 == 0x79

/-- The request header; `find_next` sets it. -/
def header : Nat := r.h.getD 0

def getOperation : Nat := r.buf.load r.header 1

def getResult : Nat := r.buf.load (r.header + 1) 1

def getOpaque : Nat := r.buf.load (r.header + 16) 4

def getKeyHash : Nat := r.buf.load (r.header + 8) 8

def getKeyLength (r : RequestBatchReader) : Nat := Mica.getKeyLength (r.buf.load (r.header + 4) 4)

def getValueLength (r : RequestBatchReader) : Nat :=
  Mica.getValueLength (r.buf.load (r.header + 4) 4)

def getKey : Buffer :=
  fun i => r.buf.data (r.header + sizeofRequestHeader + i)

def getValue : Buffer :=
  fun i => r.buf.data (r.header + sizeofRequestHeader + roundup8 r.getKeyLength + i)

/-- The end of the request. -/
def requestEnd : Nat :=
  r.header + sizeofRequestHeader + roundup8 r.getKeyLength + roundup8 r.getValueLength

/-- The header that `find_next` goes to. -/
def advance : RequestBatchReader :=
  match r.h with
  | none => { r with h := some sizeofRequestBatchHeader }
  | some _ => { r with h := some r.requestEnd }

/-- `find_next`: the lengths are read only if the header is in the packet. -/
def findNext : Bool × RequestBatchReader :=
  let r := r.advance
  if r.header + sizeofRequestHeader > r.buf.length then (false, r)
  else if r.requestEnd > r.buf.length then (false, r)
  else (true, r)

end RequestBatchReader

/-! ## `RequestBatchBuilder` -/

/-- The builder; `remaining_space_` and `count_` are 16-bit numbers. -/
structure RequestBatchBuilder where
  buf : PacketBuffer
  h : Nat
  remainingSpace : Nat
  count : Nat

/-- What a request is made of; keys and values are read as pointers with lengths. -/
structure Request where
  operation : Operation
  result : Result
  opaqueNumber : Nat
  keyHash : Nat
  key : Buffer
  keyLength : Nat
  value : Buffer
  valueLength : Nat

namespace RequestBatchBuilder

/-- `kMaxValueLength` of a packet. -/
def kMaxValueLength : Nat :=
  kEtherMaxLen - kEtherCrcLen - sizeofRequestBatchHeader - sizeofRequestHeader

/-- The constructor. -/
def ofBuffer (buf : PacketBuffer) : RequestBatchBuilder :=
  ⟨buf, sizeofRequestBatchHeader, kMaxValueLength, 0⟩

variable (b : RequestBatchBuilder) (v : Nat)

def setDestMacAddr : RequestBatchBuilder :=
  { b with buf := b.buf.store 0 6 v }

def setSrcMacAddr : RequestBatchBuilder :=
  { b with buf := b.buf.store 6 6 v }

def setSrcIpv4Addr : RequestBatchBuilder :=
  { b with buf := b.buf.store 26 4 v }

def setDestIpv4Addr : RequestBatchBuilder :=
  { b with buf := b.buf.store 30 4 v }

def setSrcUdpPort : RequestBatchBuilder :=
  { b with buf := b.buf.store 34 2 v }

def setDestUdpPort : RequestBatchBuilder :=
  { b with buf := b.buf.store 36 2 v }

def setRequest : RequestBatchBuilder :=
  { b with buf := b.buf.store 42 1 0x78 }

def setResponse : RequestBatchBuilder :=
  { b with buf := b.buf.store 42 1 0x79 }

/-- `remaining_space_` is what it was when the builder was made. -/
def hasSufficientSpace (keyLength valueLength : Nat) : Bool :=
  decide (roundup8 keyLength + roundup8 valueLength ≤ b.remainingSpace)

def getMaxOutKeyLength : Nat := b.remainingSpace

/-- The offset of `get_out_value`. -/
def getOutValue (keyLength : Nat) : Nat :=
  b.h + sizeofRequestHeader + roundup8 keyLength

def getMaxOutValueLength (keyLength : Nat) : Nat :=
  sub64 b.remainingSpace (roundup8 keyLength)

/-- The fields of the request header that are written.  The operation may be cast from any
byte. -/
def writeHeader (buf : PacketBuffer) (h operation : Nat) (result : Result)
    (opaqueNumber keyHash keyLength valueLength : Nat) : PacketBuffer :=
  let buf := buf.store h 1 operation
  let buf := buf.store (h + 1) 1 result.code
  let buf := buf.store (h + 8) 8 keyHash
  let buf := buf.store (h + 16) 4 opaqueNumber
  let buf := buf.store (h + 2) 2 0
  buf.store (h + 4) 4 (makeKvLengthVec keyLength valueLength)

/-- The builder behind the request. -/
def skip (keyLength valueLength : Nat) : RequestBatchBuilder :=
  { b with
    h := b.h + sizeofRequestHeader + roundup8 keyLength + roundup8 valueLength
    count := (b.count + 1) % 2 ^ 16 }

def appendRequestNoKeyValue (operation : Nat) (result : Result)
    (opaqueNumber keyHash keyLength valueLength : Nat) : RequestBatchBuilder :=
  let buf := writeHeader b.buf b.h operation result opaqueNumber keyHash keyLength valueLength
  { b with buf }.skip keyLength valueLength

def appendRequest (q : Request) : RequestBatchBuilder :=
  let buf := writeHeader b.buf b.h q.operation.code q.result q.opaqueNumber q.keyHash q.keyLength
    q.valueLength
  let p := b.h + sizeofRequestHeader
  let buf := buf.memcpy8 p q.key (roundup8 q.keyLength)
  let buf := buf.memcpy8 (p + roundup8 q.keyLength) q.value (roundup8 q.valueLength)
  { b with buf }.skip q.keyLength q.valueLength

def finalize : RequestBatchBuilder :=
  let packetLength := b.h
  let buf := b.buf.setLength (packetLength % 2 ^ 16)
  let buf := buf.store 16 2 (swap16 ((packetLength - sizeofEtherHdr) % 2 ^ 16))
  let buf := buf.store 38 2 (swap16 ((packetLength - sizeofEtherHdr - sizeofIpv4Hdr) % 2 ^ 16))
  let buf := buf.store 12 2 (swap16 kEtherTypeIpv4)
  let buf := buf.store 14 1 0x45
  let buf := buf.store 15 1 0
  let buf := buf.store 18 2 0
  let buf := buf.store 20 2 0
  let buf := buf.store 22 1 64
  let buf := buf.store 23 1 kIpProtoUdp
  let buf := buf.store 24 2 0
  let buf := buf.store 40 2 0
  { b with buf := buf.store 43 1 b.count }

end RequestBatchBuilder

/-! ## What a packet holds -/

/-- The bytes of a request. -/
def Request.encodedLength (q : Request) : Nat :=
  sizeofRequestHeader + roundup8 q.keyLength + roundup8 q.valueLength

/-- The numbers are in the range of their fields. -/
structure Request.Bounded (q : Request) : Prop where
  opaqueNumber_lt : q.opaqueNumber < 2 ^ 32
  keyHash_lt : q.keyHash < 2 ^ 64
  keyLength_lt : q.keyLength < 2 ^ 8
  valueLength_lt : q.valueLength < 2 ^ 24

namespace PacketBuffer
variable {buf buf' : PacketBuffer} {h : Nat} {q : Request} {requests : List Request}

/-- The fields of the request header at the offset. -/
structure HeaderAt (buf : PacketBuffer) (h operation : Nat) (result : Result)
    (opaqueNumber keyHash keyLength valueLength : Nat) : Prop where
  operation : buf.load h 1 = operation
  result : buf.load (h + 1) 1 = result.code
  lengths : buf.load (h + 4) 4 = makeKvLengthVec keyLength valueLength
  keyHash : buf.load (h + 8) 8 = keyHash
  opaqueNumber : buf.load (h + 16) 4 = opaqueNumber

/-- The request is written at the offset. -/
structure Encodes (buf : PacketBuffer) (h : Nat) (q : Request) : Prop where
  header :
    buf.HeaderAt h q.operation.code q.result q.opaqueNumber q.keyHash q.keyLength q.valueLength
  key : ∀ i < q.keyLength, buf.data (h + sizeofRequestHeader + i) = q.key i
  value : ∀ i < q.valueLength,
    buf.data (h + sizeofRequestHeader + roundup8 q.keyLength + i) = q.value i

/-- The requests are written one after another, from the offset on. -/
def EncodesAll (buf : PacketBuffer) : Nat → List Request → Prop
  | _, [] => True
  | h, q :: rest => buf.Encodes h q ∧ EncodesAll buf (h + q.encodedLength) rest

/-- Where the requests end. -/
def endOf (h : Nat) (requests : List Request) : Nat :=
  h + (requests.map Request.encodedLength).sum

theorem endOf_cons : endOf h (q :: requests) = endOf (h + q.encodedLength) requests := by
  unfold endOf
  rw [map_cons, sum_cons, add_assoc]

theorem load_congr {offset w : Nat} (hsame : ∀ x, offset ≤ x → x < offset + w →
    buf'.data x = buf.data x) : buf'.load offset w = buf.load offset w :=
  Memory.load_congr fun i hi => hsame (offset + i) (by omega) (by omega)

theorem load_header_congr {d w : Nat}
    (hsame : ∀ x, h ≤ x → x < h + sizeofRequestHeader → buf'.data x = buf.data x)
    (hd : d + w ≤ sizeofRequestHeader) : buf'.load (h + d) w = buf.load (h + d) w :=
  load_congr fun x hx hx' => hsame x (by omega) (by omega)

theorem HeaderAt.congr {operation : Nat} {result : Result}
    {opaqueNumber keyHash keyLength valueLength : Nat}
    (hheader : buf.HeaderAt h operation result opaqueNumber keyHash keyLength valueLength)
    (hsame : ∀ x, h ≤ x → x < h + sizeofRequestHeader → buf'.data x = buf.data x) :
    buf'.HeaderAt h operation result opaqueNumber keyHash keyLength valueLength := by
  exact ⟨(load_header_congr (d := 0) hsame (by decide)).trans hheader.operation,
    (load_header_congr hsame (by decide)).trans hheader.result,
    (load_header_congr hsame (by decide)).trans hheader.lengths,
    (load_header_congr hsame (by decide)).trans hheader.keyHash,
    (load_header_congr hsame (by decide)).trans hheader.opaqueNumber⟩

theorem Encodes.congr (hq : buf.Encodes h q)
    (hsame : ∀ x, h ≤ x → x < h + q.encodedLength → buf'.data x = buf.data x) :
    buf'.Encodes h q := by
  have hkey := le_roundup8 q.keyLength
  have hvalue := le_roundup8 q.valueLength
  unfold Request.encodedLength at hsame
  refine ⟨hq.header.congr fun x hx hx' => hsame x hx (by omega), fun i hi => ?_, fun i hi => ?_⟩
  · exact (hsame _ (by omega) (by omega)).trans (hq.key i hi)
  · exact (hsame _ (by omega) (by omega)).trans (hq.value i hi)

theorem EncodesAll.congr (hall : buf.EncodesAll h requests)
    (hsame : ∀ x, h ≤ x → x < endOf h requests → buf'.data x = buf.data x) :
    buf'.EncodesAll h requests := by
  induction requests generalizing h with
  | nil => trivial
  | cons q rest ih =>
    rw [endOf_cons] at hsame
    have hend : h + q.encodedLength ≤ endOf (h + q.encodedLength) rest := le_add_right _ _
    exact ⟨hall.1.congr fun x hx hx' => hsame x hx (by omega),
      ih hall.2 fun x hx hx' => hsame x (by omega) hx'⟩

end PacketBuffer

namespace RequestBatchBuilder
variable (b : RequestBatchBuilder) (q : Request) {x : Nat}

section
variable (buf : PacketBuffer) (h operation : Nat) (result : Result)
  (opaqueNumber keyHash keyLength valueLength : Nat)

/-- **The fields that are written** are read back. -/
theorem headerAt_writeHeader :
    (writeHeader buf h operation result opaqueNumber keyHash keyLength valueLength).HeaderAt h
      (operation % 256 ^ 1) result (opaqueNumber % 256 ^ 4) (keyHash % 256 ^ 8) keyLength
      valueLength := by
  unfold writeHeader
  constructor
  · simp (disch := omega) only [load_store_apart, load_store_self]
  · simp (disch := omega) only [load_store_apart, load_store_self]
    exact mod_eq_of_lt result.code_lt
  · rw [load_store_self]
    exact mod_eq_of_lt (makeKvLengthVec_lt keyLength valueLength)
  · simp (disch := omega) only [load_store_apart, load_store_self]
  · simp (disch := omega) only [load_store_apart, load_store_self]

theorem data_writeHeader (hx : x < h ∨ h + sizeofRequestHeader ≤ x) :
    (writeHeader buf h operation result opaqueNumber keyHash keyLength valueLength).data x =
      buf.data x := by
  unfold sizeofRequestHeader at hx
  unfold writeHeader
  simp (disch := omega) only [data_store_apart]

end

/-- **A request that is appended** stands where the builder was. -/
theorem encodes_appendRequest (hq : q.Bounded) : (b.appendRequest q).buf.Encodes b.h q := by
  have hkey := le_roundup8 q.keyLength
  have hvalue := le_roundup8 q.valueLength
  have hspan := spanned_of_dvd (dvd_roundup8 q.keyLength)
  have hspan' := spanned_of_dvd (dvd_roundup8 q.valueLength)
  have hheader := headerAt_writeHeader b.buf b.h q.operation.code q.result q.opaqueNumber q.keyHash
    q.keyLength q.valueLength
  rw [mod_eq_of_lt (show _ < 256 ^ 1 from q.operation.code_lt),
    mod_eq_of_lt (show _ < 256 ^ 4 from hq.opaqueNumber_lt),
    mod_eq_of_lt (show _ < 256 ^ 8 from hq.keyHash_lt)] at hheader
  refine ⟨hheader.congr fun x hx hx' => ?_, fun i hi => ?_, fun i hi => ?_⟩
  · refine (data_memcpy8_apart _ (by omega)).trans ?_
    exact data_memcpy8_apart _ (by omega)
  · refine (data_memcpy8_apart _ (by omega)).trans ?_
    exact data_memcpy8_self _ (by omega)
  · exact data_memcpy8_self _ (by omega)

theorem h_appendRequest : (b.appendRequest q).h = b.h + q.encodedLength := by
  unfold Request.encodedLength
  rw [← add_assoc, ← add_assoc]
  rfl

theorem data_appendRequest (hx : x < b.h ∨ b.h + q.encodedLength ≤ x) :
    (b.appendRequest q).buf.data x = b.buf.data x := by
  have hspan := spanned_of_dvd (dvd_roundup8 q.keyLength)
  have hspan' := spanned_of_dvd (dvd_roundup8 q.valueLength)
  unfold Request.encodedLength at hx
  refine (data_memcpy8_apart _ (by omega)).trans ?_
  refine (data_memcpy8_apart _ (by omega)).trans ?_
  exact data_writeHeader _ _ _ _ _ _ _ _ (by omega)

/-- The requests, appended one after another. -/
def appendRequests (b : RequestBatchBuilder) (requests : List Request) : RequestBatchBuilder :=
  requests.foldl appendRequest b

variable (requests : List Request)

theorem h_appendRequests : (b.appendRequests requests).h = endOf b.h requests := by
  induction requests generalizing b with
  | nil => rfl
  | cons _ _ ih =>
    rw [endOf_cons, ← h_appendRequest]
    exact ih _

theorem data_appendRequests (hx : x < b.h ∨ endOf b.h requests ≤ x) :
    (b.appendRequests requests).buf.data x = b.buf.data x := by
  induction requests generalizing b with
  | nil => rfl
  | cons q rest ih =>
    rw [endOf_cons, ← h_appendRequest] at hx
    have hend : (b.appendRequest q).h ≤ endOf (b.appendRequest q).h rest := le_add_right _ _
    have hq := b.h_appendRequest q
    refine (ih (b.appendRequest q) (by omega)).trans (b.data_appendRequest q (by omega))

/-- **The requests that are appended** stand one after another. -/
theorem encodesAll_appendRequests (hbounded : ∀ q ∈ requests, q.Bounded) :
    (b.appendRequests requests).buf.EncodesAll b.h requests := by
  induction requests generalizing b with
  | nil => trivial
  | cons q rest ih =>
    have hh := b.h_appendRequest q
    constructor
    · refine (b.encodes_appendRequest q (hbounded q mem_cons_self)).congr fun x _ hx => ?_
      exact (b.appendRequest q).data_appendRequests rest (Or.inl (by omega))
    · rw [← hh]
      exact ih _ fun p hp => hbounded p (mem_cons_of_mem q hp)

/-! ### `finalize` -/

theorem data_finalize (hx : 44 ≤ x) : b.finalize.buf.data x = b.buf.data x := by
  unfold finalize
  simp (disch := omega) only [data_store_apart, data_setLength]

theorem length_finalize : b.finalize.buf.length = b.h % 2 ^ 16 := rfl

theorem load_finalize {offset w : Nat} (hoffset : offset + w ≤ 12 ∨
    26 ≤ offset ∧ offset + w ≤ 38 ∨ 42 ≤ offset ∧ offset + w ≤ 43) :
    b.finalize.buf.load offset w = b.buf.load offset w := by
  unfold finalize
  simp (disch := omega) only [load_store_apart, load_setLength]

theorem lengths_finalize : swap16 (b.finalize.buf.load 16 2) = (b.h - sizeofEtherHdr) % 2 ^ 16 ∧
      swap16 (b.finalize.buf.load 38 2) = (b.h - sizeofEtherHdr - sizeofIpv4Hdr) % 2 ^ 16 := by
  have hlt (n : Nat) := Nat.mod_lt n (Nat.two_pow_pos 16)
  unfold finalize
  constructor
  all_goals
    simp (disch := omega) only [load_store_apart, load_store_self]
    rw [mod_eq_of_lt (swap16_lt _), swap16_swap16 (hlt _)]

/-- **A finalized packet is valid** if its length fits. -/
theorem isValid_finalize (hmin : sizeofRequestBatchHeader ≤ b.h) (hmax : b.h < 2 ^ 16)
    (hmagic : b.buf.load 42 1 = 0x78 ∨ b.buf.load 42 1 = 0x79) :
    (RequestBatchReader.ofBuffer b.finalize.buf).isValid = true := by
  have hlength : b.finalize.buf.length = b.h := mod_eq_of_lt hmax
  obtain ⟨htotal, hdgram⟩ := b.lengths_finalize
  rw [mod_eq_of_lt (by omega)] at htotal hdgram
  have hetherType : b.finalize.buf.load 12 2 = swap16 kEtherTypeIpv4 := by
    unfold finalize
    simp (disch := omega) only [load_store_apart, load_store_self]
    exact mod_eq_of_lt (swap16_lt _)
  have hversion : b.finalize.buf.load 14 1 = 0x45 := by
    unfold finalize
    rfl
  have hid : b.finalize.buf.load 18 2 = 0 := by
    unfold finalize
    simp (disch := omega) only [load_store_apart, load_store_self]
    rfl
  have hfragment : b.finalize.buf.load 20 2 = 0 := by
    unfold finalize
    simp (disch := omega) only [load_store_apart, load_store_self]
    rfl
  have hproto : b.finalize.buf.load 23 1 = kIpProtoUdp := by
    unfold finalize
    rfl
  have hmagic' : b.finalize.buf.load 42 1 = 0x78 ∨ b.finalize.buf.load 42 1 = 0x79 := by
    exact hmagic
  unfold RequestBatchReader.isValid RequestBatchReader.ofBuffer
  simp only [hlength, htotal, hdgram, hetherType, hversion, hid, hfragment, hproto]
  rw [if_neg (by omega), if_neg (by simp), if_neg (by simp), if_neg (by simp), if_neg (by simp),
    if_neg (by simp), if_neg (by simp), if_neg (by omega)]

end RequestBatchBuilder

/-! ## Reading -/

namespace RequestBatchReader
variable {r : RequestBatchReader} {q : Request} {requests : List Request}

/-- The reader shows the request. -/
structure Shows (r : RequestBatchReader) (q : Request) : Prop where
  operation : Operation.ofCode r.getOperation = some q.operation
  result : Result.ofCode r.getResult = some q.result
  opaqueNumber : r.getOpaque = q.opaqueNumber
  keyHash : r.getKeyHash = q.keyHash
  keyLength : r.getKeyLength = q.keyLength
  valueLength : r.getValueLength = q.valueLength
  key : ∀ i < q.keyLength, r.getKey i = q.key i
  value : ∀ i < q.valueLength, r.getValue i = q.value i

/-- Successive calls of `find_next` return `true` for each request, and then `false`. -/
def Reads : RequestBatchReader → List Request → Prop
  | r, [] => r.findNext.1 = false
  | r, q :: rest => r.findNext.1 = true ∧ r.findNext.2.Shows q ∧ Reads r.findNext.2 rest

theorem shows_of_encodes (hq : q.Bounded) (hencodes : r.buf.Encodes r.header q) : r.Shows q := by
  have hkey : r.getKeyLength = q.keyLength := by
    unfold getKeyLength
    rw [hencodes.header.lengths]
    exact getKeyLength_makeKvLengthVec hq.keyLength_lt hq.valueLength_lt
  have hvalue : r.getValueLength = q.valueLength := by
    unfold getValueLength
    rw [hencodes.header.lengths]
    exact getValueLength_makeKvLengthVec hq.keyLength_lt hq.valueLength_lt
  refine ⟨?_, ?_, hencodes.header.opaqueNumber, hencodes.header.keyHash, hkey, hvalue,
    hencodes.key, fun i hi => ?_⟩
  · unfold getOperation
    rw [hencodes.header.operation, Operation.ofCode_code]
  · unfold getResult
    rw [hencodes.header.result, Result.ofCode_code]
  · unfold getValue
    rw [hkey]
    exact hencodes.value i hi

theorem requestEnd_of_shows (hshows : r.Shows q) : r.requestEnd = r.header + q.encodedLength := by
  unfold requestEnd Request.encodedLength
  rw [hshows.keyLength, hshows.valueLength, add_assoc, add_assoc, add_assoc]

theorem buf_advance : r.advance.buf = r.buf := by
  unfold advance
  cases r.h <;> rfl

variable (buf : PacketBuffer)

theorem header_mk (h : Nat) : header ⟨buf, some h⟩ = h := rfl

theorem advance_of_some {h : Nat} (hh : r.h = some h) : r.advance = ⟨r.buf, some r.requestEnd⟩ := by
  unfold advance
  split
  · rename_i hnone
    cases hnone.symm.trans hh
  · rfl

theorem exists_h_advance : ∃ h, r.advance.h = some h := by
  unfold advance
  split
  · exact ⟨_, rfl⟩
  · exact ⟨_, rfl⟩

theorem findNext_of_end (hend : r.advance.header = r.buf.length) : r.findNext.1 = false := by
  unfold findNext
  rw [if_pos]
  rw [hend, buf_advance]
  exact Nat.lt_add_of_pos_right (by decide)

theorem findNext_of_shows (hshows : r.advance.Shows q)
    (hend : r.advance.header + q.encodedLength ≤ r.buf.length) :
    r.findNext = (true, r.advance) := by
  unfold findNext
  have hrequest := requestEnd_of_shows hshows
  have hlength : r.advance.buf.length = r.buf.length := by rw [buf_advance]
  have hheader : r.advance.header + sizeofRequestHeader ≤ r.advance.header + q.encodedLength := by
    unfold Request.encodedLength
    omega
  rw [if_neg (by omega), if_neg (by omega)]

/-- **The requests in a buffer are read**, one after another. -/
theorem reads_of_encodesAll {h : Nat} (hbounded : ∀ q ∈ requests, q.Bounded)
    (hencodes : r.buf.EncodesAll h requests) (hheader : r.advance.header = h)
    (hlength : r.buf.length = endOf h requests) : r.Reads requests := by
  induction requests generalizing r h with
  | nil => exact findNext_of_end (hheader.trans hlength.symm)
  | cons q rest ih =>
    have hbuf := buf_advance (r := r)
    have hshows : r.advance.Shows q := by
      refine shows_of_encodes (hbounded q mem_cons_self) ?_
      rw [hbuf, hheader]
      exact hencodes.1
    rw [endOf_cons] at hlength
    have hend : h + q.encodedLength ≤ endOf (h + q.encodedLength) rest := le_add_right _ _
    have hfind := findNext_of_shows hshows (by omega)
    have hnext : r.advance.advance.header = h + q.encodedLength := by
      obtain ⟨h', hh⟩ := exists_h_advance (r := r)
      rw [advance_of_some hh, header_mk, requestEnd_of_shows hshows, hheader]
    unfold Reads
    rw [hfind]
    refine ⟨rfl, hshows, ih (fun p hp => hbounded p (mem_cons_of_mem q hp)) ?_ hnext ?_⟩
    · rw [hbuf]
      exact hencodes.2
    · rw [hbuf]
      exact hlength

/-! ## All requests of a packet -/

/-- The readers with which `while (r.find_next())` goes through its body. -/
def scan : Nat → RequestBatchReader → List RequestBatchReader
  | 0, _ => []
  | fuel + 1, r => if r.findNext.1 then r.findNext.2 :: scan fuel r.findNext.2 else []

/-- The loop over a packet; a request has at least one byte. -/
def requestsOf : List RequestBatchReader :=
  scan (buf.length + 1) (ofBuffer buf)

theorem findNext_eq_true (h : r.findNext.1 = true) :
    r.findNext.2 = r.advance ∧ r.advance.requestEnd ≤ r.buf.length := by
  unfold findNext at h ⊢
  have hbuf := buf_advance (r := r)
  by_cases h₁ : r.advance.header + sizeofRequestHeader > r.advance.buf.length
  · rw [if_pos h₁] at h
    cases h
  · by_cases h₂ : r.advance.requestEnd > r.advance.buf.length
    · rw [if_neg h₁, if_pos h₂] at h
      cases h
    · rw [if_neg h₁, if_neg h₂]
      rw [hbuf] at h₂
      exact ⟨rfl, Nat.le_of_not_lt h₂⟩

theorem header_advance_advance : r.advance.advance.header = r.advance.requestEnd := by
  obtain ⟨h, hh⟩ := exists_h_advance (r := r)
  rw [advance_of_some hh, header_mk]

theorem header_le_requestEnd : r.header + sizeofRequestHeader ≤ r.requestEnd := by
  unfold requestEnd
  omega

theorem length_scan_le {fuel : Nat} (h : scan fuel r ≠ []) :
    r.advance.header + sizeofRequestHeader * (scan fuel r).length ≤ r.buf.length := by
  induction fuel generalizing r with
  | zero => exact absurd rfl h
  | succ fuel ih =>
    unfold scan at h ⊢
    by_cases hfound : r.findNext.1 = true
    · rw [if_pos hfound, length_cons]
      obtain ⟨hnext, hend⟩ := findNext_eq_true hfound
      have hheader := header_le_requestEnd (r := r.advance)
      rw [hnext]
      by_cases hnil : scan fuel r.advance = []
      · rw [hnil, length_nil]
        omega
      · have hrest := ih hnil
        rw [header_advance_advance, buf_advance] at hrest
        rw [mul_add]
        omega
    · rw [if_neg hfound] at h
      exact absurd rfl h

theorem length_requestsOf_le :
    (requestsOf buf).length ≤ (buf.length - sizeofRequestBatchHeader) / sizeofRequestHeader := by
  by_cases hnil : requestsOf buf = []
  · rw [hnil]
    exact zero_le _
  · have hle : sizeofRequestBatchHeader + sizeofRequestHeader * (requestsOf buf).length ≤
        buf.length := length_scan_le hnil
    unfold sizeofRequestHeader at hle ⊢
    omega

/-- The reader after a number of calls of `find_next`. -/
def after : Nat → RequestBatchReader
  | 0 => ofBuffer buf
  | n + 1 => (after n).findNext.2

/-- The bytes that `find_next` reads: the lengths in the header that it leaves, and in the header
that it goes to. -/
def FindNextReads (r : RequestBatchReader) (x : Nat) : Prop :=
  (∃ h, r.h = some h ∧ h + 4 ≤ x ∧ x < h + 8) ∨
    r.advance.header + sizeofRequestHeader ≤ r.buf.length ∧
      r.advance.header + 4 ≤ x ∧ x < r.advance.header + 8

/-- The request is in the packet, and behind the header of the packet. -/
def Inside (r : RequestBatchReader) : Prop :=
  sizeofRequestBatchHeader ≤ r.header ∧ r.requestEnd ≤ r.buf.length

variable {buf} {n : Nat}

theorem after_succ (h : (after buf n).findNext.1 = true) :
    after buf (n + 1) = (after buf n).advance := (findNext_eq_true h).1

theorem after_of_found (h : ∀ k < n, (after buf k).findNext.1 = true) :
    (after buf n).buf = buf ∧ (n = 0 ∨ (after buf n).Inside ∧
      sizeofRequestBatchHeader + sizeofRequestHeader * n ≤ buf.length) ∧
      sizeofRequestBatchHeader + sizeofRequestHeader * n ≤ (after buf n).advance.header := by
  induction n with
  | zero => exact ⟨rfl, Or.inl rfl, le_refl _⟩
  | succ n ih =>
    have hfound := h n (lt_succ_self n)
    obtain ⟨hbuf, -, hheader⟩ := ih fun k hk => h k (lt_succ_of_lt hk)
    have hlength := (findNext_eq_true hfound).2
    have hend := header_le_requestEnd (r := (after buf n).advance)
    rw [after_succ hfound, header_advance_advance, Inside, buf_advance, mul_succ]
    rw [hbuf] at hlength ⊢
    exact ⟨rfl, Or.inr ⟨⟨by omega, hlength⟩, by omega⟩, by omega⟩

/-- **Parsing a packet is safe**: `find_next` returns false after at most one call for every 24
bytes and one more; until then it reads nothing but bytes of the packet, and the requests that
it finds are in the packet, one right behind the other. -/
theorem parsing_safe (buf : PacketBuffer) :
    ∃ n ≤ (buf.length - sizeofRequestBatchHeader) / sizeofRequestHeader,
      (after buf n).findNext.1 = false ∧
      (∀ k ≤ n, ∀ x, (after buf k).FindNextReads x → x < buf.length) ∧
      ∀ k < n, (after buf k).findNext.1 = true ∧ (after buf (k + 1)).Inside ∧
        (k + 1 < n → (after buf (k + 2)).header = (after buf (k + 1)).requestEnd) := by
  have hends : ∃ n, ¬ (after buf n).findNext.1 = true := by
    by_contra! hall
    obtain ⟨-, hinside, -⟩ := after_of_found (n := buf.length + 1) fun k _ => hall k
    have hle := (hinside.resolve_left (succ_ne_zero _)).2
    unfold sizeofRequestHeader at hle
    omega
  classical
  obtain ⟨n, hn, hmin⟩ : ∃ n, ¬ (after buf n).findNext.1 = true ∧
      ∀ k < n, (after buf k).findNext.1 = true :=
    ⟨Nat.find hends, Nat.find_spec hends, fun k hk => not_not.mp (Nat.find_min hends hk)⟩
  have hfound : ∀ k ≤ n, _ := fun k hk => after_of_found fun i hi =>
    hmin i (lt_of_lt_of_le hi hk)
  refine ⟨n, ?_, Bool.eq_false_iff.mpr hn, fun k hk x hx => ?_, fun k hk => ⟨hmin k hk, ?_, ?_⟩⟩
  · obtain rfl | ⟨-, hle⟩ := (hfound n (le_refl n)).2.1
    · exact zero_le _
    · unfold sizeofRequestHeader at hle ⊢
      omega
  · obtain ⟨hbuf, hinside, -⟩ := hfound k hk
    obtain ⟨h, hh, -, hlt⟩ | ⟨hle, -, hlt⟩ := hx
    · obtain rfl | ⟨hinside, -⟩ := hinside
      · cases hh
      · have hend := header_le_requestEnd (r := after buf k)
        have hheader : (after buf k).header = h := by rw [header, hh, Option.getD_some]
        have hlength := hinside.2
        rw [hbuf] at hlength
        unfold sizeofRequestHeader at hend
        omega
    · rw [hbuf] at hle
      unfold sizeofRequestHeader at hle
      omega
  · exact ((hfound (k + 1) hk).2.1.resolve_left (succ_ne_zero k)).1
  · intro hnext
    rw [after_succ (hmin (k + 1) hnext), after_succ (hmin k hk), header_advance_advance]

end RequestBatchReader

namespace RequestBatchBuilder

/-- A packet with the requests, for requests or for responses. -/
def build (buf : PacketBuffer) (response : Bool) (requests : List Request) : PacketBuffer :=
  let b := ofBuffer buf
  let b := if response then b.setResponse else b.setRequest
  (b.appendRequests requests).finalize.buf

/-- The bytes of a packet with the requests. -/
def packetLength (requests : List Request) : Nat :=
  endOf sizeofRequestBatchHeader requests

/-- **The wire format round-trips.** -/
theorem reads_build (buf : PacketBuffer) (response : Bool) (requests : List Request)
    (hbounded : ∀ q ∈ requests, q.Bounded)
    (hfits : packetLength requests ≤ 65535) :
    let r := RequestBatchReader.ofBuffer (build buf response requests)
    r.isValid = true ∧ r.isRequest = !response ∧ r.isResponse = response ∧ r.Reads requests := by
  intro r
  let b : RequestBatchBuilder :=
    if response then (ofBuffer buf).setResponse else (ofBuffer buf).setRequest
  have hb : b.h = sizeofRequestBatchHeader := by
    cases response <;> rfl
  have hmagic : b.buf.load 42 1 = if response then 0x79 else 0x78 := by
    cases response <;> exact load_store_self _
  have hh : (b.appendRequests requests).h = packetLength requests := by
    rw [h_appendRequests, hb]
    rfl
  have hmagic' : (b.appendRequests requests).buf.load 42 1 = if response then 0x79 else 0x78 := by
    rw [← hmagic]
    refine load_congr fun x _ hx => b.data_appendRequests requests (Or.inl ?_)
    rw [hb]
    exact hx.trans (by decide)
  have hread : r.buf.load 42 1 = if response then 0x79 else 0x78 :=
    ((b.appendRequests requests).load_finalize (by decide)).trans hmagic'
  have hmin : sizeofRequestBatchHeader ≤ packetLength requests := le_add_right _ _
  refine ⟨?_, ?_, ?_, ?_⟩
  · refine (b.appendRequests requests).isValid_finalize (hh ▸ hmin) (by omega) ?_
    rw [hmagic']
    cases response
    · exact Or.inl rfl
    · exact Or.inr rfl
  · unfold RequestBatchReader.isRequest
    rw [hread]
    cases response <;> rfl
  · unfold RequestBatchReader.isResponse
    rw [hread]
    cases response <;> rfl
  · refine RequestBatchReader.reads_of_encodesAll hbounded (h := sizeofRequestBatchHeader) ?_ rfl ?_
    · refine (hb ▸ b.encodesAll_appendRequests requests hbounded).congr fun x hx _ => ?_
      exact data_finalize _ (le_trans (by decide) hx)
    · refine (length_finalize _).trans ?_
      rw [hh]
      exact mod_eq_of_lt (by omega)

/-- Two requests, with a key of three bytes and a value of nine. -/
def twoRequests : List Request :=
  [⟨.kSet, .kSuccess, 7, 1, fun _ => 1, 3, fun _ => 2, 9⟩,
    ⟨.kGet, .kSuccess, 8, 1, fun _ => 1, 3, fun _ => 0, 0⟩]

/-- Both requests are read. -/
theorem reads_build_twoRequests :
    let r := RequestBatchReader.ofBuffer (build ⟨fun _ => 0, 0⟩ false twoRequests)
    r.isValid = true ∧ r.isRequest = true ∧ r.isResponse = false ∧ r.Reads twoRequests := by
  refine reads_build _ false twoRequests (fun q hq => ?_) (by decide)
  simp only [twoRequests, mem_cons, not_mem_nil, or_false] at hq
  rcases hq with rfl | rfl <;> exact ⟨by decide, by decide, by decide, by decide⟩

end RequestBatchBuilder

end Testbed.Mica
