import Mathlib.Data.Nat.ModEq
import Mathlib.Logic.Function.Basic
import Testbed.Lib.FallibleRuns

/-! # Responses of the socket server

A connection is sent SET, GET and the heads of batches of GET, one after another.  `con_ret_buf`
appends the answer to a GET to the buffer of the connection, or to that of the batch, and the answer
is written back at once or with the rest of the batch.

When a key is not found, the connection keeps the value of the command before, and the header of the
answer tells the length of that value.  Outside a batch the answer is counted twice, too.  So the
answers to a sequence of commands are framed just if all keys are found, but for misses in a
batch where the value that is left is as long as the answer (`framed_iff`).

What is modelled is the state `conn_deal_with`; the jump to it from `conn_read` is commented out in
`process_func`.  Writes may be in part, but no command is parsed before all is written.
-/
namespace Testbed.Com

open Lib

/-- `protocol_binary_request_header`, as read in network byte order. -/
structure Header where
  magic : Nat
  opcode : Nat
  keylen : Nat
  batchnum : Nat
  prehash : Nat
  reserved : Nat
  totalbodylen : Nat

/-- `sizeof(protocol_binary_request_header)`. -/
def headlen : Nat := 12

def initRetBufSize : Nat := 1000

def batchBufSize : Nat := 1000000

/-- A `batchbuf`: how much data there is. -/
structure Batchbuf where
  datalen : Nat

/-- The fields of `CONNECTION` that answers depend on. -/
structure Connection where
  key : List UInt8
  value : List UInt8
  queryHit : Bool
  retBufOffset : Nat
  retBytes : Nat
  batchRetVector : List Batchbuf
  batchNum : Nat
  batchCount : Nat
  inBatchGet : Bool

/-- Why the commands of a connection come to an end. -/
inductive Fault where
  | batchnumError
  | commandError
  | writeError
  /-- Beyond the end of a buffer, or of an `int`. -/
  | overflow
  | nonTermination
  deriving DecidableEq, Repr

/-- A message, and where in its buffer it begins. -/
structure Message where
  start : Nat
  header : Header
  key : List UInt8
  body : List UInt8

namespace Connection
variable (c : Connection)

/-- NOTFOUND -/
def notfoundAns : List UInt8 := [78, 79, 84, 70, 79, 85, 78, 68]

/-- The batch buffers, with a new one if the answer does not fit, as far as the value tells. -/
def withRoom : List Batchbuf :=
  if (c.batchRetVector.getLastD ⟨0⟩).datalen + headlen + c.key.length + c.value.length >
      batchBufSize then c.batchRetVector ++ [⟨0⟩]
  else c.batchRetVector

def conRetBuf : Except Fault (Message × Connection) :=
  let valuelen := if c.queryHit then c.value.length else 8
  let last := c.withRoom.getLastD ⟨0⟩
  let start := if c.inBatchGet then last.datalen else c.retBufOffset
  let message :=
    { start
      header :=
        { magic := 0x81, opcode := 0x01, keylen := c.key.length % 2 ^ 16
          -- the count of a batch is not converted
          batchnum := if c.inBatchGet then c.batchCount % 256 * 256 + c.batchCount / 256 else 1
          prehash := 0, reserved := 0
          totalbodylen := (c.key.length + c.value.length) % 2 ^ 32 }
      key := c.key
      body := if c.queryHit then c.value else notfoundAns }
  let grown := headlen + c.key.length + valuelen
  let missed := if c.queryHit then 0 else headlen + c.key.length + 8
  let retBytes := c.retBytes + missed + if c.inBatchGet then 0 else grown
  if start + grown > (if c.inBatchGet then batchBufSize else initRetBufSize) then .error .overflow
  else if retBytes ≥ 2 ^ 31 then .error .overflow
  else if c.inBatchGet then
    .ok (message, { c with
      retBytes
      batchCount := (c.batchCount + 1) % 2 ^ 16
      batchRetVector := c.withRoom.dropLast ++ [⟨last.datalen + grown⟩] })
  else .ok (message, { c with retBytes })

/-- `send_batch`: the buffers are written when the batch is complete.  There is nothing to write
from an empty one, and nothing is done when there were too many queries. -/
def sendBatch : Except Fault Connection :=
  if c.batchCount < c.batchNum then .ok c
  else if c.batchCount ≠ c.batchNum then .error .nonTermination
  else if c.batchRetVector.any (·.datalen == 0) then .error .writeError
  else .ok { c with inBatchGet := false, batchNum := 0, batchCount := 0, batchRetVector := [] }

/-- The state `write_bcak`, until all is written. -/
def writeBack : Except Fault Connection :=
  if c.inBatchGet then c.sendBatch
  else if c.retBufOffset + c.retBytes > initRetBufSize then .error .overflow
  else .ok { c with retBufOffset := 0, retBytes := 0 }

/-- The state `query_key`; a value that is not found is not changed. -/
def queryKey (key : List UInt8) (found : Option (List UInt8)) : Connection :=
  { c with key, value := found.getD c.value, queryHit := found.isSome }

end Connection

/-! ## Commands -/

inductive Command where
  | set (key value : List UInt8)
  | getBatchHead
  | get (key : List UInt8)

/-- The hash table and a connection. -/
structure SocketServer where
  hashTable : List UInt8 → Option (List UInt8)
  connection : Connection

/-- An answer: the connection that `con_ret_buf` is called with, the message, and the connection
then. -/
structure Answer where
  before : Connection
  message : Message
  after : Connection

namespace SocketServer

/-- The connection as `conn_new` makes it. -/
def fresh (hashTable : List UInt8 → Option (List UInt8)) : SocketServer :=
  ⟨hashTable, [], [], false, 0, 0, [], 0, 0, false⟩

/-- What is done from the header of a command, with its `batchnum`, to that of the next one.  Only
the header is skipped of a command that is refused; a body would be parsed as the next header. -/
def step (s : SocketServer) (batchnum : Nat) :
    Command → Except Fault (List Answer × SocketServer)
  | command =>
    let c := s.connection
    if c.inBatchGet ∧ c.batchCount ≠ batchnum then .error .batchnumError
    else
      match command with
      | .set key value =>
        if key.length ≠ 0 ∧ key.length + value.length ≥ key.length + 8 then
          .ok ([], ⟨Function.update s.hashTable key (some value), { c with key, value }⟩)
        else if key.length + value.length = 0 then .ok ([], s)
        else .error .commandError
      | .getBatchHead => .ok ([], { s with
          connection := { c with
            batchNum := batchnum
            batchCount := 0
            inBatchGet := true
            batchRetVector := c.batchRetVector ++ [⟨0⟩] } })
      | .get key =>
        if key.length ≠ 0 then do
          let before := c.queryKey key (s.hashTable key)
          let (message, after) ← before.conRetBuf
          let connection ← after.writeBack
          return ([⟨before, message, after⟩], { s with connection })
        else .ok ([], s)

/-- The answers to the commands, in order. -/
def run : SocketServer → List (Nat × Command) → Except Fault (List Answer × SocketServer)
  | s, [] => .ok ([], s)
  | s, (batchnum, command) :: rest => do
    let (answers, s) ← s.step batchnum command
    let (answers', s) ← s.run rest
    return (answers ++ answers', s)

end SocketServer

namespace Answer
variable {a : Answer}

/-- **The answer is framed**: the length in the header, and the growth of the length that is to be
sent, are those of what is appended. -/
def Framed (a : Answer) : Prop :=
  let appended := a.message.key.length + a.message.body.length
  a.message.header.totalbodylen = appended ∧
    if a.before.inBatchGet then
      (a.after.batchRetVector.getLastD ⟨0⟩).datalen = a.message.start + (headlen + appended)
    else a.after.retBytes = a.before.retBytes + (headlen + appended)

/-- The value is found, or, in a batch, the value that is left is as long as the answer. -/
def Regular (a : Answer) : Prop :=
  let c := a.before
  c.queryHit = true ∨
    c.inBatchGet = true ∧ (c.key.length + c.value.length) % 2 ^ 32 = c.key.length + 8

theorem framed_of_conRetBuf (h : a.before.conRetBuf = .ok (a.message, a.after)) :
    a.Framed ↔ a.Regular := by
  obtain ⟨c, m, c'⟩ := a
  have hmiss : Connection.notfoundAns.length = 8 := rfl
  unfold Connection.conRetBuf headlen batchBufSize initRetBufSize at h
  dsimp only at h
  unfold Framed Regular headlen
  dsimp only
  cases hbatch : c.inBatchGet <;> cases hhit : c.queryHit <;>
    simp only [hbatch, hhit, if_true, if_false, Bool.false_eq_true] at h ⊢ <;>
    split_ifs at h <;> cases h <;> simp [hmiss] <;> omega

end Answer

namespace SocketServer
variable {s s' : SocketServer} {answers : List Answer}

theorem framed_of_step {batchnum : Nat} {command : Command}
    (h : s.step batchnum command = .ok (answers, s')) : ∀ a ∈ answers, a.Framed ↔ a.Regular := by
  unfold step at h
  dsimp only at h
  split at h
  · cases h
  · cases command with
    | set key value =>
      dsimp only at h
      split_ifs at h <;> cases h
      all_goals exact List.forall_mem_nil _
    | getBatchHead =>
      cases h
      exact List.forall_mem_nil _
    | get key =>
      dsimp only at h
      split at h
      · obtain ⟨⟨message, after⟩, hcall, h⟩ := bind_eq_ok.mp h
        obtain ⟨connection, -, h⟩ := bind_eq_ok.mp h
        cases h
        exact List.forall_mem_singleton.mpr (Answer.framed_of_conRetBuf hcall)
      · cases h
        exact List.forall_mem_nil _

theorem framed_of_run {commands : List (Nat × Command)}
    (h : s.run commands = .ok (answers, s')) : ∀ a ∈ answers, a.Framed ↔ a.Regular := by
  induction commands generalizing s answers with
  | nil =>
    cases h
    exact List.forall_mem_nil _
  | cons command rest ih =>
    obtain ⟨⟨first, s₁⟩, hstep, h⟩ := bind_eq_ok.mp h
    obtain ⟨⟨others, s₂⟩, hrest, h⟩ := bind_eq_ok.mp h
    cases h
    exact List.forall_mem_append.mpr ⟨framed_of_step hstep, ih hrest⟩

/-- **Answers are framed correctly** on a new connection, whatever the hash table holds and is told,
just if each value is found, but for misses in a batch where the value that is left from the command
before is as long as the answer to a miss. -/
theorem framed_iff (hashTable : List UInt8 → Option (List UInt8)) (commands : List (Nat × Command))
    (h : (fresh hashTable).run commands = .ok (answers, s)) :
    (∀ a ∈ answers, a.Framed) ↔ ∀ a ∈ answers, a.Regular :=
  forall₂_congr (framed_of_run h)

/-- A value is set, and got in a batch of two before a key that is not there. -/
theorem framed_batch : ∃ answers s, (fresh fun _ => none).run [(1, .set [1] (List.replicate 8 7)),
    (2, .getBatchHead), (0, .get [1]), (1, .get [2])] = .ok (answers, s) ∧ answers.length = 2 ∧
      ∀ a ∈ answers, a.Framed := by
  have hrun : (fresh fun _ => none).run [(1, .set [1] (List.replicate 8 7)),
    (2, .getBatchHead), (0, .get [1]), (1, .get [2])] = .ok _ := rfl
  refine ⟨_, _, hrun, rfl, (framed_iff _ _ hrun).mpr ?_⟩
  exact List.forall_mem_cons.mpr ⟨.inl rfl, List.forall_mem_singleton.mpr (.inr ⟨rfl, rfl⟩)⟩

/-- A key of one byte is not found on a new connection: the header tells one byte, nine are
appended, and 42 are to be sent, not 21. -/
theorem miss_not_framed : ∃ a s, (fresh fun _ => none).run [(1, .get [1])] = .ok ([a], s) ∧
    a.message.header.totalbodylen = 1 ∧ a.after.retBytes = 42 ∧ ¬ a.Framed :=
  ⟨_, _, rfl, rfl, rfl, fun h => absurd h.1 (by decide)⟩

end SocketServer

end Testbed.Com
