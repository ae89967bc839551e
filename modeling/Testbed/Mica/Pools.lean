import Testbed.Lib.FallibleRuns
import Testbed.Lib.Memory

/-! # The item pools of MICA

`mica/pool`: a pool hands out regions of its memory.  `CircularLog` appends items to a log
that wraps around: the oldest items are popped to make room, and an offset is valid as long as
the log has not come around to it.

Tables see a pool through `Pool`, the members that the template parameter must have.  The
pools are used by one thread, so the locks are left out.  64-bit numbers are naturals, reduced
where they can wrap around; a loop that may not end has more fuel than it has states.
-/
namespace Testbed.Mica

open Lib Memory

/-- What can go wrong. -/
inductive Fault where
  | nonTermination
  | invalidPointer
  deriving DecidableEq, Repr

/-! ## `mica/util` -/

/-- Bytes from a pointer on. -/
abbrev Buffer := Nat → UInt8

/-- `roundup<8>`. -/
def roundup8 (x : Nat) : Nat := (x + 7) / 8 * 8

/-- The bytes that `memcpy<8>` copies and `memcmp_equal<8>` compares when it is told `n`: the
`switch` on `n >> 3` has a case for whole words up to the fourth. -/
def spanned (n : Nat) : Nat := if n / 8 ≤ 4 then n / 8 * 8 else n

/-- `memcmp_equal<8>`. -/
def memcmpEqual8 (a b : Buffer) (n : Nat) : Bool := (List.range (spanned n)).all fun i => a i == b i

/-- `x - y` of two 64-bit numbers. -/
def sub64 (x y : Nat) : Nat := (x + 2 ^ 64 - y) % 2 ^ 64

/-! ## What tables need of a pool -/

/-- A pool, as `LTable` uses it. -/
class Pool (P : Type) where
  /-- `std::is_base_of<CircularLogTag, Pool::Tag>`. -/
  isCircularLog : Bool
  memory : P → Memory
  withMemory : P → Memory → P
  /-- The byte that an address of the pool stands for. -/
  place : P → Nat → Nat
  reset : P → P
  /-- There is no offset when the pool answers `kInsufficientSpace`. -/
  allocate : P → Nat → Except Fault (Option Nat × P)
  release : P → Nat → P
  getItem : P → Nat → Nat
  /-- The length that `get_item` returns besides the address. -/
  itemLength : P → Nat → Nat
  /-- `Specialization::is_valid`. -/
  isValid : P → Nat → Bool
  /-- `Specialization::get_tail`. -/
  getTail : P → Nat
  /-- `Specialization::get_mask`. -/
  getMask : P → Nat

namespace Pool
variable {P : Type} [Pool P]

/-- The bytes from an address of the pool on. -/
def bytes (p : P) (address : Nat) : Buffer := fun i => memory p (place p (address + i))

/-- The number in `w` bytes at an address of the pool. -/
def load (p : P) (address w : Nat) : Nat := Memory.load (place p) (memory p) address w

def store (p : P) (address w v : Nat) : P :=
  withMemory p (Memory.store (place p) (memory p) address w v)

/-- `memcpy<8>` into the pool. -/
def memcpy8 (p : P) (address : Nat) (source : Buffer) (n : Nat) : P :=
  withMemory p (copy (place p) (memory p) address source (spanned n))

end Pool

/-! ## `CircularLog` -/

/-- `size_` of a log: a power of two from `kMinimumSize` to `kOffsetMask >> 1`. -/
structure LogSize where
  exponent : Nat
  minimum : 21 ≤ exponent
  maximum : exponent ≤ 46

def LogSize.size (z : LogSize) : Nat := 2 ^ z.exponent

def kOffsetMask : Nat := 2 ^ 48 - 1

/-- The log; `head_` and `tail_` are 64-bit numbers. -/
structure CircularLog (z : LogSize) where
  memory : Memory
  head : Nat
  tail : Nat

namespace CircularLog
variable {z : LogSize}

/-- The pages of the log are mapped a second time behind its end. -/
def place (_ : CircularLog z) (address : Nat) : Nat := address % z.size

def getMask (_ : CircularLog z) : Nat := z.size - 1

/-- `sizeof(Item)`. -/
def kHeaderSize : Nat := 8

variable (log : CircularLog z) (offset : Nat)

/-- `item->size` of the item at the offset. -/
def itemSize : Nat :=
  load log.place log.memory (offset &&& log.getMask) 8

def getItem : Nat := (offset &&& log.getMask) + kHeaderSize

def isValid : Bool :=
  decide (sub64 log.tail offset &&& kOffsetMask ≤ z.size)

def reset : CircularLog z := { log with head := 0, tail := 0 }

def popHead : CircularLog z :=
  { log with head := (log.head + log.itemSize log.head) % 2 ^ 64 }

/-- `while (v > head_ + size_) pop_head();`, which changes `head_` only. -/
def popLoop (v : Nat) : Nat → CircularLog z → Except Fault (CircularLog z)
  | 0, _ => .error .nonTermination
  | fuel + 1, log =>
    if v > (log.head + z.size) % 2 ^ 64 then popLoop v fuel log.popHead else .ok log

def pushTail (itemSize : Nat) : Except Fault (Nat × CircularLog z) := do
  let offset := log.tail
  let v := (offset + kHeaderSize + itemSize) % 2 ^ 64
  let log ← popLoop v (2 ^ 64 + 1) log
  let memory := store log.place log.memory (offset &&& log.getMask) 8 itemSize
  return (offset &&& kOffsetMask, { log with memory, tail := (log.tail + itemSize) % 2 ^ 64 })

def allocate (itemSize : Nat) : Except Fault (Option Nat × CircularLog z) := do
  let (offset, log) ← log.pushTail (itemSize + kHeaderSize)
  return (some offset, log)

instance instPool : Pool (CircularLog z) where
  isCircularLog := true
  memory := memory
  withMemory log memory := { log with memory }
  place := place
  reset := reset
  allocate := allocate
  -- `release` does nothing
  release log _ := log
  getItem := getItem
  itemLength := itemSize
  isValid := isValid
  getTail := tail
  getMask := getMask

end CircularLog

end Testbed.Mica
