import Mathlib.Data.List.FinRange
import Testbed.Mica.Pools

/-! # `LTable`

`mica/table/ltable.h`: a hash table whose items live in a pool.  A bucket has a few slots, and
a slot holds a 16-bit tag of the key's hash and the 48-bit offset of an item.  Without
eviction, full buckets are continued in extra buckets, which come from a free list; with
eviction, a set into a full bucket replaces an item.  Buckets are addressed by their position
in the array: the extra bucket `i`, counted from one, follows the main buckets.

Used by one thread, the version numbers of the buckets never differ, so they are left out, and
so are the locks.  Of the statistics there is `count`.
-/
namespace Testbed.Mica

open Lib Pool

inductive Result where
  | kSuccess
  | kError
  | kInsufficientSpace
  | kExists
  | kNotFound
  | kPartialValue
  | kNotProcessed
  | kNotSupported
  | kTimedOut
  | kRejected
  deriving DecidableEq, Repr

/-- The static configuration of a table, and the members that its constructor sets. -/
structure TableConfig where
  kEviction : Bool
  kBucketSize : Nat
  kCollectStats : Bool
  /-- `num_buckets_` is a power of two. -/
  logNumBuckets : Nat
  numExtraBuckets : Nat
  mthThreshold : Nat
  supported : kBucketSize = 7 ∨ kBucketSize = 15 ∨ kBucketSize = 31
  logNumBuckets_le : logNumBuckets ≤ 31

namespace TableConfig

variable (cfg : TableConfig)

def numBuckets : Nat := 2 ^ cfg.logNumBuckets

def rshift : Nat :=
  ((List.range 48).find? fun n => (2 ^ 47) >>> n ≤ cfg.numBuckets).getD 48

/-- `get_extra_bucket`. -/
def extraBucket (i : Nat) : Nat := cfg.numBuckets - 1 + i

theorem kBucketSize_pos : 0 < cfg.kBucketSize := by
  rcases cfg.supported with h | h | h <;> omega

end TableConfig

variable (cfg : TableConfig)

structure Bucket where
  nextExtraBucketIndex : Nat
  itemVec : Fin cfg.kBucketSize → Nat

/-- A bucket that was zeroed. -/
def Bucket.zero : Bucket cfg := ⟨0, fun _ => 0⟩

/-- A bucket, and an index in its `item_vec`. -/
structure Slot where
  bucket : Nat
  index : Fin cfg.kBucketSize
  deriving DecidableEq

/-- The table.  Not in the source is `allotted`: the size that `allocate` was last asked for
when it returned the offset. -/
structure LTable (P : Type) where
  buckets : Nat → Bucket cfg
  extraBucketFreeListHead : Nat
  pool : P
  count : Nat
  allotted : Nat → Nat

/-! ## `item_vec` and `kv_length_vec` -/

def getTag (itemVec : Nat) : Nat := itemVec >>> 48 % 2 ^ 16

def kItemOffsetMask : Nat := 2 ^ 48 - 1

def getItemOffset (itemVec : Nat) : Nat := itemVec &&& kItemOffsetMask

def makeItemVec (tag itemOffset : Nat) : Nat := tag <<< 48 ||| itemOffset

def calcTag (keyHash : Nat) : Nat :=
  let tag := keyHash % 2 ^ 16
  if tag = 0 then 1 else tag

def TableConfig.calcBucketIndex (keyHash : Nat) : Nat :=
  (keyHash >>> 16 % 2 ^ 32) % cfg.numBuckets

def getKeyLength (kvLengthVec : Nat) : Nat := kvLengthVec >>> 24

def getValueLength (kvLengthVec : Nat) : Nat := kvLengthVec % 2 ^ 24

def makeKvLengthVec (keyLength valueLength : Nat) : Nat :=
  (keyLength <<< 24 ||| valueLength) % 2 ^ 32

def compareKeys (key₁ : Buffer) (keyLength₁ : Nat) (key₂ : Buffer) (keyLength₂ : Nat) : Bool :=
  keyLength₁ == keyLength₂ && memcmpEqual8 key₁ key₂ (roundup8 keyLength₁)

def kMaxKeyLength : Nat := 255
def kMaxValueLength : Nat := 1048575

/-- `sizeof(Item)`: `kv_length_vec` at 0, `key_hash` at 8, and the data behind it. -/
def kItemSize : Nat := 16

/-- The size that is asked for. -/
def itemSize (keyLength valueLength : Nat) : Nat :=
  (kItemSize + roundup8 keyLength + roundup8 valueLength) % 2 ^ 32

section
variable {P : Type} [Pool P]

def kvLengthVec (p : P) (item : Nat) : Nat := load p item 4

def itemKeyHash (p : P) (item : Nat) : Nat := load p (item + 8) 8

def setItem (p : P) (item keyHash : Nat) (key : Buffer) (keyLength : Nat) (value : Buffer)
    (valueLength : Nat) : P :=
  let p := store p item 4 (makeKvLengthVec keyLength valueLength)
  let p := store p (item + 8) 8 keyHash
  let p := memcpy8 p (item + kItemSize) key keyLength
  memcpy8 p (item + kItemSize + roundup8 keyLength) value valueLength

def setItemValue (p : P) (item : Nat) (value : Buffer) (valueLength : Nat) : P :=
  let keyLength := getKeyLength (kvLengthVec p item)
  let p := store p item 4 (makeKvLengthVec keyLength valueLength)
  memcpy8 p (item + kItemSize + roundup8 keyLength) value valueLength

end

namespace LTable
variable {cfg : TableConfig} {P : Type} [Pool P] (t : LTable cfg P) (slot : Slot cfg)

def itemVec : Nat := (t.buckets slot.bucket).itemVec slot.index

def setItemVec (itemVec : Nat) : LTable cfg P :=
  let bucket := t.buckets slot.bucket
  { t with
    buckets := Function.update t.buckets slot.bucket
      { bucket with itemVec := Function.update bucket.itemVec slot.index itemVec } }

def setNext (bucket index : Nat) : LTable cfg P :=
  { t with
    buckets := Function.update t.buckets bucket
      { t.buckets bucket with nextExtraBucketIndex := index } }

/-- `stat_inc(&Stats::count)`. -/
def statInc : LTable cfg P :=
  if cfg.kCollectStats then { t with count := (t.count + 1) % 2 ^ 64 } else t

def statDec : LTable cfg P :=
  if cfg.kCollectStats then { t with count := sub64 t.count 1 } else t

/-! ## `bucket.h` -/

variable (bucket : Nat)

def hasExtraBucket : Bool :=
  !cfg.kEviction && (t.buckets bucket).nextExtraBucketIndex != 0

/-- The extra bucket that continues a bucket. -/
def nextBucket : Nat :=
  cfg.extraBucket (t.buckets bucket).nextExtraBucketIndex

/-- More fuel than there are buckets. -/
def chainFuel (cfg : TableConfig) : Nat := cfg.numBuckets + cfg.numExtraBuckets + 1

/-- The loop that looks for a slot from a bucket on: the bucket where it ends, and the index
of the first `item_vec` that is accepted. -/
def search (t : LTable cfg P) (accepts : Nat → Bool) :
    Nat → Nat → Except Fault (Nat × Option (Fin cfg.kBucketSize))
  | 0, _ => .error .nonTermination
  | fuel + 1, bucket =>
    match (List.finRange cfg.kBucketSize).find? fun i => accepts ((t.buckets bucket).itemVec i) with
    | some i => .ok (bucket, some i)
    | none =>
      if t.hasExtraBucket bucket then search t accepts fuel (t.nextBucket bucket)
      else .ok (bucket, none)

/-- The slot that the loop finds. -/
def lookup (accepts : Nat → Bool) (bucket : Nat) : Except Fault (Option (Slot cfg)) := do
  let (located, index) ← t.search accepts (chainFuel cfg) bucket
  return index.map (Slot.mk located)

/-- The item of the slot has the key.  Whether it is still valid is not looked at. -/
def itemMatches (keyHash tag : Nat) (key : Buffer) (keyLength itemVec : Nat) : Bool :=
  let item := getItem t.pool (getItemOffset itemVec)
  getTag itemVec == tag && itemKeyHash t.pool item == keyHash &&
    compareKeys (bytes t.pool (item + kItemSize)) (getKeyLength (kvLengthVec t.pool item)) key
      keyLength

def findItemIndex (bucket keyHash tag : Nat) (key : Buffer) (keyLength : Nat) :
    Except Fault (Option (Slot cfg)) :=
  t.lookup (t.itemMatches keyHash tag key keyLength) bucket

def findSameTag (bucket tag : Nat) : Except Fault (Option (Slot cfg)) :=
  t.lookup (getTag · == tag) bucket

/-- `alloc_extra_bucket`: there is none when the free list is empty. -/
def allocExtraBucket : Option (LTable cfg P) :=
  let index := t.extraBucketFreeListHead
  if index = 0 then none
  else
    let t := { t with
      extraBucketFreeListHead := (t.buckets (cfg.extraBucket index)).nextExtraBucketIndex }
    some ((t.setNext (cfg.extraBucket index) 0).setNext bucket index)

/-- `free_extra_bucket`: the extra bucket that continues the bucket. -/
def freeExtraBucket : LTable cfg P :=
  let index := (t.buckets bucket).nextExtraBucketIndex
  let t := t.setNext bucket 0
  let t := t.setNext (cfg.extraBucket index) t.extraBucketFreeListHead
  { t with extraBucketFreeListHead := index }

/-- The last two buckets of a chain. -/
def chainEnd (t : LTable cfg P) : Nat → Nat → Nat → Except Fault (Nat × Nat)
  | 0, _, _ => .error .nonTermination
  | fuel + 1, prev, current =>
    if t.hasExtraBucket current then chainEnd t fuel current (t.nextBucket current)
    else .ok (prev, current)

def fillHole (unused : Slot cfg) : Nat → LTable cfg P → Except Fault (LTable cfg P)
  | 0, _ => .error .nonTermination
  | fuel + 1, t =>
    if t.hasExtraBucket unused.bucket then do
      let (prev, current) ← t.chainEnd (chainFuel cfg) unused.bucket (t.nextBucket unused.bucket)
      match (List.finRange cfg.kBucketSize).filter fun i => t.itemVec ⟨current, i⟩ ≠ 0 with
      -- the last extra bucket was already empty; release it and restart
      | [] => fillHole unused fuel (t.freeExtraBucket prev)
      | moved :: others =>
        let t := (t.setItemVec unused (t.itemVec ⟨current, moved⟩)).setItemVec ⟨current, moved⟩ 0
        return if others = [] then t.freeExtraBucket prev else t
    else .ok t

/-- `get_empty`: the first slot of a new extra bucket if the others are taken. -/
def getEmpty : Except Fault (Option (Slot cfg) × LTable cfg P) := do
  match ← t.search (· == 0) (chainFuel cfg) bucket with
  | (located, some i) => return (some ⟨located, i⟩, t)
  | (last, none) =>
    match t.allocExtraBucket last with
    | some t => return (some ⟨t.nextBucket last, 0, cfg.kBucketSize_pos⟩, t)
    | none => return (none, t)

/-- The oldest item of the slots that were looked at. -/
structure Oldest (cfg : TableConfig) where
  distance : Nat
  slot : Slot cfg

/-- The slots of one bucket: an empty one ends the search. -/
def ageLoop (t : LTable cfg P) (bucket : Nat) :
    List (Fin cfg.kBucketSize) → Oldest cfg → Except (Slot cfg) (Oldest cfg)
  | [], oldest => .ok oldest
  | i :: rest, oldest =>
    let itemVec := t.itemVec ⟨bucket, i⟩
    if itemVec = 0 then .error ⟨bucket, i⟩
    else
      let distance := sub64 (getTail t.pool) (getItemOffset itemVec) &&& getMask t.pool
      ageLoop t bucket rest
        (if oldest.distance > distance then ⟨distance, bucket, i⟩ else oldest)

def oldestLoop (t : LTable cfg P) : Nat → Nat → Oldest cfg → Except Fault (Slot cfg)
  | 0, _, _ => .error .nonTermination
  | fuel + 1, bucket, oldest =>
    match t.ageLoop bucket (List.finRange cfg.kBucketSize) oldest with
    | .error slot => .ok slot
    | .ok oldest =>
      if t.hasExtraBucket bucket then oldestLoop t fuel (t.nextBucket bucket) oldest
      else .ok oldest.slot

/-- `get_empty_or_oldest`; every distance is below the one that it starts with. -/
def getEmptyOrOldest : Except Fault (Slot cfg) :=
  t.oldestLoop (chainFuel cfg) bucket ⟨2 ^ 64 - 1, bucket, 0, cfg.kBucketSize_pos⟩

/-- A slot whose item is no longer valid is emptied. -/
def cleanSlot : LTable cfg P :=
  if t.itemVec slot ≠ 0 ∧ ¬ isValid t.pool (t.itemVec slot) then
    (t.setItemVec slot 0).statDec
  else t

def cleanChain : Nat → Nat → LTable cfg P → Except Fault (LTable cfg P)
  | 0, _, _ => .error .nonTermination
  | fuel + 1, bucket, t =>
    let t := (List.finRange cfg.kBucketSize).foldl (fun t i => t.cleanSlot ⟨bucket, i⟩) t
    if t.hasExtraBucket bucket then cleanChain fuel (t.nextBucket bucket) t else .ok t

def cleanLoop (bucketIndexEnd : Nat) : Nat → Nat → LTable cfg P → Except Fault (LTable cfg P)
  | 0, _, _ => .error .nonTermination
  | fuel + 1, bucketIndex, t =>
    if bucketIndex = bucketIndexEnd then .ok t
    else do
      let t ← cleanChain (chainFuel cfg) bucketIndex t
      cleanLoop bucketIndexEnd fuel ((bucketIndex + 1) % cfg.numBuckets) t

def cleanupBucket (oldTail newTail : Nat) : Except Fault (LTable cfg P) :=
  cleanLoop (newTail >>> cfg.rshift % cfg.numBuckets) (cfg.numBuckets + 1)
    (oldTail >>> cfg.rshift % cfg.numBuckets) t

/-! ## `set.h` -/

/-- `pool_->allocate`. -/
def allocate (t : LTable cfg P) (size : Nat) : Except Fault (Option Nat × LTable cfg P) := do
  match ← Pool.allocate t.pool size with
  | (none, pool) => return (none, { t with pool })
  | (some offset, pool) =>
    return (some offset, { t with pool, allotted := Function.update t.allotted offset size })

/-- The item that is overwritten has room for the new one, as far as the pool knows. -/
def fitsInPlace (itemOffset newItemSize : Nat) : Bool :=
  isValid t.pool itemOffset && decide (newItemSize ≤ itemLength t.pool itemOffset)

/-- The end of `set`: a new item, and what it replaces. -/
def setNew (overwriting : Bool) (keyHash : Nat) (key : Buffer)
    (keyLength : Nat) (value : Buffer) (valueLength : Nat) :
    Except Fault (Result × LTable cfg P) := do
  let itemOffset := getItemOffset (t.itemVec slot)
  match ← t.allocate (itemSize keyLength valueLength) with
  | (none, t) => return (.kInsufficientSpace, t)
  | (some newItemOffset, t) =>
    let newTail := getTail t.pool
    let t := { t with
      pool := setItem t.pool (getItem t.pool newItemOffset) keyHash key keyLength value
        valueLength }
    let t := if t.itemVec slot ≠ 0 then t.statDec else t
    let t := t.setItemVec slot (makeItemVec (calcTag keyHash) newItemOffset)
    let t ← if isCircularLog P then t.cleanupBucket newItemOffset newTail else .ok t
    let t := if overwriting then { t with pool := release t.pool itemOffset } else t
    return (.kSuccess, t.statInc)

/-- The part of `set` after the slot is chosen. -/
def setAt (overwriting : Bool) (keyHash : Nat) (key : Buffer)
    (keyLength : Nat) (value : Buffer) (valueLength : Nat) :
    Except Fault (Result × LTable cfg P) :=
  let itemOffset := getItemOffset (t.itemVec slot)
  if overwriting && t.fitsInPlace itemOffset (itemSize keyLength valueLength) then
    .ok (.kSuccess,
      { t with pool := setItemValue t.pool (getItem t.pool itemOffset) value valueLength })
  else t.setNew slot overwriting keyHash key keyLength value valueLength

variable (keyHash : Nat) (key : Buffer) (keyLength : Nat)

def set (value : Buffer)
    (valueLength : Nat) (overwrite : Bool) : Except Fault (Result × LTable cfg P) := do
  let bucket := cfg.calcBucketIndex keyHash
  let tag := calcTag keyHash
  match ← t.findItemIndex bucket keyHash tag key keyLength with
  | some slot =>
    if !overwrite then return (.kExists, t)
    else t.setAt slot true keyHash key keyLength value valueLength
  | none =>
    if cfg.kEviction && isCircularLog P then
      match ← t.findSameTag bucket tag with
      | some slot => t.setAt slot false keyHash key keyLength value valueLength
      | none =>
        let slot ← t.getEmptyOrOldest bucket
        t.setAt slot false keyHash key keyLength value valueLength
    else
      match ← t.getEmpty bucket with
      | (none, t) => return (.kInsufficientSpace, t)
      | (some slot, t) => t.setAt slot false keyHash key keyLength value valueLength

/-! ## `get.h`, `test.h`, `increment.h`, `del.h` -/

def moveToHead (keyLength valueLength : Nat) : Except Fault (LTable cfg P) :=
  if isCircularLog P then
    let vec := t.itemVec slot
    let itemOffset := getItemOffset vec
    let item := getItem t.pool itemOffset
    let size := itemSize keyLength valueLength
    let distanceFromTail := sub64 (getTail t.pool) itemOffset &&& getMask t.pool
    if distanceFromTail > cfg.mthThreshold then do
      match ← t.allocate size with
      -- a log always returns an offset
      | (none, t) => return t
      | (some newItemOffset, t) =>
        let newTail := getTail t.pool
        let t := if isValid t.pool itemOffset then
            let newItem := getItem t.pool newItemOffset
            { t with pool := memcpy8 t.pool newItem (bytes t.pool item) size }.setItemVec
              slot (makeItemVec (getTag vec) newItemOffset)
          else t
        t.cleanupBucket newItemOffset newTail
    else .ok t
  else .ok t

/-- What `get` returns; `out_value_length` may not be written. -/
structure GetOutput where
  result : Result
  outValue : Buffer
  outValueLength : Option Nat

/-- What `get` copies of the value. -/
def readValue (p : P) (item keyLength : Nat) (outValue : Buffer) (inValueLength : Nat) : Buffer :=
  let valueLength := getValueLength (kvLengthVec p item)
  let data := bytes p (item + kItemSize + roundup8 keyLength)
  if valueLength ≤ kMaxValueLength then fun i =>
    if i < spanned (min valueLength inValueLength) then data i else outValue i
  else outValue

/-- `*out_value_length`. -/
def readLength (p : P) (item inValueLength : Nat) : Option Nat :=
  let valueLength := getValueLength (kvLengthVec p item)
  if valueLength ≤ kMaxValueLength then some (min valueLength inValueLength) else none

/-- The part of `get` after the item is found. -/
def getAt (outValue : Buffer)
    (inValueLength : Nat) (allowMutation : Bool) : Except Fault (GetOutput × LTable cfg P) :=
  let itemOffset := getItemOffset (t.itemVec slot)
  let item := getItem t.pool itemOffset
  let valueLength := getValueLength (kvLengthVec t.pool item)
  let value := readValue t.pool item keyLength outValue inValueLength
  let length := readLength t.pool item inValueLength
  if valueLength > kMaxValueLength ∨ ¬ isValid t.pool itemOffset then
    let t := if allowMutation ∧ t.itemVec slot ≠ 0 then (t.setItemVec slot 0).statDec else t
    .ok (⟨.kNotFound, value, length⟩, t)
  else do
    let t ← if allowMutation then t.moveToHead slot keyLength valueLength else .ok t
    let result := if valueLength ≠ min valueLength inValueLength then .kPartialValue else .kSuccess
    return (⟨result, value, length⟩, t)

def get (outValue : Buffer)
    (inValueLength : Nat) (allowMutation : Bool) : Except Fault (GetOutput × LTable cfg P) := do
  match ← t.findItemIndex (cfg.calcBucketIndex keyHash) keyHash (calcTag keyHash) key keyLength with
  | none => return (⟨.kNotFound, outValue, none⟩, t)
  | some slot => t.getAt slot keyLength outValue inValueLength allowMutation

def test : Except Fault Result := do
  match ← t.findItemIndex (cfg.calcBucketIndex keyHash) keyHash (calcTag keyHash) key keyLength with
  | some _ => return .kSuccess
  | none => return .kNotFound

/-- `increment`: the result, and what is written to `out_value`. -/
def increment (t : LTable cfg P) (keyHash : Nat) (key : Buffer) (keyLength increment : Nat) :
    Except Fault ((Result × Option Nat) × LTable cfg P) := do
  match ← t.findItemIndex (cfg.calcBucketIndex keyHash) keyHash (calcTag keyHash) key keyLength with
  | none => return ((.kNotFound, none), t)
  | some slot =>
    let itemOffset := getItemOffset (t.itemVec slot)
    let item := getItem t.pool itemOffset
    if isCircularLog P ∧ ¬ isValid t.pool itemOffset then
      return ((.kError, none), t)
    else if getValueLength (kvLengthVec t.pool item) ≠ 8 then return ((.kError, none), t)
    else
      let value := item + kItemSize + roundup8 keyLength
      let newValue := (load t.pool value 8 + increment) % 2 ^ 64
      return ((.kSuccess, some newValue), { t with pool := store t.pool value 8 newValue })

def del : Except Fault (Result × LTable cfg P) := do
  match ← t.findItemIndex (cfg.calcBucketIndex keyHash) keyHash (calcTag keyHash) key keyLength with
  | none => return (.kNotFound, t)
  | some slot =>
    let t := { t with pool := release t.pool (getItemOffset (t.itemVec slot)) }
    let t ← fillHole slot (chainFuel cfg) (t.setItemVec slot 0).statDec
    return (.kSuccess, t)

/-! ## `init.h` -/

/-- The extra buckets, linked to a free list. -/
def freshBuckets (cfg : TableConfig) (bucket : Nat) : Bucket cfg :=
  let index := bucket + 1 - cfg.numBuckets
  { Bucket.zero cfg with
    nextExtraBucketIndex := if 0 < index ∧ index < cfg.numExtraBuckets then index + 1 else 0 }

/-- The loop of `reset` that releases the items of the main buckets. -/
def releaseAll : P :=
  (List.range cfg.numBuckets).foldl (fun pool bucket =>
    (List.finRange cfg.kBucketSize).foldl (fun pool i =>
      if t.itemVec ⟨bucket, i⟩ ≠ 0 then release pool (getItemOffset (t.itemVec ⟨bucket, i⟩))
      else pool) pool) t.pool

def reset (t : LTable cfg P) : LTable cfg P :=
  { t with
    pool := Pool.reset t.releaseAll
    buckets := freshBuckets cfg
    extraBucketFreeListHead := if cfg.numExtraBuckets = 0 then 0 else 1
    count := if cfg.kCollectStats then 0 else t.count }

/-- The constructor, for a pool. -/
def create (cfg : TableConfig) (pool : P) : LTable cfg P :=
  reset
    { buckets := fun _ => Bucket.zero cfg
      extraBucketFreeListHead := 0
      pool
      count := 0
      allotted := fun _ => 0 }

end LTable

end Testbed.Mica
