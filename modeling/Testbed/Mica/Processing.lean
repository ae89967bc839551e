import Testbed.Mica.LossyTables
import Testbed.Mica.Packets

/-! # The processing pipeline

`mica/processor/partitions_impl/process.h`: the requests of an accessor go through a pipeline.  In
the iteration `i`, the request `i` is prepared, the partition of the request `i - g` is looked up
and kept in a small ring, the item of the request `i - 2 * g` is prefetched, and the request
`i - 3 * g` is executed with the partition from the ring, and retired.  An index below zero is a
large 64-bit number, and how many requests there are is known only when `prepare` returns `false`.

The tables are left as if the requests were executed one after another, and the same answers are
given (`process_eq_sequential`).  Prefetching, which changes nothing, is left out.
-/
namespace Testbed.Mica

open Lib List Function Nat

/-! ## Requests and accessors -/

/-- What an accessor tells about a request, and the buffer for its value with its length.  There
is no operation if the number has no enumerator. -/
structure RequestData where
  operation : Option Operation
  keyHash : Nat
  key : Buffer
  keyLength : Nat
  value : Buffer
  valueLength : Nat
  outValue : Buffer
  outValueLength : Nat

/-- What is answered; no value if nothing was written to the buffer. -/
structure Outcome where
  result : Result
  outValue : Option Buffer
  outValueLength : Nat

/-- `RequestAccessorInterface`. -/
class RequestAccessor (A : Type) where
  prepare : A → Nat → Bool × A
  /-- `get_operation`, `get_key_hash` and so on. -/
  get : A → Nat → RequestData
  /-- The value is written through the pointer from `get_out_value`. -/
  setOutValue : A → Nat → Buffer → A
  setOutValueLength : A → Nat → Nat → A
  setResult : A → Nat → Result → A
  retire : A → Nat → A

namespace RequestAccessor
variable {A : Type} [RequestAccessor A]

/-- The calls that answer a request, in this order. -/
def answer (a : A) (index : Nat) (outcome : Outcome) : A :=
  let a := match outcome.outValue with
    | some outValue => setOutValue a index outValue
    | none => a
  let a := setOutValueLength a index outcome.outValueLength
  let a := setResult a index outcome.result
  retire a index

end RequestAccessor

open RequestAccessor

/-! ## Partitions -/

def kMaxPartitionCount : Nat := 256

variable (cfg : TableConfig)

/-- `Partitions`, as one lcore sees it. -/
structure Partitions (P : Type) where
  concurrentRead : Bool
  concurrentWrite : Bool
  partitionCount : Nat
  ownerLcoreIds : Nat → Nat
  tables : Nat → LTable cfg P
  /-- `load_stats_[lcore_id].request_count`. -/
  requestCount : Nat → Nat

namespace Partitions
variable {cfg : TableConfig} {P : Type} (p : Partitions cfg P)

def getPartitionId (keyHash : Nat) : Nat :=
  (keyHash >>> 48) % p.partitionCount

/-- Whether the lcore may execute the operation. -/
def accepts (lcoreId partitionId : Nat) : Option Operation → Bool
  | some .kNoopRead | some .kGet | some .kTest =>
    p.concurrentRead || p.ownerLcoreIds partitionId == lcoreId
  | some .kReset | some .kNoopWrite | some .kAdd | some .kSet | some .kDelete | some .kIncrement =>
    p.concurrentWrite || p.ownerLcoreIds partitionId == lcoreId
  | none => true

variable (partitionId : Nat)

def setTable (t : LTable cfg P) : Partitions cfg P :=
  { p with tables := update p.tables partitionId t }

def countRequest : Partitions cfg P :=
  { p with
    requestCount := update p.requestCount partitionId ((p.requestCount partitionId + 1) % 2 ^ 32) }

/-- A table answers with a result, and no value. -/
def answerWith
    (call : Except Fault (Result × LTable cfg P)) : Except Fault (Outcome × Partitions cfg P) := do
  let (result, t) ← call
  return (⟨result, none, 0⟩, p.setTable partitionId t)

variable [Pool P]

/-- The `switch` on the operation. -/
def execute (p : Partitions cfg P) (lcoreId partitionId : Nat) (q : RequestData) :
    Except Fault (Outcome × Partitions cfg P) :=
  let t := p.tables partitionId
  match q.operation with
  | some .kReset =>
    -- the loop goes over the whole array, also over pointers that were never set
    if p.partitionCount < kMaxPartitionCount then .error .invalidPointer
    else .ok (⟨.kSuccess, none, 0⟩, { p with tables := fun id => (p.tables id).reset })
  | some .kNoopRead | some .kNoopWrite => .ok (⟨.kSuccess, none, 0⟩, p)
  | some .kAdd =>
    p.answerWith partitionId (t.set q.keyHash q.key q.keyLength q.value q.valueLength false)
  | some .kSet =>
    p.answerWith partitionId (t.set q.keyHash q.key q.keyLength q.value q.valueLength true)
  | some .kGet => do
    let allowMutation := p.ownerLcoreIds partitionId == lcoreId
    let (output, t) ← t.get q.keyHash q.key q.keyLength q.outValue q.outValueLength allowMutation
    let length := if output.result = .kSuccess ∨ output.result = .kPartialValue then
        output.outValueLength.getD q.outValueLength
      else 0
    return (⟨output.result, some output.outValue, length⟩, p.setTable partitionId t)
  | some .kTest => do
    let result ← t.test q.keyHash q.key q.keyLength
    return (⟨result, none, 0⟩, p)
  | some .kDelete => p.answerWith partitionId (t.del q.keyHash q.key q.keyLength)
  | some .kIncrement =>
    if q.valueLength ≠ 8 ∨ q.outValueLength < 8 then .ok (⟨.kError, none, 0⟩, p)
    else do
      let increment := Memory.load id q.value 0 8
      let ((result, newValue), t) ← t.increment q.keyHash q.key q.keyLength increment
      let outValue := newValue.map fun v => Memory.store id q.outValue 0 8 v
      let length := if result = .kSuccess then 8 else 0
      return (⟨result, outValue, length⟩, p.setTable partitionId t)
  | none => .ok (⟨.kError, none, 0⟩, p)

/-- The third stage, up to `retire`. -/
def handle (p : Partitions cfg P) (lcoreId partitionId : Nat) (q : RequestData) :
    Except Fault (Outcome × Partitions cfg P) :=
  if p.accepts lcoreId partitionId q.operation then
    (p.countRequest partitionId).execute lcoreId partitionId q
  else .ok (⟨.kRejected, none, 0⟩, p)

end Partitions

/-! ## The pipeline -/

/-- `next_power_of_two_recursive`, for 64-bit numbers. -/
def nextPowerOfTwoRecursive (x : Nat) : Nat → Nat → Nat
  | 0, s => 2 ^ s
  | fuel + 1, s => if 2 ^ s < x then nextPowerOfTwoRecursive x fuel (s + 1) else 2 ^ s

def nextPowerOfTwo (x : Nat) : Nat := nextPowerOfTwoRecursive x 64 0

/-- `count` while the number of requests is not known. -/
def kUnknownCount : Nat := 2 ^ 32 - 1

/-- A request that was retired, with the partition that was read from the ring. -/
structure Retirement where
  index : Nat
  partitionId : Nat
  outcome : Outcome

/-- The variables of `process`, and what was retired so far. -/
structure Pipeline (P A : Type) where
  partitions : Partitions cfg P
  accessor : A
  partitionIds : Nat → Nat
  count : Nat
  countPlusGap : Nat
  retired : List Retirement

namespace Pipeline
variable {cfg : TableConfig} {P A : Type} [RequestAccessor A]

/-- The request `index` is prepared, unless all were. -/
def stage0 (stageGap index : Nat) (s : Pipeline cfg P A) : Pipeline cfg P A :=
  if s.count = kUnknownCount then
    let (prepared, accessor) := prepare s.accessor index
    if prepared then { s with accessor }
    else { s with accessor, count := index, countPlusGap := index + 3 * stageGap }
  else s

/-- The partition is looked up and put into the ring. -/
def stage1 (mask index : Nat) (s : Pipeline cfg P A) : Pipeline cfg P A :=
  if index < s.count then
    let partitionId := s.partitions.getPartitionId (get s.accessor index).keyHash
    { s with partitionIds := update s.partitionIds (index &&& mask) partitionId }
  else s

/-- The request is executed and retired. -/
def stage3 [Pool P] (lcoreId mask index : Nat) (s : Pipeline cfg P A) :
    Except Fault (Pipeline cfg P A) :=
  if index < s.count then do
    let partitionId := s.partitionIds (index &&& mask)
    let (outcome, partitions) ←
      s.partitions.handle lcoreId partitionId (get s.accessor index)
    return { s with
      partitions
      accessor := answer s.accessor index outcome
      retired := s.retired ++ [⟨index, partitionId, outcome⟩] }
  else .ok s

/-- One iteration. -/
def iterate [Pool P] (lcoreId stageGap mask i : Nat) (s : Pipeline cfg P A) :
    Except Fault (Pipeline cfg P A) :=
  let index := i
  let s := s.stage0 stageGap index
  let index := sub64 index stageGap
  let s := s.stage1 mask index
  let index := sub64 index stageGap
  let index := sub64 index stageGap
  s.stage3 lcoreId mask index

/-- The loop of `process`. -/
def loop [Pool P] (lcoreId stageGap mask : Nat) :
    Nat → Nat → Pipeline cfg P A → Except Fault (Pipeline cfg P A)
  | 0, _, _ => .error .nonTermination
  | fuel + 1, i, s =>
    if i < s.countPlusGap then do
      let s ← s.iterate lcoreId stageGap mask i
      loop lcoreId stageGap mask fuel (i + 1) s
    else .ok s

end Pipeline

open Pipeline

/-- `process` without the automatic adjustment of the stage gap.  What the array of partition ids
holds at first is anything. -/
def Partitions.process {cfg : TableConfig} {P A : Type} [Pool P] [RequestAccessor A]
    (p : Partitions cfg P) (lcoreId stageGap : Nat) (partitionIds : Nat → Nat) (a : A) :
    Except Fault (Pipeline cfg P A) :=
  let pipelineSize := nextPowerOfTwo (3 * stageGap)
  loop lcoreId stageGap (pipelineSize - 1) (2 ^ 64) 0
    ⟨p, a, partitionIds, kUnknownCount, kUnknownCount + 3 * stageGap, []⟩

/-! ## One request after another -/

section
variable {cfg : TableConfig} {P : Type} [Pool P]

/-- The partition of the request is looked up, and the request is executed.  What is in a request
may depend on how those before it came out, as the buffer for its value lies behind what they
wrote. -/
def sequentialStep (lcoreId : Nat) (request : List Outcome → RequestData)
    (acc : Partitions cfg P × List Retirement) (index : Nat) :
    Except Fault (Partitions cfg P × List Retirement) := do
  let q := request (acc.2.map Retirement.outcome)
  let partitionId := acc.1.getPartitionId q.keyHash
  let (outcome, partitions) ← acc.1.handle lcoreId partitionId q
  return (partitions, acc.2 ++ [⟨index, partitionId, outcome⟩])

/-- The requests from `0` to `n - 1`, one after another. -/
def sequential (lcoreId : Nat) (request : List Outcome → RequestData) (n : Nat)
    (p : Partitions cfg P) : Except Fault (Partitions cfg P × List Retirement) :=
  (List.range n).foldlM (sequentialStep lcoreId request) (p, [])

end

/-- **An accessor that supplies `n` requests** to a pipeline that prepares at most `window` requests
ahead: `Inv prepared outcomes` holds of the accessor after so many calls of `prepare`, of which the
last returns `false`, and after the requests with the outcomes were retired.  `request outcomes` is
the request that is then the next one to execute. -/
structure Supplies {A : Type} [RequestAccessor A] (window n : Nat)
    (request : List Outcome → RequestData) (Inv : Nat → List Outcome → A → Prop) : Prop where
  /-- `prepare` tells whether there is another request. -/
  prepare : ∀ {p outcomes a}, Inv p outcomes a → outcomes.length ≤ p →
    p ≤ outcomes.length + window → p ≤ n →
    (prepare a p).1 = decide (p < n) ∧ Inv (p + 1) outcomes (prepare a p).2
  /-- The key hash is known from when the request was prepared, however those before it come
  out. -/
  keyHash : ∀ {p outcomes a later}, Inv p outcomes a → outcomes <+: later → later.length < p →
    later.length < n → (get a later.length).keyHash = (request later).keyHash
  get : ∀ {p outcomes a}, Inv p outcomes a → outcomes.length < p → outcomes.length < n →
    get a outcomes.length = request outcomes
  retire : ∀ {p outcomes a}, Inv p outcomes a → outcomes.length < p → outcomes.length < n →
    ∀ outcome, Inv p (outcomes ++ [outcome]) (answer a outcomes.length outcome)

/-! ## The ring -/

theorem exists_nextPowerOfTwoRecursive (x fuel s : Nat) :
    ∃ k, nextPowerOfTwoRecursive x fuel s = 2 ^ k ∧ (x ≤ 2 ^ (s + fuel) → x ≤ 2 ^ k) := by
  induction fuel generalizing s with
  | zero => exact ⟨s, rfl, id⟩
  | succ fuel ih =>
    unfold nextPowerOfTwoRecursive
    split
    · obtain ⟨k, hk, hle⟩ := ih (s + 1)
      refine ⟨k, hk, fun hx => hle ?_⟩
      rwa [add_right_comm]
    · rename_i hx
      exact ⟨s, rfl, fun _ => Nat.le_of_not_lt hx⟩

theorem exists_pipelineSize {stageGap : Nat} (hgap : stageGap < 256) :
    ∃ size, 3 * stageGap ≤ size ∧ 0 < size ∧
      ∀ index, index &&& (nextPowerOfTwo (3 * stageGap) - 1) = index % size := by
  obtain ⟨k, hk, hle⟩ := exists_nextPowerOfTwoRecursive (3 * stageGap) 64 0
  refine ⟨2 ^ k, hle (by omega), Nat.two_pow_pos k, fun index => ?_⟩
  unfold nextPowerOfTwo
  rw [hk]
  exact and_two_pow_sub_one_eq_mod index k

theorem sub64_lt_iff {i d count : Nat} (hi : i < 2 ^ 63) (hd : d < 2 ^ 32)
    (hcount : count < 2 ^ 63) :
    sub64 i d < count ↔ d ≤ i ∧ i - d < count := by
  unfold sub64
  by_cases hle : d ≤ i
  · have heq : (i + 2 ^ 64 - d) % 2 ^ 64 = i - d := by omega
    rw [heq]
    exact ⟨fun h => ⟨hle, h⟩, fun h => h.2⟩
  · have heq := mod_eq_of_lt (by omega)
    omega

theorem sub64_sub64 {i d e : Nat} (hi : i < 2 ^ 63) (hd : d < 2 ^ 32) (he : e < 2 ^ 32) :
    sub64 (sub64 i d) e = sub64 i (d + e) := by
  unfold sub64
  omega

theorem sub64_of_le {i d : Nat} (hle : d ≤ i) (hi : i < 2 ^ 63) : sub64 i d = i - d := by
  unfold sub64
  omega

/-! ## The partitions -/

namespace Partitions
variable {cfg : TableConfig} {P : Type} [Pool P] {p p' : Partitions cfg P}
  {lcoreId partitionId : Nat}
  {q : RequestData} {outcome : Outcome}

/-- All tables but one are left as they are, and that one too unless the lcore may write to it. -/
def Local (p : Partitions cfg P) (lcoreId partitionId : Nat) (p' : Partitions cfg P) : Prop :=
  ∃ t, p' = p.setTable partitionId t ∧
    (t = p.tables partitionId ∨ p.concurrentWrite = true ∨ p.ownerLcoreIds partitionId = lcoreId)

omit [Pool P] in
theorem Local.refl : p.Local lcoreId partitionId p := by
  refine ⟨p.tables partitionId, ?_, .inl rfl⟩
  unfold setTable
  rw [update_eq_self]

omit [Pool P] in
theorem Local.write (haccept : (p.concurrentWrite || p.ownerLcoreIds partitionId == lcoreId) = true)
    (t : LTable cfg P) : p.Local lcoreId partitionId (p.setTable partitionId t) := by
  rw [Bool.or_eq_true, beq_iff_eq] at haccept
  exact ⟨t, rfl, .inr haccept⟩

omit [Pool P] in
theorem Local.answerWith {call : Except Fault (Result × LTable cfg P)}
    (haccept : (p.concurrentWrite || p.ownerLcoreIds partitionId == lcoreId) = true)
    (h : p.answerWith partitionId call = .ok (outcome, p')) : p.Local lcoreId partitionId p' := by
  obtain ⟨⟨_, t⟩, -, h⟩ := bind_eq_ok.mp h
  cases h
  exact .write haccept t

theorem get_eq_self {t t' : LTable cfg P} {keyHash keyLength inValueLength : Nat}
    {key outValue : Buffer} {output : LTable.GetOutput}
    (h : t.get keyHash key keyLength outValue inValueLength false = .ok (output, t')) : t' = t := by
  obtain ⟨found, -, h⟩ := bind_eq_ok.mp h
  cases found with
  | none =>
    cases h
    rfl
  | some slot =>
    dsimp only [LTable.getAt] at h
    split at h <;> cases h <;> rfl

/-- **What an accepted operation does**: `kReset` resets all tables, and any other changes at most
the table of the partition. -/
theorem execute_eq_ok (h : p.execute lcoreId partitionId q = .ok (outcome, p'))
    (haccept : p.accepts lcoreId partitionId q.operation = true) :
    (q.operation = some .kReset ∧ p' = { p with tables := fun id => (p.tables id).reset }) ∨
      p.Local lcoreId partitionId p' := by
  unfold execute at h
  split at h <;> rename_i hop <;> rw [hop] at haccept ⊢
  · split at h
    · cases h
    · cases h
      exact .inl ⟨rfl, rfl⟩
  all_goals right
  · cases h
    exact .refl
  · cases h
    exact .refl
  · exact .answerWith haccept h
  · exact .answerWith haccept h
  · obtain ⟨⟨_, t⟩, hget, h⟩ := bind_eq_ok.mp h
    cases h
    refine ⟨t, rfl, ?_⟩
    by_cases howner : p.ownerLcoreIds partitionId = lcoreId
    · exact .inr (.inr howner)
    -- only the owner moves what it reads
    · rw [beq_eq_false_iff_ne.mpr howner] at hget
      exact .inl (get_eq_self hget)
  · obtain ⟨result, -, h⟩ := bind_eq_ok.mp h
    cases h
    exact .refl
  · exact .answerWith haccept h
  · split at h
    · cases h
      exact .refl
    · obtain ⟨⟨⟨_, _⟩, t⟩, -, h⟩ := bind_eq_ok.mp h
      cases h
      exact .write haccept t
  · cases h
    exact .refl

/-- A request changes nothing but tables and the number of requests. -/
theorem handle_frame (h : p.handle lcoreId partitionId q = .ok (outcome, p')) :
    p' = { p with tables := p'.tables, requestCount := p'.requestCount } := by
  unfold handle at h
  split at h
  · rename_i haccept
    obtain ⟨-, rfl⟩ | ⟨t, rfl, -⟩ := execute_eq_ok h haccept
    · rfl
    · rfl
  · cases h
    rfl

theorem getPartitionId_handle (h : p.handle lcoreId partitionId q = .ok (outcome, p')) :
    p'.getPartitionId = p.getPartitionId := by
  rw [handle_frame h]
  rfl

end Partitions

/-! ## The pipeline in step -/

namespace Pipeline
variable {cfg : TableConfig} {P A : Type} [RequestAccessor A] {s : Pipeline cfg P A}
  {stageGap size n i : Nat} {request : List Outcome → RequestData}
  {Inv : Nat → List Outcome → A → Prop}

/-- The entries of the ring between the positions `first` and `last` are the partitions of the
requests, however those that are not retired come out. -/
def RingHolds (s : Pipeline cfg P A) (size n : Nat) (request : List Outcome → RequestData)
    (first last : Nat) : Prop :=
  ∀ later, s.retired.map Retirement.outcome <+: later → first ≤ later.length →
    later.length < last → later.length < n →
    s.partitionIds (later.length % size) = s.partitions.getPartitionId (request later).keyHash

/-- The counters before the iteration `i`. -/
structure Ticks (stageGap n i : Nat) (s : Pipeline cfg P A) : Prop where
  bound : i ≤ n + 3 * stageGap + 1
  count : s.count = if i ≤ n then kUnknownCount else n
  countPlusGap : s.countPlusGap = s.count + 3 * stageGap

/-- **The pipeline before the iteration `i`**: `i` requests are prepared, `i - 3 * stageGap` are
retired, and the partitions of those in between, as far as they were looked up, are in the ring. -/
structure InStep (stageGap size n : Nat) (request : List Outcome → RequestData)
    (Inv : Nat → List Outcome → A → Prop) (i : Nat) (s : Pipeline cfg P A) : Prop extends
    Ticks stageGap n i s where
  retired : s.retired.length = min (i - 3 * stageGap) n
  inv : Inv (min i (n + 1)) (s.retired.map Retirement.outcome) s.accessor
  ring : s.RingHolds size n request (i - 3 * stageGap) (i - stageGap)

omit [RequestAccessor A] in
theorem Ticks.count_le (h : Ticks stageGap n i s) (hn : n < kUnknownCount) :
    s.count ≤ kUnknownCount := by
  rw [h.count]
  split
  · exact le_refl _
  · exact hn.le

omit [RequestAccessor A] in
theorem Ticks.lt_count (h : Ticks stageGap n i s) (hn : n < kUnknownCount) {index : Nat}
    (hindex : index < n) : index < s.count := by
  rw [h.count]
  split
  · exact hindex.trans hn
  · exact hindex

omit [RequestAccessor A] in
theorem Ticks.retired_of_ended (h : Ticks stageGap n i s)
    (hn : n < kUnknownCount) (hended : ¬ i < s.countPlusGap) : n ≤ i - 3 * stageGap ∧ n < i := by
  have hcount := h.count
  rw [h.countPlusGap] at hended
  split at hcount
  · omega
  · omega

/-- The pipeline in the iteration `i`, before the third stage. -/
def ready (stageGap mask i : Nat) (s : Pipeline cfg P A) : Pipeline cfg P A :=
  (s.stage0 stageGap i).stage1 mask (sub64 i stageGap)

theorem exists_stage1_eq (mask index : Nat) :
    ∃ partitionIds, s.stage1 mask index = { s with partitionIds } := by
  unfold stage1
  split
  · exact ⟨_, rfl⟩
  · exact ⟨_, rfl⟩

theorem Ticks.ready (h : Ticks stageGap n i s) (hn : n < kUnknownCount) (mask : Nat)
    (hmore : i < s.countPlusGap)
    (hprepare : i ≤ n → (prepare s.accessor i).1 = decide (i < n)) :
    Ticks stageGap n (i + 1) (s.ready stageGap mask i) ∧
    (s.ready stageGap mask i).accessor =
      (if i ≤ n then (prepare s.accessor i).2 else s.accessor) ∧
    (s.ready stageGap mask i).partitions = s.partitions ∧
    (s.stage0 stageGap i).partitions = s.partitions ∧
    (s.stage0 stageGap i).partitionIds = s.partitionIds ∧
    (s.stage0 stageGap i).retired = s.retired := by
  obtain ⟨_, hstage1⟩ := exists_stage1_eq (s := s.stage0 stageGap i) mask (sub64 i stageGap)
  have hcount := h.count
  have hbound : i + 1 ≤ n + 3 * stageGap + 1 := by
    rw [h.countPlusGap] at hmore
    split at hcount
    · omega
    · omega
  rw [Pipeline.ready, hstage1]
  unfold Pipeline.stage0
  by_cases hi : i ≤ n
  · rw [if_pos hi] at hcount ⊢
    rw [if_pos hcount]
    have hprepared := hprepare hi
    dsimp only
    by_cases hlt : i < n
    · rw [decide_eq_true hlt] at hprepared
      rw [if_pos hprepared]
      exact ⟨⟨hbound, hcount.trans (if_pos hlt).symm, h.countPlusGap⟩, rfl, rfl, rfl, rfl, rfl⟩
    · rw [decide_eq_false hlt] at hprepared
      rw [hprepared]
      refine ⟨⟨hbound, ?_, rfl⟩, rfl, rfl, rfl, rfl, rfl⟩
      exact (Nat.le_antisymm hi (Nat.le_of_not_lt hlt)).trans (if_neg hlt).symm
  · rw [if_neg hi] at hcount ⊢
    rw [if_neg (by omega)]
    exact ⟨⟨hbound, hcount.trans (if_neg (by omega)).symm, h.countPlusGap⟩, rfl, rfl, rfl, rfl, rfl⟩

theorem ringHolds_stage1 {mask : Nat} (hmask : ∀ index, index &&& mask = index % size)
    (hsize : 3 * stageGap ≤ size) (hsupplies : Supplies (3 * stageGap) n request Inv)
    (hn : n < kUnknownCount) (hgap : stageGap < 256) (hticks : Ticks stageGap n (i + 1) s)
    (hinv : Inv (min (i + 1) (n + 1)) (s.retired.map Retirement.outcome) s.accessor)
    (hring : s.RingHolds size n request (i - 3 * stageGap) (i - stageGap)) :
    (s.stage1 mask (sub64 i stageGap)).RingHolds size n request (i - 3 * stageGap)
      (i + 1 - stageGap) := by
  have hle := hticks.count_le hn
  have hbound := hticks.bound
  have hlater := @Ticks.lt_count _ _ _ s stageGap n (i + 1) hticks hn
  have hcount := hticks.count
  unfold kUnknownCount at hn hle
  have hlt := @sub64_lt_iff i stageGap s.count (by omega) (by omega) (by omega)
  unfold stage1
  split
  · rename_i hindex
    obtain ⟨hgi, hic⟩ := hlt.mp hindex
    rw [sub64_of_le hgi (by omega), hmask]
    intro later hretired hfirst hlast hj
    dsimp only
    by_cases hlast' : later.length = i - stageGap
    · have hhash := hsupplies.keyHash hinv hretired (by omega) hj
      rw [hlast'] at hhash
      rw [hlast', update_self, hhash]
    · -- fewer than `size` entries are in use
      have hne : later.length % size ≠ (i - stageGap) % size :=
        Memory.mod_ne_of_lt (by omega) (by omega)
      rw [update_of_ne hne]
      exact hring later hretired hfirst (by omega) hj
  · rename_i hindex
    rw [hlt] at hindex
    intro later hretired hfirst _ hj
    refine hring later hretired hfirst ?_ hj
    by_contra hlate
    exact hindex ⟨by omega, hlater (by omega)⟩

variable [Pool P] {mask : Nat}

/-- **The third stage** does what the loop does with the request. -/
theorem stage3_of_lt {lcoreId index : Nat} {q : RequestData} (hindex : index < s.count)
    (hget : get s.accessor index = q)
    (hring : s.partitionIds (index &&& mask) = s.partitions.getPartitionId q.keyHash) :
    s.stage3 lcoreId mask index =
      (s.partitions.handle lcoreId (s.partitions.getPartitionId q.keyHash) q) >>=
        fun result => .ok { s with
          partitions := result.2
          accessor := answer s.accessor index result.1
          retired := s.retired ++
            [⟨index, s.partitions.getPartitionId q.keyHash, result.1⟩] } := by
  unfold stage3
  rw [if_pos hindex]
  rw [hring, hget]
  rfl

theorem Ticks.iterate_eq (h : Ticks stageGap n (i + 1) (s.ready stageGap mask i))
    (hn : n < kUnknownCount) (hgap : stageGap < 256) (lcoreId : Nat) :
    s.iterate lcoreId stageGap mask i =
      if 3 * stageGap ≤ i ∧ i - 3 * stageGap < n then
        (s.ready stageGap mask i).stage3 lcoreId mask (i - 3 * stageGap)
      else .ok (s.ready stageGap mask i) := by
  have hbound := h.bound
  have hle := h.count_le hn
  have hcount := h.count
  unfold kUnknownCount at hn hle hcount
  have hi : i < 2 ^ 63 := by omega
  have hindex : sub64 (sub64 (sub64 i stageGap) stageGap) stageGap = sub64 i (3 * stageGap) := by
    rw [sub64_sub64 hi (by omega) (by omega), sub64_sub64 hi (by omega) (by omega)]
    congr 1
    omega
  change stage3 lcoreId mask (sub64 (sub64 (sub64 i stageGap) stageGap) stageGap)
    (s.ready stageGap mask i) = _
  rw [hindex]
  split
  · rename_i hretires
    rw [sub64_of_le hretires.1 hi]
  · rename_i hpasses
    refine if_neg ?_
    rw [sub64_lt_iff hi (by omega) (by omega), hcount]
    split
    · omega
    · exact hpasses

/-- What the pipeline keeps to, for the following results. -/
structure Runs (stageGap mask size n : Nat) (request : List Outcome → RequestData)
    (Inv : Nat → List Outcome → A → Prop) : Prop where
  gap : stageGap < 256
  few : n < kUnknownCount
  enough : 3 * stageGap ≤ size
  mask : ∀ index, index &&& mask = index % size
  supplies : Supplies (3 * stageGap) n request Inv

variable (hruns : Runs stageGap mask size n request Inv)
include hruns

section
variable (h : InStep stageGap size n request Inv i s)
include h

theorem InStep.before_stage3 (lcoreId : Nat) (hmore : i < s.countPlusGap) : ∃ s' : Pipeline cfg P A,
      s.iterate lcoreId stageGap mask i = (if 3 * stageGap ≤ i ∧ i - 3 * stageGap < n then
        s'.stage3 lcoreId mask (i - 3 * stageGap) else .ok s') ∧
      Ticks stageGap n (i + 1) s' ∧ s'.partitions = s.partitions ∧ s'.retired = s.retired ∧
      Inv (min (i + 1) (n + 1)) (s'.retired.map Retirement.outcome) s'.accessor ∧
      s'.RingHolds size n request (i - 3 * stageGap) (i + 1 - stageGap) := by
  have hlength : (s.retired.map Retirement.outcome).length = min (i - 3 * stageGap) n :=
    (length_map _).trans h.retired
  have hprepare : i ≤ n → (prepare s.accessor i).1 = decide (i < n) ∧
      Inv (i + 1) (s.retired.map Retirement.outcome) (prepare s.accessor i).2 := by
    intro hi
    have hinv := h.inv
    rw [min_eq_left (by omega)] at hinv
    exact hruns.supplies.prepare hinv (by omega) (by omega) hi
  obtain ⟨hticks, haccessor, hpartitions, hpartitions₀, hids, hretired₀⟩ :=
    h.toTicks.ready hruns.few mask hmore fun hi => (hprepare hi).1
  have hinv : Inv (min (i + 1) (n + 1)) (s.retired.map Retirement.outcome)
      (s.ready stageGap mask i).accessor := by
    rw [haccessor]
    split
    · rename_i hi
      rw [min_eq_left (by omega)]
      exact (hprepare hi).2
    · rename_i hi
      rw [show min (i + 1) (n + 1) = min i (n + 1) by omega]
      exact h.inv
  obtain ⟨_, hstage1⟩ := exists_stage1_eq (s := s.stage0 stageGap i) mask (sub64 i stageGap)
  have hretired : (s.ready stageGap mask i).retired = s.retired := by
    rw [ready, hstage1]
    exact hretired₀
  refine ⟨_, hticks.iterate_eq hruns.few hruns.gap lcoreId, hticks, hpartitions, hretired, ?_, ?_⟩
  · rw [hretired]
    exact hinv
  rw [ready, hstage1] at hticks hinv
  refine ringHolds_stage1 hruns.mask hruns.enough hruns.supplies hruns.few hruns.gap
    ⟨hticks.bound, hticks.count, hticks.countPlusGap⟩ ?_ ?_
  · rw [hretired₀]
    exact hinv
  · unfold RingHolds
    rw [hpartitions₀, hids, hretired₀]
    exact h.ring

/-- **One iteration** in which a request is retired. -/
theorem InStep.iterate_retires (lcoreId : Nat)
    (hle : 3 * stageGap ≤ i) (hlt : i - 3 * stageGap < n) (hmore : i < s.countPlusGap) :
    match sequentialStep lcoreId request (s.partitions, s.retired) (i - 3 * stageGap) with
    | .error fault => s.iterate lcoreId stageGap mask i = .error fault
    | .ok (partitions, retired) => ∃ s', s.iterate lcoreId stageGap mask i = .ok s' ∧
      s'.partitions = partitions ∧ s'.retired = retired ∧
      InStep stageGap size n request Inv (i + 1) s' := by
  obtain ⟨_, hiterate, hticks, hpartitions, hretired, hinv, hring⟩ :=
    h.before_stage3 hruns lcoreId hmore
  rw [if_pos ⟨hle, hlt⟩] at hiterate
  have hlength : (s.retired.map Retirement.outcome).length = i - 3 * stageGap := by
    rw [length_map, h.retired, min_eq_left hlt.le]
  rw [hretired] at hinv
  have hget := hruns.supplies.get hinv (by omega) (by omega)
  have hid := hring _ (by rw [hretired]) hlength.ge (by omega) (by omega)
  rw [hlength] at hget hid
  rw [← hruns.mask] at hid
  rw [hiterate, stage3_of_lt (hticks.lt_count hruns.few hlt) hget hid, hpartitions, hretired]
  unfold sequentialStep
  dsimp only
  set q := request (s.retired.map Retirement.outcome)
  cases hhandle : s.partitions.handle lcoreId (s.partitions.getPartitionId q.keyHash) q with
  | error => rfl
  | ok result =>
    obtain ⟨outcome, _⟩ := result
    refine ⟨_, rfl, rfl, rfl, ⟨hticks.bound, hticks.count, hticks.countPlusGap⟩, ?_, ?_, ?_⟩
    · rw [length_append, h.retired, length_singleton]
      omega
    · have hanswered := hruns.supplies.retire hinv (by omega) (by omega) outcome
      rw [hlength] at hanswered
      rw [map_append]
      exact hanswered
    · intro later hlater _ hlast hj
      have hprefix : s.retired.map Retirement.outcome <+: later := by
        rw [map_append] at hlater
        exact (prefix_append _ _).trans hlater
      rw [← hretired] at hprefix
      refine (hring later hprefix (by omega) hlast hj).trans ?_
      rw [hpartitions, ← Partitions.getPartitionId_handle hhandle]

/-- **One iteration** in which none is. -/
theorem InStep.iterate_passes (lcoreId : Nat)
    (hpasses : ¬ (3 * stageGap ≤ i ∧ i - 3 * stageGap < n)) (hmore : i < s.countPlusGap) :
    ∃ s', s.iterate lcoreId stageGap mask i = .ok s' ∧ s'.partitions = s.partitions ∧
      s'.retired = s.retired ∧ InStep stageGap size n request Inv (i + 1) s' := by
  obtain ⟨s', hiterate, hticks, hpartitions, hretired, hinv, hring⟩ :=
    h.before_stage3 hruns lcoreId hmore
  refine ⟨s', hiterate.trans (if_neg hpasses), hpartitions, hretired, hticks, ?_, hinv,
    fun later hlater hfirst hlast hj => hring later hlater (by omega) hlast hj⟩
  rw [hretired, h.retired]
  omega

end

/-- The result of a run is that of the loop, with an accessor that all requests were retired
from. -/
def Agrees (n : Nat) (Inv : Nat → List Outcome → A → Prop)
    (result : Except Fault (Pipeline cfg P A)) :
    Except Fault (Partitions cfg P × List Retirement) → Prop
  | .error fault => result = .error fault
  | .ok (partitions, retired) => ∃ s, result = .ok s ∧ s.partitions = partitions ∧
    s.retired = retired ∧ Inv (n + 1) (retired.map Retirement.outcome) s.accessor

omit [RequestAccessor A] hruns [Pool P] in
theorem Agrees.map_eq {result : Except Fault (Pipeline cfg P A)}
    {expected : Except Fault (Partitions cfg P × List Retirement)}
    (h : Agrees n Inv result expected) :
    (result.map fun s => (s.partitions, s.retired)) = expected := by
  cases expected with
  | error => rw [show result = _ from h, Except.map]
  | ok =>
    obtain ⟨s, hresult, hpartitions, hretired, -⟩ := h
    rw [hresult, Except.map, hpartitions, hretired]

omit [RequestAccessor A] hruns [Pool P] in
theorem Agrees.inv {expected : Except Fault (Partitions cfg P × List Retirement)}
    (h : Agrees n Inv (.ok s) expected) : expected = .ok (s.partitions, s.retired) ∧
      Inv (n + 1) (s.retired.map Retirement.outcome) s.accessor := by
  cases expected with
  | error => cases show Except.ok s = _ from h
  | ok =>
    obtain ⟨_, hresult, hpartitions, hretired, hinv⟩ := h
    cases hresult
    rw [hpartitions, hretired]
    exact ⟨rfl, hinv⟩

/-- **The loop agrees with the loop over the requests** that are left. -/
theorem InStep.loop_agrees (lcoreId : Nat) {fuel : Nat}
    (h : InStep stageGap size n request Inv i s)
    (hfuel : n + 3 * stageGap + 1 < i + fuel) :
    Agrees n Inv (loop lcoreId stageGap mask fuel i s)
      ((List.range' (i - 3 * stageGap) (n - (i - 3 * stageGap))).foldlM
        (sequentialStep lcoreId request) (s.partitions, s.retired)) := by
  induction fuel generalizing i s with
  | zero =>
    have hbound := h.bound
    omega
  | succ _ ih =>
    unfold loop
    by_cases hmore : i < s.countPlusGap
    · rw [if_pos hmore]
      by_cases hretires : 3 * stageGap ≤ i ∧ i - 3 * stageGap < n
      · have hstep := h.iterate_retires hruns lcoreId hretires.1 hretires.2 hmore
        rw [show n - (i - 3 * stageGap) = n - (i + 1 - 3 * stageGap) + 1 by omega,
          range'_succ, show i - 3 * stageGap + 1 = i + 1 - 3 * stageGap by omega,
          foldlM_cons]
        cases hsequential : sequentialStep lcoreId request (s.partitions, s.retired)
            (i - 3 * stageGap) with
        | error =>
          rw [hsequential] at hstep
          rw [show s.iterate lcoreId stageGap mask i = _ from hstep]
          rfl
        | ok =>
          rw [hsequential] at hstep
          obtain ⟨s', hiterate, hpartitions, hretired, hnext⟩ := hstep
          have hrest := ih hnext (by omega)
          rw [hpartitions, hretired] at hrest
          rw [hiterate]
          exact hrest
      · obtain ⟨_, hiterate, hpartitions, hretired, hnext⟩ :=
          h.iterate_passes hruns lcoreId hretires hmore
        have hrest := ih hnext (by omega)
        have hleft : List.range' (i + 1 - 3 * stageGap) (n - (i + 1 - 3 * stageGap)) =
            List.range' (i - 3 * stageGap) (n - (i - 3 * stageGap)) := by
          by_cases hle : 3 * stageGap ≤ i
          · rw [show n - (i - 3 * stageGap) = 0 by omega,
              show n - (i + 1 - 3 * stageGap) = 0 by omega]
            rfl
          · rw [show i + 1 - 3 * stageGap = i - 3 * stageGap by omega]
        rw [hleft, hpartitions, hretired] at hrest
        rw [hiterate]
        exact hrest
    · rw [if_neg hmore]
      obtain ⟨hretired, hprepared⟩ := h.retired_of_ended hruns.few hmore
      rw [show n - (i - 3 * stageGap) = 0 by omega]
      have hinv := h.inv
      rw [min_eq_right hprepared] at hinv
      exact ⟨s, rfl, rfl, rfl, hinv⟩

end Pipeline

/-! ## The requests, one after another -/

section
variable {cfg : TableConfig} {P : Type} [Pool P] {lcoreId n : Nat}
  {request : List Outcome → RequestData} {p p' : Partitions cfg P} {retired : List Retirement}

theorem retired_of_sequential (h : sequential lcoreId request n p = .ok (p', retired)) :
    p'.getPartitionId = p.getPartitionId ∧ retired.map Retirement.index = List.range n ∧
      ∀ q ∈ retired, q.partitionId = p.getPartitionId
        (request ((retired.take q.index).map Retirement.outcome)).keyHash := by
  unfold sequential at h
  induction n generalizing p' retired with
  | zero =>
    cases h
    exact ⟨rfl, rfl, fun q hq => nomatch hq⟩
  | succ n ih =>
    rw [range_succ, foldlM_concat_eq_ok] at h
    obtain ⟨⟨_, before⟩, hbefore, h⟩ := h
    obtain ⟨hsame, hindices, hids⟩ := ih hbefore
    obtain ⟨⟨_, _⟩, hhandle, h⟩ := bind_eq_ok.mp h
    cases h
    have hlength : before.length = n := by
      rw [← length_map Retirement.index, hindices, length_range]
    refine ⟨(Partitions.getPartitionId_handle hhandle).trans hsame, ?_, fun q hq => ?_⟩
    · rw [map_append, hindices, range_succ]
      rfl
    · rcases mem_append.mp hq with hq | hq
      · have hindex : q.index < n := by
          rw [← mem_range, ← hindices]
          exact mem_map_of_mem hq
        rw [take_append_of_le_length (hlength ▸ hindex.le)]
        exact hids q hq
      · obtain rfl := mem_singleton.mp hq
        rw [take_append_of_le_length hlength.ge, take_of_length_le hlength.le]
        exact congrFun hsame _

/-- **A fault of the loop** is the fault of one of its requests. -/
theorem fault_of_sequential {fault : Fault} (h : sequential lcoreId request n p = .error fault) :
    ∃ i < n, ∃ p' retired, sequential lcoreId request i p = .ok (p', retired) ∧
      let q := request (retired.map Retirement.outcome)
      p'.handle lcoreId (p'.getPartitionId q.keyHash) q = .error fault := by
  induction n with
  | zero => cases h
  | succ n ih =>
    unfold sequential at h
    rw [range_succ, foldlM_append] at h
    rcases bind_eq_error.mp h with hbefore | ⟨⟨p', retired⟩, hbefore, hlast⟩
    · obtain ⟨i, hi, hfault⟩ := ih hbefore
      exact ⟨i, hi.trans (lt_succ_self n), hfault⟩
    · refine ⟨n, lt_succ_self n, p', retired, hbefore, ?_⟩
      rw [foldlM_cons] at hlast
      rcases bind_eq_error.mp hlast with hstep | ⟨_, -, hnone⟩
      · rcases bind_eq_error.mp hstep with hhandle | ⟨_, -, hnone⟩
        · exact hhandle
        · cases hnone
      · cases hnone

end

/-! ## `process` -/

section
variable {cfg : TableConfig} {P A : Type} [Pool P] [RequestAccessor A] {stageGap n : Nat}
  {request : List Outcome → RequestData} {Inv : Nat → List Outcome → A → Prop}

theorem Partitions.process_agrees (lcoreId : Nat) (hgap : stageGap < 256) (hn : n < kUnknownCount)
    (hsupplies : Supplies (3 * stageGap) n request Inv)
    (p : Partitions cfg P) (partitionIds : Nat → Nat) (a : A) (hstart : Inv 0 [] a) :
    Agrees n Inv (p.process lcoreId stageGap partitionIds a) (sequential lcoreId request n p) := by
  obtain ⟨size, hsize, -, hmask⟩ := exists_pipelineSize hgap
  have hinStep : InStep stageGap size n request Inv 0
      (⟨p, a, partitionIds, kUnknownCount, kUnknownCount + 3 * stageGap, []⟩ : Pipeline cfg P A) :=
    { bound := zero_le _
      count := rfl
      countPlusGap := rfl
      retired := by
        rw [Nat.zero_sub, Nat.zero_min]
        rfl
      inv := by
        rw [Nat.zero_min]
        exact hstart
      ring := fun later _ _ hlast _ => absurd hlast (by omega) }
  unfold kUnknownCount at hn
  have hfuel : n + 3 * stageGap + 1 < 0 + 2 ^ 64 := by omega
  have hagrees := hinStep.loop_agrees ⟨hgap, hn, hsize, hmask, hsupplies⟩ lcoreId hfuel
  rw [Nat.zero_sub, Nat.sub_zero, ← range_eq_range'] at hagrees
  exact hagrees

/-- **The pipeline does what the loop does**: the same calls of the tables, the same answers or the
same fault of a table, each request retired once and in order, with the partition of its own key
hash from the ring. -/
theorem Partitions.process_eq_sequential (hgap : stageGap < 256) (hn : n < 2 ^ 32 - 1)
    (hsupplies : Supplies (3 * stageGap) n request Inv)
    (p : Partitions cfg P) (lcoreId : Nat) (partitionIds : Nat → Nat) (a : A)
    (hstart : Inv 0 [] a) :
    ((p.process lcoreId stageGap partitionIds a).map fun s => (s.partitions, s.retired)) =
      sequential lcoreId request n p ∧
    ∀ s, p.process lcoreId stageGap partitionIds a = .ok s →
      s.retired.map Retirement.index = List.range n ∧
        ∀ q ∈ s.retired, q.partitionId = p.getPartitionId
          (request ((s.retired.take q.index).map Retirement.outcome)).keyHash := by
  have hagrees := process_agrees lcoreId hgap hn hsupplies p partitionIds a hstart
  refine ⟨hagrees.map_eq, fun s hs => ?_⟩
  rw [hs] at hagrees
  exact (retired_of_sequential hagrees.inv.1).2

end

/-! ## `RequestArrayAccessor` -/

/-- `RequestArrayAccessor`: the requests are in arrays, and so are the results. -/
structure RequestArrayAccessor where
  count : Nat
  requests : Nat → RequestData
  outResults : Nat → Option Result

instance RequestArrayAccessor.instRequestAccessor : RequestAccessor RequestArrayAccessor where
  prepare a index := (decide (index < a.count), a)
  get a index := a.requests index
  setOutValue a index outValue :=
    { a with requests := update a.requests index { a.requests index with outValue } }
  setOutValueLength a index outValueLength :=
    { a with requests := update a.requests index { a.requests index with outValueLength } }
  setResult a index result :=
    { a with outResults := update a.outResults index (some result) }
  retire a _ := a

namespace RequestArrayAccessor
variable {a : RequestArrayAccessor} {index : Nat} {outcome : Outcome}

theorem count_answer : (answer a index outcome).count = a.count := by
  unfold answer
  cases outcome.outValue <;> rfl

theorem requests_answer {i : Nat} (hne : i ≠ index) :
    (answer a index outcome).requests i = a.requests i := by
  unfold answer
  cases outcome.outValue with
  | none => exact update_of_ne hne _ _
  | some =>
    exact (update_of_ne hne _ _).trans (update_of_ne hne _ _)

theorem supplies (window n : Nat) (requests : Nat → RequestData) :
    Supplies window n (fun outcomes => requests outcomes.length)
      fun _ outcomes (a : RequestArrayAccessor) =>
        a.count = n ∧ ∀ i, outcomes.length ≤ i → a.requests i = requests i where
  prepare := fun ⟨hcount, hrequests⟩ _ _ _ =>
    ⟨congrArg (fun n => decide (_ < n)) hcount, hcount, hrequests⟩
  keyHash := fun ⟨_, hrequests⟩ hlater _ _ =>
    congrArg RequestData.keyHash (hrequests _ hlater.length_le)
  get := fun ⟨_, hrequests⟩ _ _ => hrequests _ (le_refl _)
  retire := fun {_ outcomes _} ⟨hcount, hrequests⟩ _ _ outcome =>
    ⟨count_answer.trans hcount, fun i hi => by
      rw [length_append, length_singleton] at hi
      rw [requests_answer (by omega)]
      exact hrequests i (by omega)⟩

end RequestArrayAccessor

/-! ## Who writes to a table -/

namespace Partitions
variable {cfg : TableConfig} {P : Type} [Pool P] {p p' : Partitions cfg P} {lcoreId : Nat}
  {q : RequestData} {request : List Outcome → RequestData} {retired : List Retirement}

/-- The pointers to tables that are dereferenced for a request. -/
def Dereferences (p : Partitions cfg P) (lcoreId partitionId : Nat) (q : RequestData)
    (id : Nat) : Prop :=
  id = partitionId ∨ (p.accepts lcoreId partitionId q.operation = true ∧
    q.operation = some .kReset ∧ id < kMaxPartitionCount)

/-- The request dereferences only pointers that were set, and changes only tables of the lcore. -/
def Exclusive (lcoreId : Nat) (p : Partitions cfg P) (q : RequestData) : Prop :=
  let partitionId := p.getPartitionId q.keyHash
  (∀ id, p.Dereferences lcoreId partitionId q id → id < p.partitionCount) ∧
    ∀ outcome p', p.handle lcoreId partitionId q = .ok (outcome, p') →
      ∀ id < kMaxPartitionCount, p'.tables id ≠ p.tables id → p.ownerLcoreIds id = lcoreId

/-- A reset by the owner of a partition finds all pointers set, and changes no tables of others. -/
def ResetsOwn (lcoreId : Nat) (p : Partitions cfg P) (q : RequestData) : Prop :=
  q.operation = some .kReset → p.ownerLcoreIds (p.getPartitionId q.keyHash) = lcoreId →
    kMaxPartitionCount ≤ p.partitionCount ∧ ∀ id < kMaxPartitionCount,
      (p.tables id).reset ≠ p.tables id → p.ownerLcoreIds id = lcoreId

theorem exclusive_iff (hwrite : p.concurrentWrite = false) (hcount : 0 < p.partitionCount) :
    p.Exclusive lcoreId q ↔ p.ResetsOwn lcoreId q := by
  set partitionId := p.getPartitionId q.keyHash
  have haccepts : q.operation = some .kReset → (p.accepts lcoreId partitionId q.operation = true ↔
      p.ownerLcoreIds partitionId = lcoreId) := by
    intro hop
    rw [hop, accepts, hwrite, Bool.false_or, beq_iff_eq]
  constructor
  · rintro ⟨hderef, hframe⟩ hop howner
    have haccept := (haccepts hop).mpr howner
    have hsize : kMaxPartitionCount ≤ p.partitionCount := by
      by_contra hlarge
      exact lt_irrefl _ (hderef _ (.inr ⟨haccept, hop, lt_of_not_ge hlarge⟩))
    have hhandle : p.handle lcoreId partitionId q = .ok (⟨.kSuccess, none, 0⟩,
        { p.countRequest partitionId with tables := fun id => (p.tables id).reset }) := by
      rw [handle, if_pos haccept, execute, hop]
      exact if_neg (Nat.not_lt.mpr hsize)
    exact ⟨hsize, hframe _ _ hhandle⟩
  · intro hreset
    refine ⟨fun id hderef => ?_, fun outcome p' h id hid hne => ?_⟩
    · obtain rfl | ⟨haccept, hop, hset⟩ := hderef
      · exact mod_lt _ hcount
      · exact Nat.lt_of_lt_of_le hset (hreset hop ((haccepts hop).mp haccept)).1
    unfold handle at h
    split at h
    · rename_i haccept
      obtain ⟨hop, rfl⟩ | ⟨t, rfl, ht⟩ := execute_eq_ok h haccept
      · exact (hreset hop ((haccepts hop).mp haccept)).2 id hid hne
      · obtain rfl | hother := Decidable.em (id = partitionId)
        · obtain hkept | hmay | howner := ht
          · refine absurd ?_ hne
            exact (update_self _ _ _).trans hkept
          · cases hwrite.symm.trans hmay
          · exact howner
        · exact absurd (update_of_ne hother _ _) hne
    · cases h
      exact absurd rfl hne

theorem sequential_frame {n : Nat} (h : sequential lcoreId request n p = .ok (p', retired)) :
    p' = { p with tables := p'.tables, requestCount := p'.requestCount } := by
  refine foldlM_invariant (fun acc : Partitions cfg P × List Retirement =>
      acc.1 = { p with tables := acc.1.tables, requestCount := acc.1.requestCount })
    (fun index _ acc acc' hacc hstep => ?_) rfl h
  obtain ⟨⟨outcome, p₁⟩, hhandle, hstep⟩ := bind_eq_ok.mp hstep
  cases hstep
  have hframe := handle_frame hhandle
  rw [hacc] at hframe
  exact hframe

/-- **Exclusive writes stay with the owner**, whatever requests are processed, just if no lcore
resets the tables of others, or tables that are not there. -/
theorem exclusive_writes_iff (hwrite : p.concurrentWrite = false) (hcount : 0 < p.partitionCount)
    (lcoreId n : Nat) (request : List Outcome → RequestData) :
    (∀ i < n, ∀ p' retired, sequential lcoreId request i p = .ok (p', retired) →
      p'.Exclusive lcoreId (request (retired.map Retirement.outcome))) ↔
    ∀ i < n, ∀ p' retired, sequential lcoreId request i p = .ok (p', retired) →
      p'.ResetsOwn lcoreId (request (retired.map Retirement.outcome)) := by
  refine forall₂_congr fun i _ => forall₂_congr fun p' retired => forall_congr' fun h => ?_
  refine exclusive_iff ?_ ?_
  · rw [sequential_frame h]
    exact hwrite
  · rw [sequential_frame h]
    exact hcount

end Partitions

/-- A request that does nothing. -/
def noop : RequestData := ⟨some .kNoopRead, 0, fun _ => 0, 0, fun _ => 0, 0, fun _ => 0, 0⟩

/-- One partition, whose table is new. -/
def onePartition : Partitions oneBucket (CircularLog ⟨21, smallLog_minimum, smallLog_maximum⟩) :=
  ⟨true, true, 1, fun _ => 0, fun _ => LTable.create oneBucket smallLog, fun _ => 0⟩

/-- A value is set, and then it is read. -/
def storeAndLoad (index : Nat) : RequestData :=
  ⟨some (if index = 0 then .kSet else .kGet), 7, filled 7, 8, filled 9, 8, filled 0, 8⟩

/-- Two requests in an array, with a stage gap of two: the second one reads what the first one
wrote. -/
theorem process_storeAndLoad :
    ((onePartition.process 0 2 (fun _ => 0)
        (⟨2, storeAndLoad, fun _ => none⟩ : RequestArrayAccessor)).map
      fun s => (s.partitions, s.retired)) =
        sequential 0 (fun outcomes => storeAndLoad outcomes.length) 2 onePartition ∧
    ((sequential 0 (fun outcomes => storeAndLoad outcomes.length) 2 onePartition).toOption.map
      fun result => result.2.map fun q =>
        (q.outcome.result, q.outcome.outValue.map fun value => value 3, q.outcome.outValueLength)) =
      some [(.kSuccess, none, 0), (.kSuccess, some 9, 8)] :=
  ⟨(Partitions.process_eq_sequential (by decide) (by decide)
    (RequestArrayAccessor.supplies 6 2 storeAndLoad) onePartition 0 _ _
    ⟨rfl, fun _ _ => rfl⟩).1, by decide +kernel⟩

/-- The owner of the one partition sets a value and reads it. -/
theorem exclusive_writes_storeAndLoad : 0 < onePartition.partitionCount ∧
    ∀ i < 2, ∀ p' retired,
      sequential 0 (fun outcomes => storeAndLoad outcomes.length) i
        { onePartition with concurrentWrite := false } = .ok (p', retired) →
      p'.Exclusive 0 (storeAndLoad (retired.map Retirement.outcome).length) :=
  ⟨by decide, (Partitions.exclusive_writes_iff rfl (by decide) 0 2
    fun outcomes => storeAndLoad outcomes.length).mpr fun _ _ _ retired _ hop => by
      unfold storeAndLoad at hop
      dsimp only at hop
      split at hop <;> cases hop⟩

/-- A reset reaches for the table of a second partition, which there is not. -/
theorem reset_not_exclusive :
    ¬ Partitions.Exclusive 0 { onePartition with concurrentWrite := false }
      { noop with operation := some .kReset } :=
  fun h => absurd (h.1 1 (.inr ⟨by decide, rfl, by decide⟩)) (by decide)

end Testbed.Mica
