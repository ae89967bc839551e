import Testbed.Mica.Pools

/-! # The circular log

`head_` and `tail_` count all bytes that were ever popped and appended; a position stands for the
byte at its remainder modulo `size_`.  An item that was appended at the position `O` owns the
positions from `O` on: eight bytes for the log's own header and as many as were asked for.  They
are intact as long as `tail_` has not passed `O + size_` (`Fresh`).

The items from `head_` to `tail_` follow each other without a gap (`Tiles`): the headers that
`pop_head` reads are those that `push_tail` has written, so that the loop that makes room ends at
`tail_` at the latest.  This holds for every sequence of allocations, with writes inside the
items (`LogState.Reachable.tiled`).
-/
namespace Testbed.Mica

open Lib
open CircularLog List Function Nat Memory

/-! ## Positions -/

namespace LogSize
variable (z : LogSize)

theorem le_size : 2 ^ 21 ≤ z.size := Nat.pow_le_pow_right (by decide) z.minimum

theorem size_le : z.size ≤ 2 ^ 46 := Nat.pow_le_pow_right (by decide) z.maximum

end LogSize

namespace CircularLog
variable {z : LogSize} (log : CircularLog z) {log' : CircularLog z}

/-- The log has not come around to the position. -/
def Fresh (offset : Nat) : Prop := log.tail ≤ offset + z.size

theorem and_getMask (x : Nat) : x &&& log.getMask = x % z.size :=
  and_two_pow_sub_one_eq_mod x z.exponent

theorem place_header (offset i : Nat) :
    log.place ((offset &&& log.getMask) + i) = (offset + i) % z.size := by
  rw [and_getMask, place, mod_add_mod]

theorem place_getItem (offset i : Nat) :
    log.place (log.getItem offset + i) = (offset + 8 + i) % z.size := by
  rw [getItem, add_assoc, place_header, ← add_assoc]
  rfl

variable {log}

theorem itemSize_congr {offset : Nat} (h : ∀ i < 8,
    log'.memory ((offset + i) % z.size) = log.memory ((offset + i) % z.size)) :
    log'.itemSize offset = log.itemSize offset := by
  refine load_congr fun i hi => ?_
  rw [place_header, place_header]
  exact h i hi

theorem bytes_getItem (log : CircularLog z) (offset i : Nat) :
    Pool.bytes log (log.getItem offset) i = log.memory ((offset + 8 + i) % z.size) :=
  congrArg log.memory (log.place_getItem offset i)

variable {x n : Nat}

theorem sub64_eq {y : Nat} (h : y ≤ x) (hx : x < 2 ^ 64) : sub64 x y = x - y := by
  unfold sub64
  omega

theorem isValid_iff {offset : Nat} (hoffset : offset ≤ log.tail) (htail : log.tail < 2 ^ 48) :
    log.isValid offset = true ↔ log.Fresh offset := by
  have hmask : sub64 log.tail offset &&& kOffsetMask = log.tail - offset := by
    rw [sub64_eq hoffset (htail.trans (by decide)), kOffsetMask, and_two_pow_sub_one_eq_mod]
    exact mod_eq_of_lt (by omega)
  unfold isValid Fresh
  rw [decide_eq_true_eq, hmask]
  omega

theorem place_ne (log : CircularLog z) {y : Nat} (hx : x < log.tail) (hx' : log.tail ≤ x + z.size)
    (hy : y < log.tail) (hy' : log.tail ≤ y + z.size) (hne : x ≠ y) : x % z.size ≠ y % z.size := by
  rcases lt_or_gt_of_ne hne with hlt | hlt
  · exact mod_ne_of_lt hlt (by omega)
  · exact (mod_ne_of_lt hlt (by omega)).symm

theorem distinct_getItem (log : CircularLog z) (offset : Nat) (hn : n ≤ z.size) :
    Distinct log.place (log.getItem offset) n :=
  distinct_mod hn

theorem popLoop_eq_ok {v fuel : Nat} (h : popLoop v fuel log = .ok log') :
    ∃ head, log' = { log with head } := by
  induction fuel generalizing log with
  | zero => cases h
  | succ _ ih =>
    obtain ⟨_, head, _⟩ := log
    rw [popLoop] at h
    split at h
    · obtain ⟨head', hlog'⟩ := ih h
      exact ⟨head', hlog'⟩
    · cases h
      exact ⟨head, rfl⟩

/-- **What `allocate` does**: it writes the header at the tail, and moves the tail. -/
theorem allocate_eq_ok {found : Option Nat} (h : log.allocate n = .ok (found, log')) :
    found = some (log.tail % 2 ^ 48) ∧
      ∃ head, log' = ⟨store log.place log.memory (log.tail &&& log.getMask) 8 (n + 8), head,
        (log.tail + (n + 8)) % 2 ^ 64⟩ := by
  obtain ⟨⟨_, _⟩, hpush, h⟩ := bind_eq_ok.mp h
  obtain ⟨_, hpop, hpush⟩ := bind_eq_ok.mp hpush
  obtain ⟨head, rfl⟩ := popLoop_eq_ok hpop
  cases hpush
  cases h
  refine ⟨congrArg some ?_, head, rfl⟩
  exact and_two_pow_sub_one_eq_mod log.tail 48

end CircularLog

/-! ## Items without a gap -/

namespace CircularLog
variable {z : LogSize} {log : CircularLog z}

/-- Positions and payload sizes of items that follow each other from `a` to `b`. -/
def Consecutive : Nat → List (Nat × Nat) → Nat → Prop
  | a, [], b => a = b
  | a, item :: rest, b => item.1 = a ∧ Consecutive (a + 8 + item.2) rest b

/-- The headers of the items tell their sizes. -/
def Headers (log : CircularLog z) (items : List (Nat × Nat)) : Prop :=
  ∀ item ∈ items, log.itemSize item.1 = item.2 + 8

theorem Consecutive.le (h : Consecutive a items b) : a + 8 * items.length ≤ b := by
  induction items generalizing a with
  | nil => exact le_of_eq h
  | cons _ _ ih =>
    have hrest := ih h.2
    rw [length_cons]
    omega

variable {items' : List (Nat × Nat)}

theorem Consecutive.append {c : Nat} (h : Consecutive a items b) (h' : Consecutive b items' c) :
    Consecutive a (items ++ items') c := by
  induction items generalizing a with
  | nil =>
    cases h
    exact h'
  | cons _ _ ih => exact ⟨h.1, ih h.2⟩

theorem Consecutive.initial {c : Nat} (h : Consecutive a (items ++ items') b)
    (h' : Consecutive c items' b) : Consecutive a items c := by
  induction items generalizing a with
  | nil =>
    cases items' with
    | nil => exact h.trans h'.symm
    | cons => exact h.1.symm.trans h'.1
  | cons _ _ ih => exact ⟨h.1, ih h.2⟩

theorem Consecutive.mem {item : Nat × Nat} (h : Consecutive a items b) (hitem : item ∈ items) :
    a ≤ item.1 ∧ item.1 + 8 + item.2 ≤ b := by
  induction items generalizing a with
  | nil => cases hitem
  | cons _ _ ih =>
    obtain ⟨_, hrest⟩ := h
    have hle := hrest.le
    rcases mem_cons.mp hitem with rfl | hmem
    · omega
    · have hbounds := ih hrest hmem
      omega

theorem Consecutive.apart {item item' : Nat × Nat} (h : Consecutive a items b)
    (hitem : item ∈ items) (hitem' : item' ∈ items) :
    item = item' ∨ item.1 + 8 + item.2 ≤ item'.1 ∨ item'.1 + 8 + item'.2 ≤ item.1 := by
  induction items generalizing a with
  | nil => cases hitem
  | cons _ _ ih =>
    obtain ⟨_, hrest⟩ := h
    rcases mem_cons.mp hitem with rfl | hmem <;> rcases mem_cons.mp hitem' with rfl | hmem'
    · exact Or.inl rfl
    · have hbounds := hrest.mem hmem'
      exact Or.inr (Or.inl (by omega))
    · have hbounds := hrest.mem hmem
      exact Or.inr (Or.inr (by omega))
    · exact ih hrest hmem hmem'

variable {live : List (Nat × Nat)}

/-- **The loop that makes room** pops some of the items, and ends. -/
theorem popLoop_returns {v fuel : Nat} (hlive : Consecutive log.head live log.tail)
    (hheaders : log.Headers live) (hv : v ≤ log.tail + z.size)
    (hbound : log.tail + z.size < 2 ^ 64) (hfuel : live.length < fuel) :
    ∃ popped rest, live = popped ++ rest ∧ ∃ head, popLoop v fuel log = .ok { log with head } ∧
      Consecutive head rest log.tail ∧ v ≤ head + z.size := by
  induction live generalizing log fuel with
  | nil =>
    obtain ⟨fuel, rfl⟩ := exists_eq_succ_of_ne_zero (ne_of_gt hfuel)
    have hhead : log.head = log.tail := hlive
    have hsum : (log.head + z.size) % 2 ^ 64 = log.head + z.size := mod_eq_of_lt (by omega)
    refine ⟨[], [], rfl, log.head, ?_, hlive, by omega⟩
    rw [popLoop, hsum, if_neg (by omega)]
  | cons item rest ih =>
    obtain ⟨fuel, rfl⟩ := exists_eq_succ_of_ne_zero (ne_of_gt (zero_lt_of_lt hfuel))
    have hle := hlive.le
    obtain ⟨hfirst, hrest⟩ := hlive
    have hsum : (log.head + z.size) % 2 ^ 64 = log.head + z.size := mod_eq_of_lt (by omega)
    rw [popLoop, hsum]
    by_cases hroom : v > log.head + z.size
    · rw [if_pos hroom]
      have hsize := hfirst ▸ hheaders item mem_cons_self
      have hnext : log.popHead = { log with head := log.head + 8 + item.2 } := by
        have hrestLe := hrest.le
        rw [popHead, hsize, mod_eq_of_lt (by omega), add_comm item.2, ← add_assoc]
      rw [hnext]
      obtain ⟨next, hlog⟩ : ∃ next : CircularLog z,
        next = { log with head := log.head + 8 + item.2 } := ⟨_, rfl⟩
      obtain ⟨popped, rest', hsplit, head, hloop, hconsecutive, hv'⟩ := @ih next fuel (hlog ▸ hrest)
          (fun other hother => hlog ▸ hheaders other (mem_cons_of_mem item hother))
          (hlog ▸ hv) (hlog ▸ hbound) (lt_of_succ_lt_succ hfuel)
      subst hlog
      exact ⟨item :: popped, rest', by rw [hsplit]; rfl, head, hloop, hconsecutive, hv'⟩
    · rw [if_neg hroom]
      exact ⟨[], item :: rest, rfl, log.head, rfl, ⟨hfirst, hrest⟩, Nat.le_of_not_lt hroom⟩

/-- **`allocate` returns**, and what it does to a log that is tiled. -/
theorem allocate_returns (hlive : Consecutive log.head live log.tail)
    (hheaders : log.Headers live) (hn : n ≤ 2 ^ 20 + 512)
    (hbound : log.tail + 8 + n + z.size < 2 ^ 64) :
    ∃ popped rest, live = popped ++ rest ∧ ∃ head, log.allocate n = .ok (some (log.tail % 2 ^ 48),
        ⟨store log.place log.memory (log.tail &&& log.getMask) 8 (n + 8), head, log.tail + 8 + n⟩) ∧
      Consecutive head rest log.tail ∧ log.tail + 16 + n ≤ head + z.size := by
  have hsize := z.le_size
  have hlength := hlive.le
  have hv : (log.tail + kHeaderSize + (n + kHeaderSize)) % 2 ^ 64 = log.tail + 16 + n := by
    unfold kHeaderSize
    omega
  have hfuel : live.length < 2 ^ 64 + 1 := by omega
  obtain ⟨popped, rest, hsplit, head, hloop, hrest, hroom⟩ :=
    popLoop_returns (v := log.tail + 16 + n) hlive hheaders (by omega) (by omega) hfuel
  refine ⟨popped, rest, hsplit, head, ?_, hrest, hroom⟩
  have htail : (log.tail + (n + kHeaderSize)) % 2 ^ 64 = log.tail + 8 + n := by
    unfold kHeaderSize
    omega
  have hoffset := and_two_pow_sub_one_eq_mod log.tail 48
  rw [allocate, pushTail]
  rw [hv, hloop]
  rw [← hoffset, ← htail]
  rfl

theorem place_getItem_mod (log : CircularLog z) (position i : Nat) :
    log.place (log.getItem (position % 2 ^ 48) + i) = (position + 8 + i) % z.size := by
  have hdvd : z.size ∣ 2 ^ 48 := pow_dvd_pow 2 (z.maximum.trans (by decide))
  rw [place_getItem, add_assoc, add_assoc, add_mod, mod_mod_of_dvd _ hdvd, ← add_mod]

theorem store_header_of_lt (hx : x < log.tail) (hroom : log.tail + 8 ≤ x + z.size) :
    store log.place log.memory (log.tail &&& log.getMask) 8 n (x % z.size) =
      log.memory (x % z.size) := by
  refine copy_of_ne fun j hj => ?_
  rw [place_header]
  exact (mod_ne_of_lt (by omega) (by omega)).symm

end CircularLog

/-! ## Sequences of allocations -/

/-- An allocation, or a byte that a client writes to the item at a position. -/
inductive LogStep where
  | allocate (itemSize : Nat)
  | write (position index : Nat) (byte : UInt8)

/-- The log, the items that were allocated, with their payload sizes, and the bytes that were
last written to them. -/
structure LogState (z : LogSize) where
  log : CircularLog z
  items : List (Nat × Nat)
  written : Nat → Nat → Option UInt8

namespace LogState
variable {z : LogSize} {s s' : LogState z}

/-- A log that was just constructed. -/
def start (memory : Memory) : LogState z := ⟨⟨memory, 0, 0⟩, [], fun _ _ => none⟩

def step (s : LogState z) : LogStep → Except Fault (LogState z)
  | .allocate n => do
    let (_, log) ← s.log.allocate n
    return {
      log
      items := s.items ++ [(s.log.tail, n)]
      written := update s.written s.log.tail fun _ => none }
  | .write position i byte =>
    let address := s.log.getItem (position % 2 ^ 48) + i
    return { s with
      log := { s.log with memory := update s.log.memory (s.log.place address) byte }
      written := update s.written position (update (s.written position) i (some byte)) }

/-- The sizes that tables ask for, and writes inside of an item that the log has not come around
to; fewer than `2 ^ 64 - size_` bytes are appended. -/
def Allowed (s : LogState z) : LogStep → Prop
  | .allocate n => 8 ∣ n ∧ n ≤ 2 ^ 20 + 512 ∧ s.log.tail + 8 + n + z.size < 2 ^ 64
  | .write position i _ => s.log.Fresh position ∧ ∃ n, (position, n) ∈ s.items ∧ i < n

/-- **The structure of the log**: the items that are not popped tile the part from the head to the
tail, their headers are intact, and so are their bytes. -/
structure Tiled (s : LogState z) : Prop where
  tail_le : s.log.tail ≤ s.log.head + z.size
  tail_lt : s.log.tail + z.size < 2 ^ 64
  tiled : ∃ popped live, s.items = popped ++ live ∧ Consecutive 0 popped s.log.head ∧
    Consecutive s.log.head live s.log.tail ∧ s.log.Headers live ∧
    ∀ item ∈ live, ∀ i < item.2, ∀ byte, s.written item.1 i = some byte →
      Pool.bytes s.log (s.log.getItem (item.1 % 2 ^ 48)) i = byte

theorem bytes_getItem_mod (s : LogState z) (position i : Nat) :
    Pool.bytes s.log (s.log.getItem (position % 2 ^ 48)) i =
      s.log.memory ((position + 8 + i) % z.size) :=
  congrArg s.log.memory (s.log.place_getItem_mod position i)

theorem Tiled.head_le (h : s.Tiled) : s.log.head ≤ s.log.tail := by
  obtain ⟨_, _, -, -, hlive, -⟩ := h.tiled
  exact (le_add_right _ _).trans hlive.le

theorem Tiled.start (memory : Memory) : (start memory : LogState z).Tiled where
  tail_le := zero_le _
  tail_lt := by
    have hsize := z.size_le
    change 0 + z.size < 2 ^ 64
    omega
  tiled := ⟨[], [], rfl, rfl, rfl, fun _ h => absurd h not_mem_nil, fun _ h => absurd h not_mem_nil⟩

theorem Tiled.allocate (h : s.Tiled) (hallowed : s.Allowed (.allocate n)) :
    ∃ s', s.step (.allocate n) = .ok s' ∧ s'.Tiled ∧ s'.log.head ≤ s.log.tail := by
  obtain ⟨popped, _, hitems, hpopped, hlive, hheaders, hbytes⟩ := h.tiled
  obtain ⟨-, hn, hbound⟩ := hallowed
  obtain ⟨more, rest, rfl, head, hallocate, hrest, _⟩ := allocate_returns hlive hheaders hn hbound
  -- the bytes from the new head to the old tail stay
  have hkept : ∀ x, head ≤ x → x < s.log.tail →
      store s.log.place s.log.memory (s.log.tail &&& s.log.getMask) 8 (n + 8)
        (x % z.size) = s.log.memory (x % z.size) :=
    fun x hx hlt => store_header_of_lt hlt (by omega)
  have hnew : Consecutive s.log.tail [(s.log.tail, n)] (s.log.tail + 8 + n) := ⟨rfl, rfl⟩
  have hhead := (le_add_right _ _).trans hrest.le
  refine ⟨_, by rw [step, hallocate]; rfl, ⟨?_, hbound, popped ++ more,
    rest ++ [(s.log.tail, n)], ?_, hpopped.append (hlive.initial hrest), hrest.append hnew, ?_, ?_⟩,
    hhead⟩
  · dsimp only
    omega
  · dsimp only
    rw [hitems]
    simp
  · intro item hitem
    rcases mem_append.mp hitem with hmem | hmem
    · have hbounds := hrest.mem hmem
      rw [← hheaders item (mem_append_right more hmem)]
      exact itemSize_congr fun i hi => hkept _ (by omega) (by omega)
    · cases mem_singleton.mp hmem
      refine (load_store (distinct_mod (by omega))).trans (mod_eq_of_lt ?_)
      omega
  · intro item hitem i hi byte hwritten
    rw [bytes_getItem_mod]
    rcases mem_append.mp hitem with hmem | hmem
    · have hbounds := hrest.mem hmem
      dsimp only at hwritten ⊢
      rw [update_of_ne (by omega)] at hwritten
      rw [hkept _ (by omega) (by omega), ← bytes_getItem_mod]
      exact hbytes item (mem_append_right more hmem) i hi byte hwritten
    · cases mem_singleton.mp hmem
      dsimp only at hwritten
      rw [update_self] at hwritten
      cases hwritten

theorem Tiled.write (h : s.Tiled) {position i : Nat} {byte : UInt8}
    (hallowed : s.Allowed (.write position i byte)) :
    ∃ s', s.step (.write position i byte) = .ok s' ∧ s'.Tiled ∧ s'.log.head ≤ s.log.tail := by
  have hhead := h.head_le
  obtain ⟨popped, live, hitems, hpopped, hlive, hheaders, hbytes⟩ := h.tiled
  obtain ⟨hfresh, n, hmem, _⟩ := hallowed
  have hall := hpopped.append hlive
  rw [hitems] at hmem
  have hbounds := hall.mem hmem
  have htail := h.tail_le
  unfold Fresh at hfresh
  -- the place is that of no other position from the head on
  have hkept : ∀ x, s.log.head ≤ x → x < s.log.tail → x ≠ position + 8 + i →
      update s.log.memory ((position + 8 + i) % z.size) byte (x % z.size) =
        s.log.memory (x % z.size) := by
    intro x hx hlt hne
    refine update_of_ne ?_ byte s.log.memory
    exact s.log.place_ne hlt (by omega) (by omega) (by omega) hne
  refine ⟨_, rfl, ⟨htail, h.tail_lt, popped, live, hitems, hpopped, hlive, ?_, ?_⟩, hhead⟩
  · intro item hitem
    have hitemBounds := hlive.mem hitem
    have hapart := hall.apart (mem_append_right popped hitem) hmem
    rw [← hheaders item hitem]
    refine itemSize_congr fun j hj => ?_
    rw [place_getItem_mod]
    refine hkept _ (by omega) (by omega) ?_
    rcases hapart with rfl | hapart | hapart <;> omega
  · intro item hitem j hj byte' hwritten
    have hitemBounds := hlive.mem hitem
    have hapart := hall.apart (mem_append_right popped hitem) hmem
    rw [bytes_getItem_mod]
    dsimp only at hwritten ⊢
    rw [place_getItem_mod]
    by_cases hposition : item.1 = position
    · rw [hposition, update_self] at hwritten
      by_cases hindex : j = i
      · rw [hindex, update_self] at hwritten
        rw [hposition, hindex, update_self]
        exact Option.some.inj hwritten
      · rw [update_of_ne hindex, ← hposition] at hwritten
        rw [hkept _ (by omega) (by omega) (by omega), ← bytes_getItem_mod]
        exact hbytes item hitem j hj byte' hwritten
    · rw [update_of_ne hposition] at hwritten
      have hne : item.1 + 8 + j ≠ position + 8 + i := by
        rcases hapart with rfl | hapart | hapart
        · exact absurd rfl hposition
        all_goals omega
      rw [hkept _ (by omega) (by omega) hne, ← bytes_getItem_mod]
      exact hbytes item hitem j hj byte' hwritten

/-- The states of a log that is used as allowed. -/
inductive Reachable : LogState z → Prop
  | start (memory : Memory) : Reachable (start memory)
  | step {s s' : LogState z} {op : LogStep} (h : Reachable s) (hallowed : s.Allowed op)
      (hstep : s.step op = .ok s') : Reachable s'

theorem Tiled.step (h : s.Tiled) {op : LogStep} (hallowed : s.Allowed op) :
    ∃ s', s.step op = .ok s' ∧ s'.Tiled ∧ s'.log.head ≤ s.log.tail := by
  cases op with
  | allocate => exact h.allocate hallowed
  | write => exact h.write hallowed

theorem Reachable.tiled (h : s.Reachable) : s.Tiled := by
  induction h with
  | start memory => exact Tiled.start memory
  | step _ hallowed hstep ih =>
    obtain ⟨_, hstep', htiled, -⟩ := ih.step hallowed
    cases hstep.symm.trans hstep'
    exact htiled

/-- **The structure of a circular log**, after every sequence of allocations and writes: head and
tail are at most `size_` apart, the items between them tile this part, with their headers and
bytes intact, and the next call returns without moving the head past the tail. -/
theorem structure_of_reachable (h : s.Reachable) :
    s.log.head ≤ s.log.tail ∧ s.log.tail ≤ s.log.head + z.size ∧
      (∃ popped live, s.items = popped ++ live ∧ Consecutive s.log.head live s.log.tail ∧
        (∀ item ∈ live, s.log.itemSize item.1 = item.2 + 8) ∧
        ∀ item ∈ live, ∀ i < item.2, ∀ byte, s.written item.1 i = some byte →
          Pool.bytes s.log (s.log.getItem (item.1 % 2 ^ 48)) i = byte) ∧
      ∀ op, s.Allowed op → ∃ s', s.step op = .ok s' ∧ s'.log.head ≤ s.log.tail := by
  have htiled := h.tiled
  obtain ⟨popped, live, hitems, -, hlive, hheaders, hbytes⟩ := htiled.tiled
  refine ⟨htiled.head_le, htiled.tail_le, ⟨popped, live, hitems, hlive, hheaders, hbytes⟩,
    fun op hallowed => ?_⟩
  obtain ⟨s', hstep, -, hhead⟩ := htiled.step hallowed
  exact ⟨s', hstep, hhead⟩

/-- An allocation in a new log of two megabytes: the item is the one that the log has. -/
theorem structure_of_reachable_one : ∃ s s' : LogState ⟨21, by decide, by decide⟩,
    s.step (.allocate 32) = .ok s' ∧ s'.items = [(0, 32)] ∧
      ∃ popped live, s'.items = popped ++ live ∧ Consecutive s'.log.head live s'.log.tail ∧
        ∀ item ∈ live, s'.log.itemSize item.1 = item.2 + 8 := by
  have hallowed : (LogState.start fun _ => 0 : LogState ⟨21, by decide, by decide⟩).Allowed
    (.allocate 32) := ⟨by decide, by decide, by decide⟩
  obtain ⟨s', hstep, -⟩ := (structure_of_reachable (Reachable.start fun _ => 0)).2.2.2 _ hallowed
  obtain ⟨-, -, ⟨popped, live, hitems, hlive, hsizes, -⟩, -⟩ :=
    structure_of_reachable ((Reachable.start _).step hallowed hstep)
  refine ⟨_, s', hstep, ?_, popped, live, hitems, hlive, hsizes⟩
  obtain ⟨⟨_, log⟩, -, hlog⟩ := bind_eq_ok.mp hstep
  rw [← pure_eq_ok.mp hlog]
  rfl

end LogState

end Testbed.Mica
