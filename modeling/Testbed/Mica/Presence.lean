import Mathlib.Tactic.TFAE
import Testbed.Mica.Sweeps

/-! # Presence in lossy tables

The calls of a table with eviction look for the key in the same way, and then differ in what they
ask of the item: `test`, `set` without overwriting and `del` take it as it is, `increment` asks
whether it is still valid, and `get` asks for a sensible length, too.  So they agree on whether a
key is there if and only if the item that is found is valid (`agree_iff`).
-/
namespace Testbed.Mica

open Lib
open LTable List Pool

namespace LTable
variable {cfg : TableConfig} {z : LogSize}

section
variable (t : LTable cfg (CircularLog z)) (keyHash : Nat) (key : Buffer) (keyLength : Nat)

/-- The slot that the calls find. -/
def Finds (slot : Slot cfg) : Prop :=
  t.findItemIndex (cfg.calcBucketIndex keyHash) keyHash (calcTag keyHash) key keyLength =
    .ok (some slot)

/-- A `get` without mutation succeeds. -/
def GetSucceeds (outValue : Buffer) (inValueLength : Nat) : Prop :=
  ∃ output t', t.get keyHash key keyLength outValue inValueLength false = .ok (output, t') ∧
    output.result = .kSuccess

/-- **The calls agree** on whether the key is there. -/
def Agree : Prop :=
  ∀ (outValue value : Buffer) (inValueLength valueLength increment : Nat),
    kMaxValueLength ≤ inValueLength →
    List.TFAE [ t.GetSucceeds keyHash key keyLength outValue inValueLength,
      t.test keyHash key keyLength = .ok .kSuccess,
      ∃ t', t.set keyHash key keyLength value valueLength false = .ok (.kExists, t'),
      ∃ t', t.del keyHash key keyLength = .ok (.kSuccess, t'),
      ∃ result out t', t.increment keyHash key keyLength increment = .ok ((result, out), t') ∧
        result ≠ .kNotFound] ∧
    -- values of eight bytes
    ∀ slot, t.Finds keyHash key keyLength slot →
      getValueLength (kvLengthVec t.pool (t.pool.getItem (t.offsetAt slot))) = 8 →
      (t.GetSucceeds keyHash key keyLength outValue inValueLength ↔
        ∃ out t', t.increment keyHash key keyLength increment = .ok ((.kSuccess, out), t'))

/-- The item that is found is valid, and its length is one that can be set. -/
def FindsValid : Prop :=
  ∀ slot, t.Finds keyHash key keyLength slot → t.pool.isValid (t.offsetAt slot) = true ∧
      getValueLength (kvLengthVec t.pool (t.pool.getItem (t.offsetAt slot))) ≤ kMaxValueLength

end

variable {t : LTable cfg (CircularLog z)} {keyHash : Nat} {key : Buffer} {keyLength : Nat}

/-! ## Each call -/

theorem test_iff :
    t.test keyHash key keyLength = .ok .kSuccess ↔ ∃ slot, t.Finds keyHash key keyLength slot := by
  constructor
  · intro h
    obtain ⟨found, hfind, h⟩ := bind_eq_ok.mp h
    cases found with
    | none => cases h
    | some slot => exact ⟨slot, hfind⟩
  · rintro ⟨slot, hfind⟩
    exact bind_eq_ok.mpr ⟨some slot, hfind, rfl⟩

variable {slot : Slot cfg} {value : Buffer} {valueLength : Nat} {t' : LTable cfg (CircularLog z)}
  {overwriting : Bool}

theorem setNew_ne_kExists :
    t.setNew slot overwriting keyHash key keyLength value valueLength ≠ .ok (.kExists, t') := by
  intro h
  obtain ⟨⟨found, _⟩, -, h⟩ := bind_eq_ok.mp h
  cases found with
  | none => cases h
  | some =>
    obtain ⟨_, -, h⟩ := bind_eq_ok.mp h
    cases h

theorem set_kExists_iff :
    (∃ t', t.set keyHash key keyLength value valueLength false = .ok (.kExists, t')) ↔
      ∃ slot, t.Finds keyHash key keyLength slot := by
  constructor
  · rintro ⟨_, h⟩
    obtain ⟨slot, hfind, -⟩ | ⟨-, hnew⟩ := set_eq_ok h
    · exact ⟨slot, hfind⟩
    · obtain ⟨hresult, -⟩ | ⟨slot, _, -, hset⟩ := hnew
      · cases hresult
      · exact absurd hset setNew_ne_kExists
  · rintro ⟨slot, hfind⟩
    exact ⟨t, bind_eq_ok.mpr ⟨some slot, hfind, rfl⟩⟩

theorem fillHole_returns (heviction : cfg.kEviction = true) (slot : Slot cfg)
    (t : LTable cfg (CircularLog z)) : ∃ t', fillHole slot (chainFuel cfg) t = .ok t' := by
  refine ⟨t, ?_⟩
  rw [chainFuel, fillHole, hasExtraBucket_of_eviction heviction]
  rfl

theorem del_kSuccess_iff (heviction : cfg.kEviction = true) :
    (∃ t', t.del keyHash key keyLength = .ok (.kSuccess, t')) ↔
      ∃ slot, t.Finds keyHash key keyLength slot := by
  constructor
  · rintro ⟨t', h⟩
    obtain ⟨-, hresult, -⟩ | ⟨slot, hfind, -⟩ := del_eq_ok h
    · cases hresult
    · exact ⟨slot, hfind⟩
  · rintro ⟨slot, hfind⟩
    obtain ⟨t', hfill⟩ := fillHole_returns heviction slot (statDec (setItemVec
      { t with pool := release t.pool (getItemOffset (t.itemVec slot)) } slot 0))
    exact ⟨t', bind_eq_ok.mpr ⟨some slot, hfind, bind_eq_ok.mpr ⟨t', hfill, rfl⟩⟩⟩

theorem increment_returns (hfind : t.Finds keyHash key keyLength slot) (increment : Nat) :
    ∃ result out t', t.increment keyHash key keyLength increment = .ok ((result, out), t') := by
  by_cases hstale : isCircularLog (CircularLog z) = true ∧
      ¬ isValid t.pool (getItemOffset (t.itemVec slot)) = true
  · exact ⟨.kError, none, t, bind_eq_ok.mpr ⟨some slot, hfind, if_pos hstale⟩⟩
  by_cases hlength :
      getValueLength (kvLengthVec t.pool (getItem t.pool (getItemOffset (t.itemVec slot)))) ≠ 8
  · exact ⟨.kError, none, t,
      bind_eq_ok.mpr ⟨some slot, hfind, (if_neg hstale).trans (if_pos hlength)⟩⟩
  · exact ⟨.kSuccess, _, _,
      bind_eq_ok.mpr ⟨some slot, hfind, (if_neg hstale).trans (if_neg hlength)⟩⟩

theorem increment_ne_kNotFound_iff {increment : Nat} :
    (∃ result out t', t.increment keyHash key keyLength increment = .ok ((result, out), t') ∧
      result ≠ .kNotFound) ↔ ∃ slot, t.Finds keyHash key keyLength slot := by
  constructor
  · rintro ⟨result, out, t', h, hresult⟩
    obtain ⟨-, rfl, -⟩ | ⟨slot, hfind, -⟩ := increment_eq_ok h
    · exact absurd rfl hresult
    · exact ⟨slot, hfind⟩
  · rintro ⟨_, hfind⟩
    obtain ⟨result, out, t', h⟩ := increment_returns hfind increment
    refine ⟨result, out, t', h, ?_⟩
    rintro rfl
    obtain ⟨hnone, -⟩ | ⟨-, -, ⟨-, hresult, -⟩ | ⟨-, -, hresult, -⟩⟩ := increment_eq_ok h
    · cases hnone.symm.trans hfind
    · cases hresult
    · cases hresult

theorem Finds.unique {slot' : Slot cfg} (hfind : t.Finds keyHash key keyLength slot)
    (hfind' : t.Finds keyHash key keyLength slot') : slot = slot' :=
  Option.some.inj (Except.ok.inj (hfind.symm.trans hfind'))

theorem increment_kSuccess_iff {increment : Nat} (hfind : t.Finds keyHash key keyLength slot)
    (height : getValueLength (kvLengthVec t.pool (t.pool.getItem (t.offsetAt slot))) = 8) :
    (∃ out t', t.increment keyHash key keyLength increment = .ok ((.kSuccess, out), t')) ↔
      t.pool.isValid (t.offsetAt slot) = true := by
  constructor
  · rintro ⟨out, t', h⟩
    obtain ⟨-, hresult, -⟩ | ⟨slot', hfind', ⟨-, hresult, -⟩ | ⟨hvalid, -⟩⟩ := increment_eq_ok h
    · cases hresult
    · cases hresult
    · obtain rfl := hfind.unique hfind'
      exact hvalid rfl
  · intro hvalid
    obtain ⟨_, out, t', h⟩ := increment_returns hfind increment
    obtain ⟨hnone, -⟩ | ⟨_, hfind', ⟨hstale | hlength, -⟩ | ⟨-, -, rfl, -⟩⟩ := increment_eq_ok h
    · cases hnone.symm.trans hfind
    · obtain rfl := hfind.unique hfind'
      exact absurd hvalid hstale.2
    · obtain rfl := hfind.unique hfind'
      exact absurd height hlength
    · exact ⟨out, t', h⟩

theorem getSucceeds_iff {outValue : Buffer} {inValueLength : Nat}
    (hroom : kMaxValueLength ≤ inValueLength) :
    t.GetSucceeds keyHash key keyLength outValue inValueLength ↔
      ∃ slot, t.Finds keyHash key keyLength slot ∧ t.pool.isValid (t.offsetAt slot) = true ∧
        getValueLength (kvLengthVec t.pool (t.pool.getItem (t.offsetAt slot))) ≤
          kMaxValueLength := by
  constructor
  · rintro ⟨_, _, h, hresult⟩
    obtain ⟨-, rfl, -⟩ | ⟨slot, hfind, ⟨-, rfl, -⟩ | ⟨hlength, hvalid, -⟩⟩ := get_eq_ok h
    · cases hresult
    · cases hresult
    · exact ⟨slot, hfind, hvalid, hlength⟩
  · rintro ⟨slot, hfind, hvalid, hlength⟩
    have hmin := Nat.min_eq_left (hlength.trans hroom)
    have hsound : ¬ (getValueLength (kvLengthVec t.pool (t.pool.getItem (t.offsetAt slot))) >
        kMaxValueLength ∨ ¬ t.pool.isValid (t.offsetAt slot) = true) := by
      rintro (hlong | hstale)
      · exact absurd hlength (Nat.not_le.mpr hlong)
      · exact hstale hvalid
    have hget : t.getAt slot keyLength outValue inValueLength false = _ := if_neg hsound
    exact ⟨_, t, bind_eq_ok.mpr ⟨some slot, hfind, hget⟩, if_neg fun hne => hne hmin.symm⟩

/-! ## Agreement -/

theorem Agree.findsValid (hagree : t.Agree keyHash key keyLength) :
    t.FindsValid keyHash key keyLength := by
  intro slot hfind
  obtain ⟨htfae, -⟩ := hagree key key kMaxValueLength 0 0 le_rfl
  have hget := (htfae.out 1 0).mp (test_iff.mpr ⟨slot, hfind⟩)
  obtain ⟨_, hfind', hvalid⟩ := (getSucceeds_iff le_rfl).mp hget
  obtain rfl := hfind.unique hfind'
  exact hvalid

/-- **The calls agree** on whether a key is there if and only if the item that is found is valid. -/
theorem agree_iff (heviction : cfg.kEviction = true) (t : LTable cfg (CircularLog z))
    (keyHash : Nat) (key : Buffer) (keyLength : Nat) :
    t.Agree keyHash key keyLength ↔ t.FindsValid keyHash key keyLength := by
  refine ⟨Agree.findsValid, ?_⟩
  · intro hfinds outValue _ inValueLength _ _ hroom
    have hget : t.GetSucceeds keyHash key keyLength outValue inValueLength ↔
        ∃ slot, t.Finds keyHash key keyLength slot :=
      (getSucceeds_iff hroom).trans ⟨fun ⟨slot, hfind, _⟩ => ⟨slot, hfind⟩,
          fun ⟨slot, hfind⟩ => ⟨slot, hfind, hfinds slot hfind⟩⟩
    constructor
    · tfae_have 1 ↔ 2 := hget.trans test_iff.symm
      tfae_have 2 ↔ 3 := test_iff.trans set_kExists_iff.symm
      tfae_have 2 ↔ 4 := test_iff.trans (del_kSuccess_iff heviction).symm
      tfae_have 2 ↔ 5 := test_iff.trans increment_ne_kNotFound_iff.symm
      tfae_finish
    · intro slot hfind height
      rw [hget, increment_kSuccess_iff hfind height]
      exact ⟨fun _ => (hfinds slot hfind).1, fun _ => ⟨slot, hfind⟩⟩

/-- They agree in a new table, where nothing is found. -/
theorem agree_create : (create oneBucket smallLog).Agree 1 (filled 1) 8 := by
  refine (agree_iff rfl _ _ _ _).mpr fun slot hfind => ?_
  have hnone : (create oneBucket smallLog).findItemIndex 0 1 (calcTag 1) (filled 1) 8 =
      .ok none := by decide +kernel
  cases hnone.symm.trans hfind

/-! ## New items -/

theorem memory_setNew {result : Result} (h : t.LogInv)
    (hrun : t.setNew slot overwriting keyHash key keyLength value valueLength = .ok (result, t'))
    (hkey : keyLength ≤ kMaxKeyLength) (hvalue : valueLength ≤ kMaxValueLength)
    (htail : t'.pool.tail < 2 ^ 48) {x : Nat}
    (hx : ∀ i < 8 + itemSize keyLength valueLength, (t.pool.tail + i) % z.size ≠ x) :
    t'.pool.memory x = t.pool.memory x := by
  obtain ⟨-, -, -, -, -, log, hmemory, hpool⟩ := h.setNew hrun hkey hvalue htail
  have hitem : ∀ i < itemSize keyLength valueLength,
      place log (log.getItem t.pool.tail + i) ≠ x := by
    intro i hi
    rw [show place log (log.getItem t.pool.tail + i) = _ from log.place_getItem t.pool.tail i,
      Nat.add_assoc]
    exact hx (8 + i) (by omega)
  have hheader : ∀ i < 8, t.pool.place ((t.pool.tail &&& t.pool.getMask) + i) ≠ x := by
    intro i _
    rw [CircularLog.place_header]
    exact hx i (by omega)
  calc t'.pool.memory x = memory (setItem log (log.getItem t.pool.tail) keyHash key keyLength value
          valueLength) x := by rw [hpool]; rfl
    _ = log.memory x :=
        (writes_setItem log _ keyHash key value (itemSpan_le_itemSize hkey hvalue)).kept x hitem
    _ = t.pool.memory x := by
        rw [hmemory]
        exact Memory.copy_of_ne hheader

theorem itemMatches_of_bytes {tag vec : Nat} (hbytes : ∀ i < kItemSize + roundup8 keyLength,
      bytes t'.pool (getItem t'.pool (getItemOffset vec)) i =
        bytes t.pool (getItem t.pool (getItemOffset vec)) i)
    (h : t.itemMatches keyHash tag key keyLength vec = true) :
    t'.itemMatches keyHash tag key keyLength vec = true := by
  have hload : ∀ d w, d + w ≤ kItemSize → load t'.pool (getItem t'.pool (getItemOffset vec) + d) w =
        load t.pool (getItem t.pool (getItemOffset vec) + d) w := by
    intro d w _
    refine Memory.load_congr fun i hi => ?_
    rw [Nat.add_assoc, Nat.add_assoc]
    exact hbytes (d + i) (by omega)
  unfold itemMatches at h ⊢
  simp only [Bool.and_eq_true, beq_iff_eq, compareKeys_iff] at h ⊢
  obtain ⟨⟨htag, hhash⟩, hlength, hkey⟩ := h
  have hlengths : kvLengthVec t'.pool (getItem t'.pool (getItemOffset vec)) =
      kvLengthVec t.pool (getItem t.pool (getItemOffset vec)) := hload 0 4 (by decide)
  rw [hlengths, hlength] at *
  refine ⟨⟨htag, (hload 8 8 (by decide)).trans hhash⟩, rfl, fun i hi => ?_⟩
  rw [bytes_add, hbytes _ (by omega), ← bytes_add]
  exact hkey i hi

theorem cleanupBucket_of_one (hone : cfg.numBuckets = 1) (t : LTable cfg (CircularLog z))
    (oldTail newTail : Nat) : t.cleanupBucket oldTail newTail = .ok t := by
  unfold cleanupBucket
  rw [hone, Nat.mod_one, Nat.mod_one]
  rfl

/-- **The end of `set` returns** in a table with one bucket, where nothing is swept. -/
theorem setNew_returns (hone : cfg.numBuckets = 1) {offset : Nat} {log : CircularLog z}
    (hallocate : t.pool.allocate (itemSize keyLength valueLength) = .ok (some offset, log))
    (slot : Slot cfg) (keyHash : Nat) (key value : Buffer) :
    ∃ t', t.setNew slot false keyHash key keyLength value valueLength = .ok (.kSuccess, t') ∧
      t'.pool.tail = log.tail ∧ ∀ slot', slot' ≠ slot → t'.itemVec slot' = t.itemVec slot' := by
  have htable : t.allocate (itemSize keyLength valueLength) = .ok (some offset, { t with
      pool := log
      allotted := Function.update t.allotted offset (itemSize keyLength valueLength) }) :=
    bind_eq_ok.mpr ⟨_, hallocate, rfl⟩
  refine ⟨_, bind_eq_ok.mpr ⟨_, htable, bind_eq_ok.mpr ⟨_, cleanupBucket_of_one hone _ _ _, rfl⟩⟩,
    ?_, fun slot' hne => ?_⟩
  · have hwrites := writes_setItem log (log.getItem offset) keyHash key value
      (Nat.le_refl (itemSpan keyLength valueLength))
    refine Eq.trans ?_ (tail_of_writes hwrites)
    exact congrArg CircularLog.tail ((Prunes.statInc _).pool.trans (pool_place _ slot _))
  · refine (itemVec_statInc _ _).trans ((itemVec_place _ slot _ slot').trans (if_neg hne))

end LTable

/-! ## A stale item

The log of `2 ^ 21` bytes takes three items: that of key 1 is at the positions 0 to 39, and the
third one ends at position `2 ^ 21 + 8`.  Its last bytes are written over the header of the first
item, which is stale then, but has its key still.
-/

/-- A table with one bucket, and the smallest log. -/
abbrev SmallTable : Type := LTable oneBucket (CircularLog ⟨21, smallLog_minimum, smallLog_maximum⟩)

def firstItem : Call := .set 1 (filled 1) 8 (filled 7) 8 false
def secondItem : Call := .set 2 (filled 2) 8 (filled 7) 1048568 false
def thirdItem : Call := .set 3 (filled 3) 8 (filled 7) 1048488 false

def slotAt (index : Fin 7) : Slot oneBucket := ⟨0, index⟩

/-- The first key is found in the first slot. -/
def storesFirst : Except Fault (List (Call × Output) × SmallTable) → Bool
  | .ok (_, t) => t.pool.tail == 40 && t.itemVec (slotAt 0) == makeItemVec (calcTag 1) 0 &&
    t.itemMatches 1 (calcTag 1) (filled 1) 8 (makeItemVec (calcTag 1) 0) &&
    decide (t.findItemIndex 0 2 (calcTag 2) (filled 2) 8 = .ok none)
  | .error _ => false

/-- Two items are in the log, and the next one goes to the third slot. -/
def storesTwo : Except Fault (List (Call × Output) × SmallTable) → Bool
  | .ok (_, t) => t.pool.head == 0 && t.pool.tail == 1048640 &&
    t.itemVec (slotAt 0) == makeItemVec (calcTag 1) 0 &&
    t.itemVec (slotAt 1) == makeItemVec (calcTag 2) 40 &&
    t.allotted 0 == 32 && t.allotted 40 == 1048592 &&
    decide (t.findItemIndex 0 3 (calcTag 3) (filled 3) 8 = .ok none) &&
    decide (t.findSameTag 0 (calcTag 3) = .ok none) &&
    decide (t.getEmptyOrOldest 0 = .ok (slotAt 2))
  | .error _ => false

theorem bounded_items {call : Call} (hmem : call ∈ [firstItem, secondItem, thirdItem]) :
    call.Bounded := by
  simp only [mem_cons, not_mem_nil, or_false] at hmem
  rcases hmem with rfl | rfl | rfl <;> exact ⟨by decide, by decide⟩

variable {t : SmallTable}

theorem intact_items {calls : List Call} {history : List (Call × Output)}
    (hmem : ∀ call ∈ calls, call ∈ [firstItem, secondItem, thirdItem])
    (htail : TailBelow oneBucket smallLog calls)
    (hrun : run oneBucket smallLog calls = .ok (history, t)) : t.Intact := by
  refine Intact.run (fun call h => bounded_items (hmem call h)) htail ?_ hrun
  intro _ call _ heq _ t _
  have hcall := hmem call (heq ▸ mem_append_right _ mem_cons_self)
  simp only [mem_cons, not_mem_nil, or_false] at hcall
  rcases hcall with rfl | rfl | rfl <;> trivial

theorem matchesFirst_of_setNew {t' : SmallTable} {slot : Slot oneBucket} {result : Result}
    {keyHash : Nat} {key : Buffer} (hinv : t.LogInv)
    (hrun : t.setNew slot false keyHash key 8 (filled 7) valueLength = .ok (result, t'))
    (hvalue : valueLength ≤ kMaxValueLength) (htail : t'.pool.tail < 2 ^ 48)
    (hfirst : 40 ≤ t.pool.tail) (hlast : t.pool.tail + 8 + itemSize 8 valueLength ≤ 2 ^ 21 + 8)
    (h : t.itemMatches 1 (calcTag 1) (filled 1) 8 (makeItemVec (calcTag 1) 0) = true) :
    t'.itemMatches 1 (calcTag 1) (filled 1) 8 (makeItemVec (calcTag 1) 0) = true := by
  refine itemMatches_of_bytes (fun i hi => ?_) h
  have hsize : LogSize.size ⟨21, smallLog_minimum, smallLog_maximum⟩ = 2097152 := rfl
  have hi : i < 24 := hi
  have hplace : ∀ log : CircularLog ⟨21, smallLog_minimum, smallLog_maximum⟩,
      log.place (log.getItem (getItemOffset (makeItemVec (calcTag 1) 0)) + i) = 8 + i := by
    intro _
    rw [CircularLog.place_getItem, getItemOffset_makeItemVec (by decide), hsize]
    omega
  have hbyte := memory_setNew hinv hrun (by decide) hvalue htail (fun j hj => by
    rw [hsize]
    show _ ≠ 8 + i
    omega)
  exact (congrArg t'.pool.memory (hplace t'.pool)).trans
    (hbyte.trans (congrArg t.pool.memory (hplace t.pool)).symm)

variable {outcome : Except Fault (List (Call × Output) × SmallTable)}

theorem ok_of_storesFirst (h : storesFirst outcome = true) :
    ∃ history t, outcome = .ok (history, t) ∧
      t.pool.tail = 40 ∧ t.itemVec (slotAt 0) = makeItemVec (calcTag 1) 0 ∧
      t.itemMatches 1 (calcTag 1) (filled 1) 8 (makeItemVec (calcTag 1) 0) = true ∧
      t.findItemIndex 0 2 (calcTag 2) (filled 2) 8 = .ok none := by
  cases outcome with
  | error => cases h
  | ok =>
    simp only [storesFirst, Bool.and_eq_true, beq_iff_eq, decide_eq_true_eq] at h
    exact ⟨_, _, rfl, h.1.1.1, h.1.1.2, h.1.2, h.2⟩

theorem ok_of_storesTwo (h : storesTwo outcome = true) : ∃ history t, outcome = .ok (history, t) ∧
      t.pool.head = 0 ∧ t.pool.tail = 1048640 ∧
      t.itemVec (slotAt 0) = makeItemVec (calcTag 1) 0 ∧
      t.itemVec (slotAt 1) = makeItemVec (calcTag 2) 40 ∧
      t.allotted 0 = 32 ∧ t.allotted 40 = 1048592 ∧
      t.findItemIndex 0 3 (calcTag 3) (filled 3) 8 = .ok none ∧
      t.findSameTag 0 (calcTag 3) = .ok none ∧ t.getEmptyOrOldest 0 = .ok (slotAt 2) := by
  cases outcome with
  | error => cases h
  | ok =>
    simp only [storesTwo, Bool.and_eq_true, beq_iff_eq, decide_eq_true_eq] at h
    obtain ⟨⟨⟨⟨⟨⟨⟨⟨hhead, htail⟩, hvec⟩, hvec'⟩, hsize⟩, hsize'⟩, hfind⟩, hsame⟩, hslot⟩ := h
    exact ⟨_, _, rfl, hhead, htail, hvec, hvec', hsize, hsize', hfind, hsame, hslot⟩

theorem headers_two (hintact : t.Intact) (htail : t.pool.tail = 1048640)
    (hvec : t.itemVec (slotAt 0) = makeItemVec (calcTag 1) 0)
    (hvec' : t.itemVec (slotAt 1) = makeItemVec (calcTag 2) 40) (hsize : t.allotted 0 = 32)
    (hsize' : t.allotted 40 = 1048592) : t.pool.Headers [(0, 32), (40, 1048592)] := by
  have hheader : ∀ slot offset n, t.itemVec slot ≠ 0 → t.offsetAt slot = offset →
      t.allotted offset = n → t.pool.itemSize offset = n + 8 := by
    rintro slot _ n hslot rfl rfl
    refine (hintact.stored slot hslot).header ?_
    unfold CircularLog.Fresh
    rw [htail]
    exact Nat.le_add_left_of_le (by decide)
  have hzero : t.pool.itemSize 0 = 40 := by
    refine hheader (slotAt 0) 0 32 ?_ ?_ hsize
    · rw [hvec]
      decide
    · rw [offsetAt, hvec]
      decide
  have hforty : t.pool.itemSize 40 = 1048600 := by
    refine hheader (slotAt 1) 40 1048592 ?_ ?_ hsize'
    · rw [hvec']
      decide
    · rw [offsetAt, hvec']
      decide
  intro _ hmem
  simp only [mem_cons, not_mem_nil, or_false] at hmem
  rcases hmem with rfl | rfl
  · exact hzero
  · exact hforty

/-- `test` finds a stale item, and `get` does not. -/
theorem test_finds_stale : oneBucket.kEviction = true ∧
    ∃ t : SmallTable, t.Reachable ∧ ¬ t.Agree 1 (filled 1) 8 := by
  have hfirst : storesFirst (run oneBucket smallLog [firstItem]) = true := by decide +kernel
  have htwo : storesTwo (run oneBucket smallLog [firstItem, secondItem]) = true := by
    decide +kernel
  obtain ⟨_, t₁, hrun₁, htail₁, -, hmatches₁, hfind₁⟩ := ok_of_storesFirst hfirst
  obtain ⟨history₂, t₂, hrun₂, hhead, htail₂, hvec, hvec', hsize, hsize', hfind₂, hsame, hslot⟩ :=
    ok_of_storesTwo htwo
  have hbelow : TailBelow oneBucket smallLog ([firstItem] ++ [secondItem]) :=
    tailBelow_of_inits (by decide +kernel)
  have hintact₁ : t₁.Intact := intact_items (by simp) hbelow.initial hrun₁
  have hintact₂ : t₂.Intact := intact_items (by simp) hbelow hrun₂
  -- the second item
  have hmatches₂ :
      t₂.itemMatches 1 (calcTag 1) (filled 1) 8 (makeItemVec (calcTag 1) 0) = true := by
    obtain ⟨_, t, _, hrun, hcall, -⟩ :=
      run_concat_eq_ok.mp (show run oneBucket smallLog ([firstItem] ++ [secondItem]) =
        _ from hrun₂)
    cases hrun₁.symm.trans hrun
    obtain ⟨⟨_, _⟩, hset, hcall⟩ := bind_eq_ok.mp hcall
    cases hcall
    obtain ⟨_, -, -, hnew⟩ := set_of_not_found rfl hset hfind₁
    refine matchesFirst_of_setNew hintact₁.toLogInv hnew (by decide) hintact₂.tail_lt ?_ ?_
      hmatches₁
    · rw [htail₁]
    · rw [htail₁]
      decide
  -- the third item
  have hheaders := headers_two hintact₂ htail₂ hvec hvec' hsize hsize'
  have hlive : CircularLog.Consecutive t₂.pool.head [(0, 32), (40, 1048592)] t₂.pool.tail := by
    rw [hhead, htail₂]
    exact ⟨rfl, rfl, rfl⟩
  have hroom : t₂.pool.tail + 8 + itemSize 8 1048488 +
      LogSize.size ⟨21, smallLog_minimum, smallLog_maximum⟩ <
      2 ^ 64 := by
    rw [htail₂]
    decide
  obtain ⟨-, -, -, _, hallocate, -⟩ := CircularLog.allocate_returns hlive hheaders (by decide) hroom
  obtain ⟨t₃, hnew, htail₃, hvecs⟩ :=
    setNew_returns rfl hallocate (slotAt 2) 3 (filled 3) (filled 7)
  have hset : t₂.set 3 (filled 3) 8 (filled 7) 1048488 false = .ok (.kSuccess, t₃) :=
    bind_eq_ok.mpr ⟨none, hfind₂, bind_eq_ok.mpr ⟨none, hsame, bind_eq_ok.mpr ⟨_, hslot, hnew⟩⟩⟩
  have hrun₃ : run oneBucket smallLog ([firstItem, secondItem] ++ [thirdItem]) = .ok
      (history₂ ++ [(thirdItem, .result .kSuccess)], t₃) :=
    run_concat_eq_ok.mpr ⟨history₂, t₂, _, hrun₂, bind_eq_ok.mpr ⟨_, hset, rfl⟩, rfl⟩
  have hend : t₃.pool.tail = 2097160 := by
    rw [htail₃]
    dsimp only
    rw [htail₂]
    decide
  have hmatches₃ :
      t₃.itemMatches 1 (calcTag 1) (filled 1) 8 (makeItemVec (calcTag 1) 0) = true := by
    refine matchesFirst_of_setNew hintact₂.toLogInv hnew (by decide) ?_ ?_ ?_ hmatches₂
    · rw [hend]
      decide
    · rw [htail₂]
      decide
    · rw [htail₂]
      decide
  have hvec₃ : t₃.itemVec (slotAt 0) = makeItemVec (calcTag 1) 0 :=
    (hvecs (slotAt 0) (by decide)).trans hvec
  -- the key is found in the first slot
  have hfinds : t₃.Finds 1 (filled 1) 8 (slotAt 0) := by
    have haccepts : t₃.itemMatches 1 (calcTag 1) (filled 1) 8 (t₃.itemVec (slotAt 0)) = true := by
      rw [hvec₃]
      exact hmatches₃
    have hfind : (List.finRange 7).find? (fun i =>
        t₃.itemMatches 1 (calcTag 1) (filled 1) 8 (t₃.itemVec (slotAt i))) = some 0 := by
      exact find?_cons_of_pos haccepts
    exact (lookup_of_eviction rfl).trans
      (congrArg (fun found => Except.ok (found.map slotAt)) hfind)
  refine ⟨rfl, t₃, ⟨smallLog, _, _, fun _ => bounded_items, hrun₃⟩, fun hagree => ?_⟩
  have hvalid := (hagree.findsValid (slotAt 0) hfinds).1
  rw [offsetAt, hvec₃, CircularLog.isValid, hend] at hvalid
  exact absurd hvalid (by decide)

end Testbed.Mica
