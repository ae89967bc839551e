import Testbed.Mica.Calls
import Testbed.Mica.LogTables

/-! # Calls of a table over a circular log

What each function of the table does to the items, for a log that fewer than `2 ^ 48` bytes
were appended to: it may change the item in one slot, and it keeps the others, or loses them
(`KeptExcept`).  A write in place must stay inside the item; everything else keeps `LogInv`.
-/
namespace Testbed.Mica

open Lib Pool

namespace LTable
variable {cfg : TableConfig} {z : LogSize} {t t' t'' : LTable cfg (CircularLog z)}

/-- Apart from one slot, items stay where they are, or are lost. -/
def KeptExcept (t t' : LTable cfg (CircularLog z)) (slot : Slot cfg) : Prop :=
  ∀ slot', slot' ≠ slot → t'.itemVec slot' ≠ 0 →
    t'.itemVec slot' = t.itemVec slot' ∧ t.Kept t' (t.offsetAt slot')

theorem Prunes.kept (h : t'.Prunes t) (offset : Nat) : t.Kept t' offset :=
  Kept.of_pool h.pool h.allotted offset

theorem Prunes.keptExcept (h : t'.Prunes t) (slot : Slot cfg) : t.KeptExcept t' slot :=
  fun slot' _ hslot' => ⟨h.slots slot' hslot', h.kept _⟩

theorem KeptExcept.prunes {slot : Slot cfg} (h : t.KeptExcept t' slot) (hprunes : t''.Prunes t') :
    t.KeptExcept t'' slot := by
  intro slot' hne hslot'
  have hsame := hprunes.slots slot' hslot'
  obtain ⟨hvec, hkept⟩ := h slot' hne (hsame ▸ hslot')
  exact ⟨hsame.trans hvec, hkept.trans (hprunes.kept _)⟩

/-- What the slot holds after `move_to_head`: the item that was there, or a copy of it. -/
def Moved (t t' : LTable cfg (CircularLog z)) (slot : Slot cfg) (size : Nat) : Prop :=
  (t'.itemVec slot = t.itemVec slot ∧ t.Kept t' (t.offsetAt slot)) ∨
    ∃ offset, offset < 2 ^ 48 ∧ t'.itemVec slot = makeItemVec (getTag (t.itemVec slot)) offset ∧
      t'.allotted offset = size ∧ t.pool.Fresh (t.offsetAt slot) ∧
      ∀ i < size, i < t.allotted (t.offsetAt slot) → bytes t'.pool (t'.pool.getItem offset) i =
          bytes t.pool (t.pool.getItem (t.offsetAt slot)) i

namespace LogInv
variable {slot : Slot cfg}

theorem prunes (h : t.LogInv) (hprunes : t'.Prunes t) : t'.LogInv := h.inherits hprunes.inherits

theorem itemVec_ne_zero_of_tag {vec : Nat} (h : 0 < getTag vec) : vec ≠ 0 := by
  rintro rfl
  exact absurd h (by decide)

theorem itemVec_ne_zero_of_calcTag {vec keyHash : Nat} (h : getTag vec = calcTag keyHash) :
    vec ≠ 0 :=
  itemVec_ne_zero_of_tag (h.symm ▸ calcTag_pos keyHash)

/-! ## New items -/

section NewItem
variable {n tag : Nat} {found : Option Nat} {t₁ t₂ : LTable cfg (CircularLog z)}
  {log' : CircularLog z}

/-- **A new item is appended and written**, and a slot takes it. -/
theorem append (h : t.LogInv) (hallocate : t.allocate n = .ok (found, t₁))
    (hn : n < 2 ^ 20 + 512) (htail : t₁.pool.tail < 2 ^ 48) (htag : 0 < tag)
    (hplace : t₂ = t₁.setItemVec slot (makeItemVec tag t.pool.tail))
    (hwrites : Writes t₁.pool log' (t₁.pool.getItem t.pool.tail) n) :
    LogInv { t₂ with pool := log' } ∧ t.KeptExcept { t₂ with pool := log' } slot := by
  obtain ⟨-, htail₁, -, hallotted, -⟩ := allocate_eq_ok hallocate h.tail_lt hn
  obtain ⟨hinv₁, hstored, hvec, hkept⟩ := h.allocate hallocate hn htail
  have hnew : t₂.allotted t.pool.tail = n := by
    rw [hplace]
    exact hallotted ▸ Function.update_self _ _ _
  have hpool : t₂.pool = t₁.pool := hplace ▸ rfl
  have hslot : t₂.itemVec slot = makeItemVec tag t.pool.tail := by
    rw [hplace, itemVec_setItemVec_self]
  have hothers : ∀ slot', slot' ≠ slot → t₂.itemVec slot' = t.itemVec slot' := by
    intro slot' hne
    rw [hplace, itemVec_setItemVec_of_ne _ hne, hvec]
  have hoffset : t₂.offsetAt slot = t.pool.tail := by
    rw [offsetAt, hslot, getItemOffset_makeItemVec h.tail_lt]
  -- the new item is behind the others, which were there before the allocation
  have hinv₂ : t₂.LogInv := by
    rw [hplace]
    refine hinv₁.place tag slot h.tail_lt hstored fun slot' hslot' => ?_
    rw [hvec] at hslot'
    have hsame : t₁.offsetAt slot' = t.offsetAt slot' := congrArg getItemOffset (hvec slot')
    rw [hsame, (hkept slot' hslot').allotted]
    exact (h.stored slot' hslot').before_tail
  have hfresh : t₂.pool.Fresh (t₂.offsetAt slot) := by
    have hsize := z.le_size
    rw [hoffset, hpool, CircularLog.Fresh]
    omega
  have hinside : Writes t₂.pool log' (t₂.pool.getItem (t₂.offsetAt slot))
      (t₂.allotted (t₂.offsetAt slot)) := by
    rw [hoffset, hnew, hpool]
    exact hwrites
  obtain ⟨hinv, hwrite⟩ :=
    hinv₂.write (hslot.symm ▸ makeItemVec_ne_zero htag h.tail_lt) hfresh hinside
  refine ⟨hinv, fun slot' hne hslot' => ?_⟩
  have hsame : t₂.itemVec slot' = t.itemVec slot' := hothers slot' hne
  have hkept₁ := hkept slot' (hsame ▸ hslot')
  have hkept₂ : t₁.Kept t₂ (t.offsetAt slot') := Kept.of_pool hpool (hplace ▸ rfl) _
  have hkept₃ := hwrite slot' hne hslot'
  rw [show t₂.offsetAt slot' = t.offsetAt slot' from congrArg getItemOffset hsame] at hkept₃
  exact ⟨hsame, (hkept₁.trans hkept₂).trans hkept₃⟩

variable {keyHash keyLength valueLength : Nat} {key value : Buffer} {overwriting : Bool}
  {result : Result}

/-- **The end of `set`**: the item in the slot is a new one. -/
theorem setNew (h : t.LogInv)
    (hrun : t.setNew slot overwriting keyHash key keyLength value valueLength = .ok (result, t'))
    (hkey : keyLength ≤ kMaxKeyLength) (hvalue : valueLength ≤ kMaxValueLength)
    (htail : t'.pool.tail < 2 ^ 48) :
    result = .kSuccess ∧ t'.LogInv ∧ t.KeptExcept t' slot ∧
      (t'.itemVec slot ≠ 0 → t'.itemVec slot = makeItemVec (calcTag keyHash) t.pool.tail) ∧
      t'.allotted t.pool.tail = itemSize keyLength valueLength ∧
      ∃ log : CircularLog z,
        log.memory = Memory.store t.pool.place t.pool.memory (t.pool.tail &&& t.pool.getMask) 8
          (itemSize keyLength valueLength + 8) ∧
        t'.pool =
          setItem log (log.getItem t.pool.tail) keyHash key keyLength value valueLength := by
  obtain ⟨⟨found, t₁⟩, hallocate, hrun⟩ := bind_eq_ok.mp hrun
  have hn := itemSize_lt hkey hvalue
  obtain ⟨rfl, -, -, hallotted, hmemory⟩ := allocate_eq_ok hallocate h.tail_lt hn
  obtain ⟨t₃, hclean, hrun⟩ := bind_eq_ok.mp hrun
  cases hrun
  -- the sweep and the statistics
  have hend : (LTable.statInc (if overwriting then
      { t₃ with pool := release t₃.pool (getItemOffset (t.itemVec slot)) } else t₃)).Prunes
        t₃ := by
    refine (Prunes.statInc _).trans ?_
    cases overwriting <;> exact Prunes.refl t₃
  have hcount : ∀ t₂ : LTable cfg (CircularLog z),
      (if t₂.itemVec slot ≠ 0 then t₂.statDec else t₂).Prunes t₂ := by
    intro t₂
    split
    · exact Prunes.statDec t₂
    · exact Prunes.refl t₂
  have hprunes := hend.trans ((Prunes.cleanupBucket hclean).trans ((hcount _).setItemVec slot _))
  have htail₁ : t₁.pool.tail < 2 ^ 48 := by
    rw [hprunes.pool] at htail
    exact htail
  obtain ⟨hinv, hkept⟩ := h.append hallocate hn htail₁ (calcTag_pos keyHash) rfl
    (writes_setItem t₁.pool (t₁.pool.getItem t.pool.tail) keyHash key value
      (itemSpan_le_itemSize hkey hvalue))
  refine ⟨rfl, hinv.prunes hprunes, hkept.prunes hprunes, fun hslot => ?_, ?_, t₁.pool,
    hmemory, hprunes.pool⟩
  · exact (hprunes.slots slot hslot).trans (itemVec_setItemVec_self _ _ _)
  · rw [hprunes.allotted]
    exact hallotted ▸ Function.update_self _ _ _

/-- **`move_to_head`** keeps the items. -/
theorem moveToHead (h : t.LogInv) (hrun : t.moveToHead slot keyLength valueLength = .ok t')
    (htag : 0 < getTag (t.itemVec slot))
    (hkey : keyLength ≤ kMaxKeyLength) (hvalue : valueLength ≤ kMaxValueLength)
    (htail : t'.pool.tail < 2 ^ 48) :
    t'.LogInv ∧ t.KeptExcept t' slot ∧
      (t'.itemVec slot ≠ 0 → Moved t t' slot (itemSize keyLength valueLength)) := by
  have hslot := itemVec_ne_zero_of_tag htag
  have hn := itemSize_lt hkey hvalue
  have hstay := (Prunes.refl t).keptExcept slot
  unfold LTable.moveToHead at hrun
  rw [if_pos (show isCircularLog (CircularLog z) = true from rfl)] at hrun
  dsimp only at hrun
  split at hrun
  · obtain ⟨⟨found, t₁⟩, hallocate, hrun⟩ := bind_eq_ok.mp hrun
    obtain ⟨rfl, htail₁, -, hallotted, -⟩ := allocate_eq_ok hallocate h.tail_lt hn
    have hprunes := Prunes.cleanupBucket hrun
    split at hprunes
    · rename_i hvalid
      have htail' : t₁.pool.tail < 2 ^ 48 := by
        rw [hprunes.pool] at htail
        exact htail
      have hkept := (h.allocate hallocate hn htail').2.2.2 slot hslot
      have hbefore := (h.stored slot hslot).before_tail
      have hfresh : t₁.pool.Fresh (t.offsetAt slot) :=
        (CircularLog.isValid_iff (by omega) htail').mp hvalid
      have hwrites := writes_memcpy8 t₁.pool (t₁.pool.getItem t.pool.tail)
        (bytes t₁.pool (t.pool.getItem (t.offsetAt slot))) (itemSize keyLength valueLength)
      rw [spanned_of_dvd (dvd_itemSize _ _)] at hwrites
      obtain ⟨hinv, hothers⟩ := h.append hallocate hn htail' htag rfl hwrites
      refine ⟨hinv.prunes hprunes, hothers.prunes hprunes, fun hslot' => Or.inr
        ⟨t.pool.tail, h.tail_lt, ?_, ?_, hkept.fresh hfresh, fun i hi hi' => ?_⟩⟩
      · exact (hprunes.slots slot hslot').trans (itemVec_setItemVec_self _ _ _)
      · rw [hprunes.allotted]
        exact hallotted ▸ Function.update_self _ _ _
      · rw [hprunes.pool, ← hkept.bytes hfresh i hi']
        have hsize := z.le_size
        have hdistinct := t₁.pool.distinct_getItem t.pool.tail (Nat.le_of_lt (hn.trans (by omega)))
        refine (bytes_memcpy8 (d := 0) hdistinct hi
          (by rw [Nat.zero_add]; exact spanned_le _)).trans (if_pos ?_)
        rw [spanned_of_dvd (dvd_itemSize _ _)]
        omega
    · have htail' := hprunes.pool ▸ htail
      obtain ⟨hinv, -, hvec, hkept⟩ := h.allocate hallocate hn htail'
      have hothers : t.KeptExcept t₁ slot := fun slot' _ hslot' =>
        ⟨hvec slot', hkept slot' (hvec slot' ▸ hslot')⟩
      refine ⟨hinv.prunes hprunes, hothers.prunes hprunes, fun hslot' => Or.inl ⟨?_, ?_⟩⟩
      · exact (hprunes.slots slot hslot').trans (hvec slot)
      · exact (hkept slot hslot).trans (hprunes.kept _)
  · cases hrun
    exact ⟨h, hstay, fun _ => Or.inl ⟨rfl, Kept.of_pool rfl rfl _⟩⟩

end NewItem

end LogInv

/-! ## The lengths of items -/

/-- The item at the offset has room for what its lengths tell. -/
def SizedAt (t : LTable cfg (CircularLog z)) (offset : Nat) : Prop :=
  ∃ keyLength valueLength, keyLength ≤ kMaxKeyLength ∧ valueLength ≤ kMaxValueLength ∧
    kvLengthVec t.pool (t.pool.getItem offset) = makeKvLengthVec keyLength valueLength ∧
    itemSpan keyLength valueLength ≤ t.allotted offset

/-- All items that are fresh have room for what their lengths tell. -/
def Sized (t : LTable cfg (CircularLog z)) : Prop :=
  ∀ slot, t.itemVec slot ≠ 0 → t.pool.Fresh (t.offsetAt slot) → t.SizedAt (t.offsetAt slot)

/-- An item that is kept, and still fresh, keeps its size. -/
theorem SizedAt.kept {offset : Nat} (h : t.SizedAt offset) (hkept : t.Kept t' offset)
    (hfresh : t'.pool.Fresh offset) : t'.SizedAt offset := by
  obtain ⟨keyLength, valueLength, hkey, hvalue, hlengths, hspan⟩ := h
  refine ⟨keyLength, valueLength, hkey, hvalue, Eq.trans ?_ hlengths, hkept.allotted.symm ▸ hspan⟩
  refine Memory.load_congr fun i hi => hkept.bytes hfresh i ?_
  unfold itemSpan kItemSize at hspan
  omega

namespace Sized

theorem inherits (h : t.Sized) (hinherits : t'.Inherits t) : t'.Sized := by
  obtain ⟨hpool, hallotted, origin, hsame, -⟩ := hinherits
  intro slot hslot hfresh
  have hvec := hsame slot hslot
  rw [offsetAt, ← hvec] at hfresh ⊢
  rw [hpool] at hfresh
  exact (h (origin slot) (hvec ▸ hslot) hfresh).kept (Kept.of_pool hpool hallotted _)
    (hpool ▸ hfresh)

theorem keptExcept {slot : Slot cfg} (h : t.Sized) (hkept : t.KeptExcept t' slot)
    (hslot : t'.itemVec slot ≠ 0 → t'.pool.Fresh (t'.offsetAt slot) →
      t'.SizedAt (t'.offsetAt slot)) : t'.Sized := by
  intro slot' hslot' hfresh
  by_cases heq : slot' = slot
  · rw [heq] at hslot' hfresh ⊢
    exact hslot hslot' hfresh
  · obtain ⟨hvec, hstay⟩ := hkept slot' heq hslot'
    have hoffset : t'.offsetAt slot' = t.offsetAt slot' := congrArg getItemOffset hvec
    rw [hoffset] at hfresh ⊢
    exact (h slot' (hvec ▸ hslot') (hstay.fresh hfresh)).kept hstay hfresh

end Sized

end LTable

end Testbed.Mica
