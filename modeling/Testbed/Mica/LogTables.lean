import Testbed.Mica.Logs
import Testbed.Mica.Slots

/-! # Tables over a circular log

An item owns the positions of the log from its offset on, and is intact as long as it is fresh,
which is what `is_valid` tells as long as fewer than `2 ^ 48` bytes were appended.

`LogInv` says that the items of a table own disjoint positions, and that the header of a fresh
item tells how many there are.  It is kept when something is written inside an item
(`LogInv.write`), when the log is appended to (`LogInv.allocate`), and when a slot takes the
new item (`LogInv.place`); the bytes of the other items that are still fresh stay (`Kept`).
-/
namespace Testbed.Mica

open Lib
open CircularLog

/-! ## The items of a table -/

namespace LTable
variable {cfg : TableConfig} {z : LogSize} {t t' : LTable cfg (CircularLog z)}

/-- The item at the offset: how much it owns, and what its header tells. -/
structure Stored (t : LTable cfg (CircularLog z)) (offset : Nat) : Prop where
  small : t.allotted offset < 2 ^ 20 + 512
  before_tail : offset + 8 + t.allotted offset ≤ t.pool.tail
  header : t.pool.Fresh offset → t.pool.itemSize offset = t.allotted offset + 8

variable {offset : Nat}

theorem Stored.congr (h : t.Stored offset) (hpool : t'.pool = t.pool)
    (hallotted : t'.allotted = t.allotted) : t'.Stored offset :=
  ⟨hallotted ▸ h.small, hallotted ▸ hpool ▸ h.before_tail, hallotted ▸ hpool ▸ h.header⟩

/-- The offset of the item in a slot. -/
def offsetAt (t : LTable cfg (CircularLog z)) (slot : Slot cfg) : Nat :=
  getItemOffset (t.itemVec slot)

/-- **The items own disjoint parts of the log**, and their headers are intact. -/
structure LogInv (t : LTable cfg (CircularLog z)) : Prop where
  tail_lt : t.pool.tail < 2 ^ 48
  stored : ∀ slot, t.itemVec slot ≠ 0 → t.Stored (t.offsetAt slot)
  apart : ∀ slot slot', slot ≠ slot' → t.itemVec slot ≠ 0 → t.itemVec slot' ≠ 0 →
    t.offsetAt slot + 8 + t.allotted (t.offsetAt slot) ≤ t.offsetAt slot' ∨
      t.offsetAt slot' + 8 + t.allotted (t.offsetAt slot') ≤ t.offsetAt slot

/-- The item at the offset is in `t'` what it is in `t`, unless it is no longer fresh. -/
structure Kept (t t' : LTable cfg (CircularLog z)) (offset : Nat) : Prop where
  allotted : t'.allotted offset = t.allotted offset
  fresh : t'.pool.Fresh offset → t.pool.Fresh offset
  header : t'.pool.Fresh offset → t'.pool.itemSize offset = t.pool.itemSize offset
  bytes : t'.pool.Fresh offset → ∀ i < t.allotted offset,
    Pool.bytes t'.pool (t'.pool.getItem offset) i = Pool.bytes t.pool (t.pool.getItem offset) i

theorem Kept.trans {t'' : LTable cfg (CircularLog z)} (h : t.Kept t' offset)
    (h' : t'.Kept t'' offset) : t.Kept t'' offset where
  allotted := h'.allotted.trans h.allotted
  fresh hfresh := h.fresh (h'.fresh hfresh)
  header hfresh := (h'.header hfresh).trans (h.header (h'.fresh hfresh))
  bytes hfresh i hi := (h'.bytes hfresh i (h.allotted.symm ▸ hi)).trans
    (h.bytes (h'.fresh hfresh) i hi)

theorem Kept.of_pool (hpool : t'.pool = t.pool) (hallotted : t'.allotted = t.allotted)
    (offset : Nat) : t.Kept t' offset where
  allotted := congrFun hallotted offset
  fresh hfresh := hpool ▸ hfresh
  header _ := by rw [hpool]
  bytes _ _ _ := by rw [hpool]

theorem Kept.stored (h : t.Kept t' offset) (hstored : t.Stored offset)
    (htail : t.pool.tail ≤ t'.pool.tail) : t'.Stored offset where
  small := h.allotted.symm ▸ hstored.small
  before_tail := h.allotted.symm ▸ hstored.before_tail.trans htail
  header hfresh := by
    rw [h.header hfresh, h.allotted]
    exact hstored.header (h.fresh hfresh)

namespace LogInv

theorem inherits (h : t.LogInv) (hinherits : t'.Inherits t) : t'.LogInv := by
  obtain ⟨hpool, hallotted, origin, hsame, hinj⟩ := hinherits
  have hoffset : ∀ slot, t'.itemVec slot ≠ 0 → t'.offsetAt slot = t.offsetAt (origin slot) :=
    fun slot hslot => congrArg getItemOffset (hsame slot hslot).symm
  refine ⟨hpool ▸ h.tail_lt, fun slot hslot => ?_, fun slot slot' hne hslot hslot' => ?_⟩
  · have hstored := h.stored (origin slot) (hsame slot hslot ▸ hslot)
    rw [hoffset slot hslot]
    exact hstored.congr hpool hallotted
  · rw [hoffset slot hslot, hoffset slot' hslot', hallotted]
    exact h.apart _ _ (fun heq => hne (hinj _ _ hslot hslot' heq)) (hsame slot hslot ▸ hslot)
      (hsame slot' hslot' ▸ hslot')

/-! ## Writes inside an item -/

section
variable {slot : Slot cfg} {log' : CircularLog z}

theorem memory_eq (hstored : t.Stored (t.offsetAt slot)) (hfresh : t.pool.Fresh (t.offsetAt slot))
    (hwrites : Pool.Writes t.pool log' (t.pool.getItem (t.offsetAt slot))
      (t.allotted (t.offsetAt slot))) {x : Nat} (hx : x < t.pool.tail)
    (hx' : t.pool.tail ≤ x + z.size)
    (hout : x < t.offsetAt slot + 8 ∨ t.offsetAt slot + 8 + t.allotted (t.offsetAt slot) ≤ x) :
    log'.memory (x % z.size) = t.pool.memory (x % z.size) := by
  refine hwrites.kept _ fun i hi => ?_
  have hbefore := hstored.before_tail
  have hplace : Pool.place t.pool (t.pool.getItem (t.offsetAt slot) + i) =
    (t.offsetAt slot + 8 + i) % z.size := t.pool.place_getItem _ i
  unfold Fresh at hfresh
  rw [hplace]
  exact place_ne t.pool (by omega) (by omega) hx hx' (by omega)

/-- **A write inside an item** keeps the items, and changes no other one. -/
theorem write (h : t.LogInv) (hslot : t.itemVec slot ≠ 0) (hfresh : t.pool.Fresh (t.offsetAt slot))
    (hwrites : Pool.Writes t.pool log' (t.pool.getItem (t.offsetAt slot))
      (t.allotted (t.offsetAt slot))) :
    LogInv { t with pool := log' } ∧ ∀ slot', slot' ≠ slot → t.itemVec slot' ≠ 0 →
      t.Kept { t with pool := log' } (t.offsetAt slot') := by
  have htail : log'.tail = t.pool.tail := by
    rw [hwrites.written]
    rfl
  have hfreshIff : ∀ offset, log'.Fresh offset ↔ t.pool.Fresh offset := fun offset => by
    rw [Fresh, Fresh, htail]
  have hmemory := fun x => memory_eq (x := x) (h.stored slot hslot) hfresh hwrites
  have hheader : ∀ slot', t.itemVec slot' ≠ 0 → t.pool.Fresh (t.offsetAt slot') →
      log'.itemSize (t.offsetAt slot') = t.pool.itemSize (t.offsetAt slot') := by
    intro slot' hslot' hfresh'
    refine itemSize_congr fun i hi => ?_
    have hbefore := (h.stored slot' hslot').before_tail
    unfold Fresh at hfresh'
    refine hmemory _ (by omega) (by omega) ?_
    by_cases heq : slot' = slot
    · rw [heq]
      omega
    · have hapart := h.apart slot' slot heq hslot' hslot
      omega
  have hkept : ∀ slot', slot' ≠ slot → t.itemVec slot' ≠ 0 →
      t.Kept { t with pool := log' } (t.offsetAt slot') := by
    intro slot' hne hslot'
    refine ⟨rfl, (hfreshIff _).mp, fun hnew => hheader slot' hslot' ((hfreshIff _).mp hnew),
      fun hnew i hi => ?_⟩
    have hbefore := (h.stored slot' hslot').before_tail
    have hapart := h.apart slot' slot hne hslot' hslot
    have hold := (hfreshIff _).mp hnew
    unfold Fresh at hold
    rw [bytes_getItem, bytes_getItem]
    exact hmemory _ (by omega) (by omega) (by omega)
  refine ⟨⟨htail ▸ h.tail_lt, fun slot' hslot' => ?_, h.apart⟩, hkept⟩
  have hstored := h.stored slot' hslot'
  refine ⟨hstored.small, htail ▸ hstored.before_tail, fun hnew => ?_⟩
  have hold := (hfreshIff _).mp hnew
  exact (hheader slot' hslot' hold).trans (hstored.header hold)

end

/-! ## Appended items -/

section
variable {n : Nat} {found : Option Nat}

theorem allocate_eq_ok (h : t.allocate n = .ok (found, t')) (htail : t.pool.tail < 2 ^ 48)
    (hn : n < 2 ^ 20 + 512) :
    found = some t.pool.tail ∧ t'.pool.tail = t.pool.tail + 8 + n ∧ t'.buckets = t.buckets ∧
      t'.allotted = Function.update t.allotted t.pool.tail n ∧
      t'.pool.memory = Memory.store t.pool.place t.pool.memory
        (t.pool.tail &&& t.pool.getMask) 8 (n + 8) := by
  obtain ⟨⟨_, _⟩, hallocate, h⟩ := bind_eq_ok.mp h
  obtain ⟨rfl, _, rfl⟩ := CircularLog.allocate_eq_ok hallocate
  cases h
  rw [Nat.mod_eq_of_lt htail]
  refine ⟨rfl, ?_, rfl, rfl, rfl⟩
  have hsum := Nat.mod_eq_of_lt (by omega)
  dsimp only
  omega

/-- **An allocation** keeps the items, and only makes some of them stale. -/
theorem allocate (h : t.LogInv) (hallocate : t.allocate n = .ok (found, t'))
    (hn : n < 2 ^ 20 + 512) (htail' : t'.pool.tail < 2 ^ 48) :
    t'.LogInv ∧ t'.Stored t.pool.tail ∧ (∀ slot, t'.itemVec slot = t.itemVec slot) ∧
      ∀ slot, t.itemVec slot ≠ 0 → t.Kept t' (t.offsetAt slot) := by
  obtain ⟨-, _, hbuckets, hallotted, hmemory⟩ := allocate_eq_ok hallocate h.tail_lt hn
  have hvec : ∀ slot, t'.itemVec slot = t.itemVec slot := fun slot => by
    rw [itemVec, itemVec, hbuckets]
  have hkept : ∀ slot, t.itemVec slot ≠ 0 → t.Kept t' (t.offsetAt slot) := by
    intro slot hslot
    have hbefore := (h.stored slot hslot).before_tail
    -- the new header is ahead of the item by less than a turn
    have hsame : t'.pool.Fresh (t.offsetAt slot) → ∀ x, t.offsetAt slot ≤ x → x < t.pool.tail →
        t'.pool.memory (x % z.size) = t.pool.memory (x % z.size) := by
      intro hfresh x hx hlt
      unfold Fresh at hfresh
      rw [hmemory]
      refine Memory.copy_of_ne fun j hj => ?_
      rw [place_header]
      exact (Memory.mod_ne_of_lt (by omega) (by omega)).symm
    refine ⟨?_, fun hfresh => ?_, fun hfresh => ?_, fun hfresh i hi => ?_⟩
    · rw [hallotted, Function.update_of_ne (by omega)]
    · unfold Fresh at hfresh ⊢
      omega
    · exact itemSize_congr fun i hi => hsame hfresh _ (by omega) (by omega)
    · rw [bytes_getItem, bytes_getItem]
      exact hsame hfresh _ (by omega) (by omega)
  refine ⟨⟨htail', fun slot hslot => ?_, fun slot slot' hne hslot hslot' => ?_⟩, ⟨?_, ?_, ?_⟩,
    hvec, hkept⟩
  · rw [hvec] at hslot
    rw [offsetAt, hvec]
    exact (hkept slot hslot).stored (h.stored slot hslot) (by omega)
  · rw [hvec] at hslot hslot'
    rw [offsetAt, offsetAt, hvec, hvec]
    have hslotKept := (hkept slot hslot).allotted
    have hslotKept' := (hkept slot' hslot').allotted
    unfold offsetAt at hslotKept hslotKept'
    rw [hslotKept, hslotKept']
    exact h.apart slot slot' hne hslot hslot'
  · rw [hallotted, Function.update_self]
    exact hn
  · rw [hallotted, Function.update_self]
    omega
  · intro _
    have hsize := z.le_size
    rw [hallotted, Function.update_self, CircularLog.itemSize, hmemory]
    refine (Memory.load_store (Memory.distinct_mod (by omega))).trans (Nat.mod_eq_of_lt ?_)
    omega

end

/-- **A slot takes the new item**, which is behind all others. -/
theorem place (h : t.LogInv) (tag : Nat) (slot : Slot cfg) (hoffset : offset < 2 ^ 48)
    (hstored : t.Stored offset) (hbehind : ∀ slot', t.itemVec slot' ≠ 0 →
      t.offsetAt slot' + 8 + t.allotted (t.offsetAt slot') ≤ offset) :
    LogInv (t.setItemVec slot (makeItemVec tag offset)) := by
  have hnew : (t.setItemVec slot (makeItemVec tag offset)).offsetAt slot = offset := by
    rw [offsetAt, itemVec_setItemVec_self, getItemOffset_makeItemVec hoffset]
  have hold : ∀ slot', slot' ≠ slot →
      (t.setItemVec slot (makeItemVec tag offset)).itemVec slot' = t.itemVec slot' :=
    fun slot' hne => t.itemVec_setItemVec_of_ne hne _
  have hoffsetAt : ∀ slot', slot' ≠ slot →
      (t.setItemVec slot (makeItemVec tag offset)).offsetAt slot' = t.offsetAt slot' :=
    fun slot' hne => congrArg getItemOffset (hold slot' hne)
  refine ⟨h.tail_lt, fun slot' hslot' => ?_, fun slot₁ slot₂ hne hslot₁ hslot₂ => ?_⟩
  · by_cases heq : slot' = slot
    · rw [heq, hnew]
      exact hstored.congr rfl rfl
    · rw [hoffsetAt slot' heq]
      exact (h.stored slot' (hold slot' heq ▸ hslot')).congr rfl rfl
  · by_cases heq₁ : slot₁ = slot
    · have heq₂ : slot₂ ≠ slot := fun heq₂ => hne (heq₁.trans heq₂.symm)
      rw [heq₁, hnew, hoffsetAt slot₂ heq₂]
      exact Or.inr (hbehind slot₂ (hold slot₂ heq₂ ▸ hslot₂))
    · by_cases heq₂ : slot₂ = slot
      · rw [heq₂, hnew, hoffsetAt slot₁ heq₁]
        exact Or.inl (hbehind slot₁ (hold slot₁ heq₁ ▸ hslot₁))
      · rw [hoffsetAt slot₁ heq₁, hoffsetAt slot₂ heq₂]
        exact h.apart slot₁ slot₂ hne (hold slot₁ heq₁ ▸ hslot₁) (hold slot₂ heq₂ ▸ hslot₂)

end LogInv

end LTable

end Testbed.Mica
