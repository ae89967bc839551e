import Testbed.Mica.Items

/-! # Slots

What the functions of `bucket.h` do to the slots of a table.  Most of them empty slots, or link
buckets, and leave the other items where they are (`Prunes`).  `fill_hole` moves an item: each
item of the new table is one of the old table, in a slot of its own (`Inherits`).
-/
namespace Testbed.Mica

open Lib Function

namespace LTable
variable {cfg : TableConfig} {P : Type}

/-! ## Elementary changes -/

section
variable (t : LTable cfg P)

theorem itemVec_setItemVec (slot slot' : Slot cfg) (vec : Nat) :
    (t.setItemVec slot vec).itemVec slot' = if slot' = slot then vec else t.itemVec slot' := by
  obtain ⟨b, i⟩ := slot
  obtain ⟨b', i'⟩ := slot'
  unfold itemVec setItemVec
  dsimp only
  by_cases hb : b' = b
  · subst hb
    rw [update_self]
    dsimp only
    by_cases hi : i' = i
    · rw [hi, update_self, if_pos rfl]
    · rw [update_of_ne hi, if_neg fun h => hi (congrArg Slot.index h)]
  · rw [update_of_ne hb, if_neg fun h => hb (congrArg Slot.bucket h)]

variable (slot : Slot cfg)

theorem itemVec_setItemVec_self (vec : Nat) : (t.setItemVec slot vec).itemVec slot = vec := by
  rw [itemVec_setItemVec, if_pos rfl]

theorem itemVec_setItemVec_of_ne {slot slot' : Slot cfg} (h : slot' ≠ slot) (vec : Nat) :
    (t.setItemVec slot vec).itemVec slot' = t.itemVec slot' := by
  rw [itemVec_setItemVec, if_neg h]

@[simp] theorem itemVec_setNext (b i : Nat) (slot : Slot cfg) :
    (t.setNext b i).itemVec slot = t.itemVec slot := by
  unfold itemVec setNext
  dsimp only
  by_cases hb : slot.bucket = b
  · rw [hb, update_self]
  · rw [update_of_ne hb]

@[simp] theorem itemVec_statDec : t.statDec.itemVec slot = t.itemVec slot := by
  unfold itemVec statDec
  split <;> dsimp only

@[simp] theorem itemVec_statInc : t.statInc.itemVec slot = t.itemVec slot := by
  unfold itemVec statInc
  split <;> dsimp only

@[simp] theorem pool_statDec : t.statDec.pool = t.pool := by
  unfold statDec
  split <;> dsimp only

@[simp] theorem pool_statInc : t.statInc.pool = t.pool := by
  unfold statInc
  split <;> dsimp only

@[simp] theorem allotted_statDec : t.statDec.allotted = t.allotted := by
  unfold statDec
  split <;> dsimp only

@[simp] theorem allotted_statInc : t.statInc.allotted = t.allotted := by
  unfold statInc
  split <;> dsimp only

end

/-! ## Items that stay -/

/-- Slots are emptied, and nothing else happens to items. -/
structure Prunes (t' t : LTable cfg P) : Prop where
  pool : t'.pool = t.pool
  allotted : t'.allotted = t.allotted
  slots : ∀ slot, t'.itemVec slot ≠ 0 → t'.itemVec slot = t.itemVec slot

namespace Prunes
variable {t t' t'' : LTable cfg P}

theorem refl (t : LTable cfg P) : t.Prunes t := ⟨rfl, rfl, fun _ _ => rfl⟩

theorem trans (h' : t''.Prunes t') (h : t'.Prunes t) : t''.Prunes t := by
  refine ⟨h'.pool.trans h.pool, h'.allotted.trans h.allotted, fun slot hslot => ?_⟩
  have hsame := h'.slots slot hslot
  exact hsame.trans (h.slots slot (hsame ▸ hslot))

variable (t)

theorem statDec : t.statDec.Prunes t :=
  ⟨t.pool_statDec, t.allotted_statDec, fun slot _ => t.itemVec_statDec slot⟩

theorem statInc : t.statInc.Prunes t :=
  ⟨t.pool_statInc, t.allotted_statInc, fun slot _ => t.itemVec_statInc slot⟩

theorem clear (slot : Slot cfg) : (t.setItemVec slot 0).Prunes t := by
  refine ⟨rfl, rfl, fun slot' hslot' => ?_⟩
  by_cases heq : slot' = slot
  · rw [heq, itemVec_setItemVec_self] at hslot'
    exact absurd rfl hslot'
  · exact t.itemVec_setItemVec_of_ne heq 0

variable {t} in
theorem setItemVec (h : t'.Prunes t) (slot : Slot cfg) (vec : Nat) :
    (t'.setItemVec slot vec).Prunes (t.setItemVec slot vec) := by
  refine ⟨h.pool, h.allotted, fun slot' hslot' => ?_⟩
  rw [itemVec_setItemVec] at hslot' ⊢
  rw [itemVec_setItemVec]
  split
  · rfl
  · rename_i hne
    rw [if_neg hne] at hslot'
    exact h.slots slot' hslot'

theorem freeExtraBucket (b : Nat) : (t.freeExtraBucket b).Prunes t :=
  ⟨rfl, rfl, fun slot _ => (itemVec_setNext _ _ _ slot).trans (itemVec_setNext _ _ _ slot)⟩

variable {t} {b : Nat}

theorem allocExtraBucket (h : t.allocExtraBucket b = some t') : t'.Prunes t := by
  unfold LTable.allocExtraBucket at h
  dsimp only at h
  split at h
  · cases h
  · cases h
    exact ⟨rfl, rfl, fun slot _ => (itemVec_setNext _ _ _ slot).trans (itemVec_setNext _ _ _ slot)⟩

/-- `get_empty` writes no item. -/
theorem getEmpty {found : Option (Slot cfg)} (h : t.getEmpty b = .ok (found, t')) :
    t'.Prunes t := by
  obtain ⟨⟨last, index⟩, -, h⟩ := bind_eq_ok.mp h
  cases index with
  | some =>
    cases h
    exact refl t
  | none =>
    dsimp only at h
    split at h
    · rename_i t₁ halloc
      cases h
      exact allocExtraBucket halloc
    · cases h
      exact refl t

variable [Pool P]

theorem cleanSlot (t : LTable cfg P) (slot : Slot cfg) : (t.cleanSlot slot).Prunes t := by
  unfold LTable.cleanSlot
  split
  · exact (statDec _).trans (clear t slot)
  · exact refl t

theorem cleanSlots (b : Nat) (indices : List (Fin cfg.kBucketSize)) (t : LTable cfg P) :
    (indices.foldl (fun t i => t.cleanSlot ⟨b, i⟩) t).Prunes t := by
  induction indices generalizing t with
  | nil => exact refl t
  | cons i _ ih => exact (ih _).trans (cleanSlot t ⟨b, i⟩)

variable {fuel : Nat}

theorem cleanChain (h : LTable.cleanChain fuel b t = .ok t') : t'.Prunes t := by
  induction fuel generalizing t b with
  | zero => cases h
  | succ _ ih =>
    rw [LTable.cleanChain] at h
    split at h
    · exact (ih h).trans (cleanSlots b _ t)
    · cases h
      exact cleanSlots b _ t

theorem cleanLoop {last : Nat} (h : LTable.cleanLoop last fuel b t = .ok t') : t'.Prunes t := by
  induction fuel generalizing t b with
  | zero => cases h
  | succ _ ih =>
    rw [LTable.cleanLoop] at h
    split at h
    · cases h
      exact refl _
    · obtain ⟨_, hchain, h⟩ := bind_eq_ok.mp h
      exact (ih h).trans (cleanChain hchain)

/-- The cleanup empties slots, and writes none. -/
theorem cleanupBucket {oldTail newTail : Nat} (h : t.cleanupBucket oldTail newTail = .ok t') :
    t'.Prunes t :=
  cleanLoop h

end Prunes

/-- Each item of `t'` is one of `t`, in a slot of its own. -/
structure Inherits (t' t : LTable cfg P) : Prop where
  pool : t'.pool = t.pool
  allotted : t'.allotted = t.allotted
  slots : ∃ origin : Slot cfg → Slot cfg,
    (∀ slot, t'.itemVec slot ≠ 0 → t.itemVec (origin slot) = t'.itemVec slot) ∧
    ∀ slot slot', t'.itemVec slot ≠ 0 → t'.itemVec slot' ≠ 0 → origin slot = origin slot' →
      slot = slot'

theorem Prunes.inherits {t t' : LTable cfg P} (h : t'.Prunes t) : t'.Inherits t :=
  ⟨h.pool, h.allotted, id, fun slot hslot => (h.slots slot hslot).symm, fun _ _ _ _ heq => heq⟩

namespace Inherits
variable {t t' t'' : LTable cfg P}

theorem trans (h' : t''.Inherits t') (h : t'.Inherits t) : t''.Inherits t := by
  obtain ⟨origin', hsame', hinj'⟩ := h'.slots
  obtain ⟨origin, hsame, hinj⟩ := h.slots
  refine ⟨h'.pool.trans h.pool, h'.allotted.trans h.allotted, origin ∘ origin',
    fun slot hslot => ?_, fun slot slot' hslot hslot' heq => ?_⟩
  · have hvec := hsame' slot hslot
    exact (hsame _ (hvec.symm ▸ hslot)).trans hvec
  · have hvec := hsame' slot hslot
    have hvec' := hsame' slot' hslot'
    exact hinj' slot slot' hslot hslot' (hinj _ _ (hvec.symm ▸ hslot) (hvec'.symm ▸ hslot') heq)

theorem move (t : LTable cfg P) (slot slot' : Slot cfg) :
    ((t.setItemVec slot (t.itemVec slot')).setItemVec slot' 0).Inherits t := by
  refine ⟨rfl, rfl, fun s => if s = slot then slot' else s, fun s hs => ?_, ?_⟩
  · by_cases hs' : s = slot'
    · rw [hs', itemVec_setItemVec_self] at hs
      exact absurd rfl hs
    · rw [itemVec_setItemVec_of_ne _ hs', itemVec_setItemVec]
      dsimp only
      split <;> rfl
  · intro s₁ s₂ hs₁ hs₂ heq
    have hne : ∀ s, ((t.setItemVec slot (t.itemVec slot')).setItemVec slot' 0).itemVec s ≠ 0 →
        s ≠ slot' := by
      rintro s hs rfl
      exact hs (itemVec_setItemVec_self _ _ _)
    dsimp only at heq
    split at heq <;> split at heq
    · rename_i h₁ h₂
      rw [h₁, h₂]
    · exact absurd heq.symm (hne s₂ hs₂)
    · exact absurd heq (hne s₁ hs₁)
    · exact heq

/-- `fill_hole` moves an item, and makes none. -/
theorem fillHole {slot : Slot cfg} (h : LTable.fillHole slot fuel t = .ok t') : t'.Inherits t := by
  induction fuel generalizing t with
  | zero => cases h
  | succ _ ih =>
    rw [LTable.fillHole] at h
    split at h
    · obtain ⟨⟨prev, _⟩, -, h⟩ := bind_eq_ok.mp h
      dsimp only at h
      split at h
      · exact (ih h).trans (Prunes.freeExtraBucket t prev).inherits
      · cases h
        split
        · exact (Prunes.freeExtraBucket _ prev).inherits.trans (move t slot _)
        · exact move t slot _
    · cases h
      exact (Prunes.refl _).inherits

end Inherits

/-! ## Slots that are found -/

section
variable {t : LTable cfg P} {accepts : Nat → Bool} {b : Nat} {slot : Slot cfg}

theorem search_accepts {located : Nat} {i : Fin cfg.kBucketSize}
    (h : t.search accepts fuel b = .ok (located, some i)) :
    accepts (t.itemVec ⟨located, i⟩) = true := by
  induction fuel generalizing b with
  | zero => cases h
  | succ fuel ih =>
    rw [search] at h
    split at h
    · rename_i j hfind
      cases h
      exact List.find?_some (p := fun i => accepts (t.itemVec ⟨located, i⟩)) hfind
    · split at h
      · exact ih h
      · cases h

theorem lookup_accepts (h : t.lookup accepts b = .ok (some slot)) :
    accepts (t.itemVec slot) = true := by
  obtain ⟨⟨_, index⟩, hsearch, h⟩ := bind_eq_ok.mp h
  cases index with
  | none => cases h
  | some =>
    cases h
    exact search_accepts hsearch

variable [Pool P]

/-- **The slot that is found** has the tag, and its item has the key. -/
theorem findItemIndex_eq_some {keyHash tag keyLength : Nat} {key : Buffer}
    (h : t.findItemIndex b keyHash tag key keyLength = .ok (some slot)) :
    let item := Pool.getItem t.pool (getItemOffset (t.itemVec slot))
    getTag (t.itemVec slot) = tag ∧ itemKeyHash t.pool item = keyHash ∧
      getKeyLength (kvLengthVec t.pool item) = keyLength ∧
      ∀ i < roundup8 keyLength, Pool.bytes t.pool (item + kItemSize) i = key i := by
  have hmatches := lookup_accepts h
  unfold itemMatches at hmatches
  simp only [Bool.and_eq_true, beq_iff_eq, compareKeys_iff, and_assoc] at hmatches
  exact hmatches

end

end LTable

end Testbed.Mica
