import Testbed.Mica.LogCalls

/-! # Runs of a table over a circular log

`item->size` of the log counts the header of eight bytes, and `set` compares it with the size of
the new item, which has none.  So an item may be overwritten in place that lacks eight bytes.
As long as this does not happen (`FitsItem`), the items stay intact: this is kept by every call
(`Intact.call`) and holds in every state of a run in which fewer than `2 ^ 48` bytes are
appended.
-/
namespace Testbed.Mica

open Lib Pool

namespace LTable
variable {cfg : TableConfig} {z : LogSize} {t t' : LTable cfg (CircularLog z)}

/-- The items own disjoint parts of the log, and have room for what their lengths tell. -/
structure Intact (t : LTable cfg (CircularLog z)) : Prop extends LogInv t where
  sized : t.Sized

/-- If the call overwrites an item in place, the new item fits in what follows the header. -/
def FitsItem (t : LTable cfg (CircularLog z)) : Call → Prop
  | .set keyHash key keyLength _ valueLength true =>
    ∀ slot, t.findItemIndex (cfg.calcBucketIndex keyHash) keyHash (calcTag keyHash) key keyLength =
        .ok (some slot) →
      t.fitsInPlace (t.offsetAt slot) (itemSize keyLength valueLength) = true →
      CircularLog.kHeaderSize + itemSpan keyLength valueLength ≤ t.pool.itemSize (t.offsetAt slot)
  | _ => True

/-! ## Writes in place -/

namespace Intact
variable {slot : Slot cfg} {keyHash keyLength valueLength : Nat} {key value : Buffer}

theorem prunes (h : t.Intact) (hprunes : t'.Prunes t) : t'.Intact :=
  ⟨h.toLogInv.prunes hprunes, h.sized.inherits hprunes.inherits⟩

theorem fresh_of_isValid (h : t.Intact) (hslot : t.itemVec slot ≠ 0)
    (hvalid : isValid t.pool (t.offsetAt slot) = true) : t.pool.Fresh (t.offsetAt slot) := by
  have hbefore := (h.stored slot hslot).before_tail
  exact (CircularLog.isValid_iff (by omega) h.tail_lt).mp hvalid

theorem span_le_of_writes {offset : Nat} (hsized : t.SizedAt offset)
    (h : ∀ address, SetItemValueWrites t.pool (t.pool.getItem offset) valueLength address →
      t.pool.getItem offset ≤ address ∧ address < t.pool.getItem offset + t.allotted offset) :
    itemSpan (getKeyLength (kvLengthVec t.pool (t.pool.getItem offset))) valueLength ≤
      t.allotted offset := by
  obtain ⟨k, v, hk, hv, hlengths, hspan⟩ := hsized
  have hkey := (lengths_makeKvLengthVec hk hv hlengths).1
  rw [hkey]
  rcases Nat.eq_zero_or_pos (spanned valueLength) with _ | _
  · -- no byte of the value is written
    unfold itemSpan at hspan ⊢
    omega
  · have hlast := (h (t.pool.getItem offset + kItemSize + roundup8 k + (spanned valueLength - 1))
      (.inr (by rw [hkey]; omega))).2
    unfold itemSpan
    omega

/-- **A write in place is inside the item if and only if the item fits** behind the header. -/
theorem inside_iff_fits (h : t.Intact) (call : Call) : t.Inside call ↔ t.FitsItem call := by
  cases call with
  | set keyHash _ keyLength _ valueLength overwrite =>
    cases overwrite with
    | false => exact Iff.rfl
    | true =>
      refine forall_congr' fun slot => forall_congr' fun hfind => forall_congr' fun hfits => ?_
      obtain ⟨htag, -, hkey, -⟩ := findItemIndex_eq_some hfind
      have hslot := LogInv.itemVec_ne_zero_of_calcTag htag
      have hfresh := h.fresh_of_isValid hslot (Bool.and_eq_true _ _ ▸ hfits).1
      rw [(h.stored slot hslot).header hfresh]
      constructor
      · intro hinside
        have hspan := span_le_of_writes (h.sized slot hslot hfresh) hinside
        rw [show getKeyLength (kvLengthVec t.pool (t.pool.getItem (t.offsetAt slot))) = keyLength
          from hkey] at hspan
        unfold CircularLog.kHeaderSize
        omega
      · intro hspan _ _ hwrites
        unfold CircularLog.kHeaderSize at hspan
        exact hwrites.inside (hkey ▸ (by omega : itemSpan keyLength valueLength ≤
          t.allotted (t.offsetAt slot)))
  | get | test | increment | del | reset => exact Iff.rfl

theorem write {log' : CircularLog z} (h : t.Intact) (hslot : t.itemVec slot ≠ 0)
    (hfresh : t.pool.Fresh (t.offsetAt slot))
    (hwrites : Writes t.pool log' (t.pool.getItem (t.offsetAt slot)) (t.allotted (t.offsetAt slot)))
    (hsized : SizedAt { t with pool := log' } (t.offsetAt slot)) :
    Intact { t with pool := log' } ∧ t.KeptExcept { t with pool := log' } slot := by
  obtain ⟨hinv, hothers⟩ := h.toLogInv.write hslot hfresh hwrites
  have hkept : t.KeptExcept { t with pool := log' } slot :=
    fun slot' hne hslot' => ⟨rfl, hothers slot' hne hslot'⟩
  exact ⟨⟨hinv, h.sized.keptExcept hkept fun _ _ => hsized⟩, hkept⟩

theorem size_lt (h : t.Intact) (hslot : t.itemVec slot ≠ 0) :
    t.allotted (t.offsetAt slot) ≤ z.size := by
  have hsmall := (h.stored slot hslot).small
  have hsize := z.le_size
  omega

/-- **`set_item_value`** inside an item. -/
theorem setItemValue (h : t.Intact) (hslot : t.itemVec slot ≠ 0)
    (hfresh : t.pool.Fresh (t.offsetAt slot)) (hvalue : valueLength ≤ kMaxValueLength)
    (hspan : itemSpan (getKeyLength (kvLengthVec t.pool (t.pool.getItem (t.offsetAt slot))))
      valueLength ≤ t.allotted (t.offsetAt slot)) (value : Buffer) :
    Intact { t with
      pool := Mica.setItemValue t.pool (t.pool.getItem (t.offsetAt slot)) value valueLength } ∧
    t.KeptExcept { t with
      pool := Mica.setItemValue t.pool (t.pool.getItem (t.offsetAt slot)) value valueLength }
      slot := by
  obtain ⟨k, v, hk, hv, hlengths, -⟩ := h.sized slot hslot hfresh
  have hkey := (lengths_makeKvLengthVec hk hv hlengths).1
  refine h.write hslot hfresh (writes_setItemValue t.pool _ value hspan)
    ⟨k, valueLength, hk, hvalue, ?_, hkey ▸ hspan⟩
  exact kvLengthVec_setItemValue (t.pool.distinct_getItem (t.offsetAt slot) (h.size_lt hslot))
    hkey (hkey ▸ hspan) value

theorem storeValue (h : t.Intact) (hslot : t.itemVec slot ≠ 0)
    (hfresh : t.pool.Fresh (t.offsetAt slot))
    (hkey : getKeyLength (kvLengthVec t.pool (t.pool.getItem (t.offsetAt slot))) = keyLength)
    (hvalue : getValueLength (kvLengthVec t.pool (t.pool.getItem (t.offsetAt slot))) = 8)
    (x : Nat) :
    Intact { t with
      pool := store t.pool
        (t.pool.getItem (t.offsetAt slot) + kItemSize + roundup8 keyLength) 8 x } ∧
    t.KeptExcept { t with
      pool := store t.pool
        (t.pool.getItem (t.offsetAt slot) + kItemSize + roundup8 keyLength) 8 x } slot := by
  obtain ⟨k, v, hk, hv, hlengths, hspan⟩ := h.sized slot hslot hfresh
  obtain ⟨hk', hv'⟩ := lengths_makeKvLengthVec hk hv hlengths
  obtain rfl : k = keyLength := hk'.symm.trans hkey
  obtain rfl : v = 8 := hv'.symm.trans hvalue
  have hwrites := writes_store t.pool
    (t.pool.getItem (t.offsetAt slot) + kItemSize + roundup8 k) 8 x
  rw [Nat.add_assoc (t.pool.getItem _)] at hwrites ⊢
  refine h.write hslot hfresh (hwrites.within hspan) ⟨k, 8, hk, hv, Eq.trans ?_ hlengths, hspan⟩
  refine Writes.load_apart hwrites fun i hi j hj heq => ?_
  have hdistinct := t.pool.distinct_getItem (t.offsetAt slot) (h.size_lt hslot)
  rw [Nat.add_assoc (t.pool.getItem _)] at heq
  have hroom : kItemSize + roundup8 k + 8 ≤ t.allotted (t.offsetAt slot) := hspan
  unfold kItemSize at hroom heq
  have hij := hdistinct (16 + roundup8 k + i) (by omega) j (by omega) heq
  omega

/-! ## New items -/

variable {overwriting : Bool} {result : Result}

theorem setNew (h : t.Intact)
    (hrun : t.setNew slot overwriting keyHash key keyLength value valueLength = .ok (result, t'))
    (hkey : keyLength ≤ kMaxKeyLength) (hvalue : valueLength ≤ kMaxValueLength)
    (htail : t'.pool.tail < 2 ^ 48) : t'.Intact := by
  obtain ⟨-, hinv, hkept, hvec, hallotted, log, -, hpool⟩ :=
    h.toLogInv.setNew hrun hkey hvalue htail
  refine ⟨hinv, h.sized.keptExcept hkept fun hslot _ => ?_⟩
  have hoffset : t'.offsetAt slot = t.pool.tail := by
    rw [offsetAt, hvec hslot, getItemOffset_makeItemVec h.tail_lt]
  have hsize := z.le_size
  have hn := itemSize_lt hkey hvalue
  rw [hoffset]
  refine ⟨keyLength, valueLength, hkey, hvalue, ?_, ?_⟩
  · rw [hpool]
    exact kvLengthVec_setItem (log.distinct_getItem t.pool.tail (by omega))
      (itemSpan_le_itemSize hkey hvalue) keyHash key value
  · rw [hallotted]
    exact itemSpan_le_itemSize hkey hvalue

theorem moveToHead (h : t.Intact) (hrun : t.moveToHead slot keyLength valueLength = .ok t')
    (htag : 0 < getTag (t.itemVec slot))
    (hlengths : kvLengthVec t.pool (t.pool.getItem (t.offsetAt slot)) =
      makeKvLengthVec keyLength valueLength)
    (hkey : keyLength ≤ kMaxKeyLength) (hvalue : valueLength ≤ kMaxValueLength)
    (htail : t'.pool.tail < 2 ^ 48) : t'.Intact := by
  have hslot := LogInv.itemVec_ne_zero_of_tag htag
  obtain ⟨hinv, hkept, hmoved⟩ := h.toLogInv.moveToHead hrun htag hkey hvalue htail
  refine ⟨hinv, h.sized.keptExcept hkept fun hslot' hfresh => ?_⟩
  rcases hmoved hslot' with ⟨hvec, hstay⟩ | ⟨offset, hlt, hvec, hallotted, hold, hbytes⟩
  · have hoffset : t'.offsetAt slot = t.offsetAt slot := congrArg getItemOffset hvec
    rw [hoffset] at hfresh ⊢
    exact (h.sized slot hslot (hstay.fresh hfresh)).kept hstay hfresh
  · have hoffset : t'.offsetAt slot = offset := by
      rw [offsetAt, hvec, getItemOffset_makeItemVec hlt]
    have hspan := itemSpan_le_itemSize hkey hvalue
    obtain ⟨_, _, -, -, -, _⟩ := h.sized slot hslot hold
    rw [hoffset]
    refine ⟨keyLength, valueLength, hkey, hvalue, Eq.trans ?_ hlengths, hallotted.symm ▸ hspan⟩
    refine Memory.load_congr fun i hi => hbytes i ?_ ?_
    all_goals
      unfold itemSpan kItemSize at *
      omega

/-! ## Calls -/

theorem isValid_of_fitsInPlace {offset size : Nat} (h : t.fitsInPlace offset size = true) :
    isValid t.pool offset = true := (Bool.and_eq_true _ _ ▸ h).1

theorem set {overwrite : Bool} (h : t.Intact)
    (hrun : t.set keyHash key keyLength value valueLength overwrite = .ok (result, t'))
    (hkey : keyLength ≤ kMaxKeyLength) (hvalue : valueLength ≤ kMaxValueLength)
    (hinside : t.Inside (.set keyHash key keyLength value valueLength overwrite))
    (htail : t'.pool.tail < 2 ^ 48) : t'.Intact := by
  obtain ⟨slot, hfind, hfound⟩ | ⟨-, hnew⟩ := set_eq_ok hrun
  · obtain ⟨-, -, rfl⟩ | ⟨rfl, hset⟩ := hfound
    · exact h
    · unfold setAt at hset
      dsimp only at hset
      split at hset
      · rename_i hfits
        cases hset
        rw [Bool.true_and] at hfits
        obtain ⟨htag, -⟩ := findItemIndex_eq_some hfind
        have hslot := LogInv.itemVec_ne_zero_of_calcTag htag
        have hfresh := h.fresh_of_isValid hslot (isValid_of_fitsInPlace hfits)
        have hspan := span_le_of_writes (h.sized slot hslot hfresh) (hinside slot hfind hfits)
        exact (h.setItemValue hslot hfresh hvalue hspan value).1
      · exact h.setNew hset hkey hvalue htail
  · obtain ⟨-, hprunes⟩ | ⟨_, _, hprunes, hset⟩ := hnew
    · exact h.prunes hprunes
    · exact (h.prunes hprunes).setNew hset hkey hvalue htail

theorem kvLengthVec_eq (h : t.Intact) (hslot : t.itemVec slot ≠ 0)
    (hfresh : t.pool.Fresh (t.offsetAt slot))
    (hkey : getKeyLength (kvLengthVec t.pool (t.pool.getItem (t.offsetAt slot))) = keyLength)
    (hvalue : getValueLength (kvLengthVec t.pool (t.pool.getItem (t.offsetAt slot))) =
      valueLength) :
    kvLengthVec t.pool (t.pool.getItem (t.offsetAt slot)) =
      makeKvLengthVec keyLength valueLength := by
  obtain ⟨k, v, hk, hv, hlengths, -⟩ := h.sized slot hslot hfresh
  obtain ⟨hk', hv'⟩ := lengths_makeKvLengthVec hk hv hlengths
  rw [hlengths, ← hk', ← hv', hkey, hvalue]

theorem get {outValue : Buffer} {inValueLength : Nat} {allowMutation : Bool} {output : GetOutput}
    (h : t.Intact)
    (hrun : t.get keyHash key keyLength outValue inValueLength allowMutation = .ok (output, t'))
    (hkey : keyLength ≤ kMaxKeyLength) (htail : t'.pool.tail < 2 ^ 48) : t'.Intact := by
  obtain ⟨-, -, rfl⟩ | ⟨_, hfind, hfound⟩ := get_eq_ok hrun
  · exact h
  · obtain ⟨-, -, hprunes⟩ | ⟨hvalue, hvalid, hmove, -⟩ := hfound
    · exact h.prunes hprunes
    · obtain ⟨-, rfl⟩ | ⟨-, hmove⟩ := hmove
      · exact h
      · obtain ⟨htag, -, hlength, -⟩ := findItemIndex_eq_some hfind
        have htag' := htag.symm ▸ calcTag_pos keyHash
        have hslot := LogInv.itemVec_ne_zero_of_tag htag'
        have hfresh := h.fresh_of_isValid hslot hvalid
        exact h.moveToHead hmove htag' (h.kvLengthVec_eq hslot hfresh hlength rfl) hkey hvalue htail

theorem increment {increment : Nat} {outValue : Option Nat} (h : t.Intact)
    (hrun : t.increment keyHash key keyLength increment = .ok ((result, outValue), t')) :
    t'.Intact := by
  obtain ⟨-, -, -, rfl⟩ | ⟨_, hfind, hfound⟩ := increment_eq_ok hrun
  · exact h
  · obtain ⟨-, -, -, rfl⟩ | ⟨hvalid, hvalue, -, -, rfl⟩ := hfound
    · exact h
    · obtain ⟨htag, -, hlength, -⟩ := findItemIndex_eq_some hfind
      have hslot := LogInv.itemVec_ne_zero_of_calcTag htag
      exact (h.storeValue hslot (h.fresh_of_isValid hslot (hvalid rfl)) hlength hvalue _).1

theorem del (h : t.Intact) (hrun : t.del keyHash key keyLength = .ok (result, t')) : t'.Intact := by
  obtain ⟨-, -, rfl⟩ | ⟨slot, -, -, hfill⟩ := del_eq_ok hrun
  · exact h
  · have hinherits := (Inherits.fillHole hfill).trans
      ((Prunes.statDec _).trans (Prunes.clear t slot)).inherits
    exact ⟨h.toLogInv.inherits hinherits, h.sized.inherits hinherits⟩

theorem itemVec_reset (t : LTable cfg (CircularLog z)) (slot : Slot cfg) :
    t.reset.itemVec slot = 0 := rfl

theorem reset (t : LTable cfg (CircularLog z)) : t.reset.Intact where
  tail_lt := Nat.two_pow_pos 48
  stored slot hslot := absurd (itemVec_reset t slot) hslot
  apart slot _ _ hslot _ := absurd (itemVec_reset t slot) hslot
  sized slot hslot _ := absurd (itemVec_reset t slot) hslot

/-- **Every call keeps the items intact**, if what it writes in place is inside the item. -/
theorem call {call : Call} {output : Output} (h : t.Intact)
    (hrun : t.call call = .ok (output, t')) (hbounded : call.Bounded) (hinside : t.Inside call)
    (htail : t'.pool.tail < 2 ^ 48) : t'.Intact := by
  cases call with
  | set =>
    obtain ⟨⟨result, t₁⟩, hset, hrun⟩ := bind_eq_ok.mp hrun
    cases hrun
    exact h.set hset hbounded.1 hbounded.2 hinside htail
  | get =>
    obtain ⟨⟨result, t₁⟩, hget, hrun⟩ := bind_eq_ok.mp hrun
    cases hrun
    exact h.get hget hbounded htail
  | test =>
    obtain ⟨result, -, hrun⟩ := bind_eq_ok.mp hrun
    cases hrun
    exact h
  | increment =>
    obtain ⟨⟨⟨result, _⟩, t₁⟩, hincrement, hrun⟩ := bind_eq_ok.mp hrun
    cases hrun
    exact h.increment hincrement
  | del =>
    obtain ⟨⟨_, _⟩, hdel, hrun⟩ := bind_eq_ok.mp hrun
    cases hrun
    exact h.del hdel
  | reset =>
    cases hrun
    exact reset t

end Intact

/-! ## Runs -/

section
variable {pool : CircularLog z} {calls : List Call} {history : List (Call × Output)}

/-- Fewer than `2 ^ 48` bytes are appended, between resets. -/
def TailBelow (cfg : TableConfig) (pool : CircularLog z) (calls : List Call) : Prop :=
  ∀ before, before <+: calls → ∀ history (t : LTable cfg (CircularLog z)),
    run cfg pool before = .ok (history, t) → t.pool.tail < 2 ^ 48

theorem TailBelow.initial {call : Call} (h : TailBelow cfg pool (calls ++ [call])) :
    TailBelow cfg pool calls :=
  fun before hbefore => h before (hbefore.trans (List.prefix_append calls [call]))

/-- The tail where a run ends. -/
def tailAfter (cfg : TableConfig) (pool : CircularLog z) (calls : List Call) : Nat :=
  match run cfg pool calls with
  | .ok (_, t) => t.pool.tail
  | .error _ => 0

theorem tailBelow_of_inits (h : ∀ before ∈ calls.inits, tailAfter cfg pool before < 2 ^ 48) :
    TailBelow cfg pool calls := by
  intro before hbefore _ t hrun
  have htail := h before ((List.mem_inits before calls).mpr hbefore)
  unfold tailAfter at htail
  rw [hrun] at htail
  exact htail

/-- **In every run** whose updates in place are inside the items, the items are intact. -/
theorem Intact.run (hbounded : ∀ call ∈ calls, call.Bounded) (htail : TailBelow cfg pool calls)
    (hinside : EveryStep cfg pool calls Inside) (hrun : run cfg pool calls = .ok (history, t)) :
    t.Intact := by
  induction calls using List.reverseRecOn generalizing history t with
  | nil =>
    cases hrun
    exact Intact.reset _
  | append_singleton _ call ih =>
    have hlast := htail _ (List.prefix_refl _) history t hrun
    obtain ⟨history₀, t₀, _, hrun₀, hcall, -⟩ := run_concat_eq_ok.mp hrun
    obtain ⟨hinside₀, hinsideLast⟩ := everyStep_concat.mp hinside
    have hintact := ih (fun c hc => hbounded c (List.mem_append_left _ hc)) htail.initial hinside₀
      hrun₀
    exact hintact.call hcall (hbounded call (List.mem_append_right _ (List.mem_singleton.mpr rfl)))
      (hinsideLast history₀ t₀ hrun₀) hlast

theorem everyStep_inside_iff (hbounded : ∀ call ∈ calls, call.Bounded)
    (htail : TailBelow cfg pool calls) :
    EveryStep cfg pool calls Inside ↔ EveryStep cfg pool calls FitsItem := by
  induction calls using List.reverseRecOn with
  | nil => exact ⟨fun _ _ _ _ h => absurd h (by simp), fun _ _ _ _ h => absurd h (by simp)⟩
  | append_singleton calls call ih =>
    have hbounded₀ : ∀ c ∈ calls, c.Bounded := fun c hc => hbounded c (List.mem_append_left _ hc)
    have hih := ih hbounded₀ htail.initial
    rw [everyStep_concat, everyStep_concat, ← hih]
    refine and_congr_right fun hinside => forall_congr' fun history => forall_congr' fun t =>
      forall_congr' fun hrun => ?_
    exact (Intact.run hbounded₀ htail.initial hinside hrun).inside_iff_fits call

end

end LTable

end Testbed.Mica
