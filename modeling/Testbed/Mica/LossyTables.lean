import Testbed.Mica.LogRuns
import Mathlib.Data.List.MinMax

/-! # Values of lossy tables

A table with eviction over a circular log may lose items, but an item that it finds and holds
for valid has the value that was last set.  `expected` tells this value by the calls and their
results.  The invariant is `Consistent`: each fresh item has the expected value of its key, and
the items of a bucket have different tags, so that a key is never in two slots.

This rests on the items being intact, and so on updates in place that fit (`FitsItem`).
-/
namespace Testbed.Mica

open Lib
open LTable List Function Pool

/-! ## What is expected -/

/-- The hash is a function of the key, and lengths are multiples of eight. -/
def Call.Hashed (hash : List UInt8 → UInt64) : Call → Prop
  | .set keyHash key keyLength _ valueLength _ =>
    keyHash = (hash (bytesOf key keyLength)).toNat ∧ Lengths keyLength valueLength
  | .get keyHash key keyLength _ _ _ | .test keyHash key keyLength
  | .increment keyHash key keyLength _ | .del keyHash key keyLength =>
    keyHash = (hash (bytesOf key keyLength)).toNat ∧ keyLength ≤ kMaxKeyLength ∧ 8 ∣ keyLength
  | .reset => True

theorem Call.Hashed.bounded {hash : List UInt8 → UInt64} {call : Call} (h : call.Hashed hash) :
    call.Bounded := by
  cases call with
  | set => exact ⟨h.2.key_le, h.2.value_le⟩
  | get | test | increment | del => exact h.2.1
  | reset => trivial

/-- A value of eight bytes with something added to it. -/
def incremented (increment : Nat) (value : List UInt8) : List UInt8 :=
  bytesOf (Memory.byteOf ((Memory.load id (value.getD · 0) 0 8 + increment) % 2 ^ 64)) 8

/-- Keys and their values. -/
abbrev Values := List UInt8 → Option (List UInt8)

/-- What a call does to the values, by its result. -/
def Values.after (values : Values) : Call × Output → Values
  | (.set _ key keyLength value valueLength _, .result .kSuccess) =>
    update values (bytesOf key keyLength) (some (bytesOf value valueLength))
  | (.increment _ key keyLength increment, .counter .kSuccess _) =>
    update values (bytesOf key keyLength)
      ((values (bytesOf key keyLength)).map (incremented increment))
  | (.del _ key keyLength, _) => update values (bytesOf key keyLength) none
  | (.reset, _) => fun _ => none
  | _ => values

variable (history : List (Call × Output))

/-- The value of each key by the calls so far. -/
def expected : Values := history.foldl Values.after fun _ => none

theorem expected_concat (entry : Call × Output) :
    expected (history ++ [entry]) = (expected history).after entry := by
  rw [expected, foldl_append]
  rfl

/-- The value that a `get` has written is the expected one. -/
def GetOutput.Returns (output : GetOutput) (value : Option (List UInt8)) : Prop :=
  ∃ bytes, value = some bytes ∧ output.outValueLength = some bytes.length ∧
    bytesOf output.outValue bytes.length = bytes

/-- Each `get` that succeeds returns the expected value. -/
def GetsExpected : Prop :=
  ∀ before after keyHash key keyLength outValue inValueLength allowMutation output,
    history = before ++
      (.get keyHash key keyLength outValue inValueLength allowMutation, .value output) :: after →
    output.result = .kSuccess → GetOutput.Returns output (expected before (bytesOf key keyLength))

namespace LTable
variable {cfg : TableConfig} {z : LogSize} {t t' : LTable cfg (CircularLog z)}

/-! ## Buckets without extra buckets -/

section
variable {P : Type} {t t' : LTable cfg P} (heviction : cfg.kEviction = true)
  {accepts : Nat → Bool} {b : Nat} {slot : Slot cfg}
include heviction

theorem hasExtraBucket_of_eviction (b : Nat) : t.hasExtraBucket b = false := by
  rw [hasExtraBucket, heviction]
  rfl

theorem lookup_of_eviction : t.lookup accepts b = .ok (((List.finRange cfg.kBucketSize).find?
    fun i => accepts ((t.buckets b).itemVec i)).map (Slot.mk b)) := by
  unfold lookup chainFuel search
  cases hfind : (List.finRange cfg.kBucketSize).find?
      fun i => accepts ((t.buckets b).itemVec i) with
  | some => rfl
  | none =>
    simp only [hasExtraBucket_of_eviction heviction]
    rfl

theorem bucket_of_lookup (h : t.lookup accepts b = .ok (some slot)) : slot.bucket = b := by
  rw [lookup_of_eviction heviction, Except.ok.injEq, Option.map_eq_some_iff] at h
  obtain ⟨i, -, rfl⟩ := h
  rfl

theorem rejects_of_lookup (h : t.lookup accepts b = .ok none) (hb : slot.bucket = b) :
    accepts (t.itemVec slot) = false := by
  rw [lookup_of_eviction heviction, Except.ok.injEq, Option.map_eq_none_iff, find?_eq_none] at h
  have hslot := h slot.index (mem_finRange _)
  rw [← hb] at hslot
  exact Bool.not_eq_true _ ▸ hslot

theorem fillHole_of_eviction {fuel : Nat} (h : fillHole slot fuel t = .ok t') : t' = t := by
  cases fuel with
  | zero => cases h
  | succ =>
    rw [fillHole, hasExtraBucket_of_eviction heviction] at h
    cases h
    rfl

end

/-! ## The slot that is taken -/

section
variable (t) (b : Nat)

/-- How far the item is behind the tail, as far as the log can tell. -/
def distance (i : Fin cfg.kBucketSize) : Nat := sub64 t.pool.tail (t.offsetAt ⟨b, i⟩) % z.size

/-- The variables of the loop, by the item that is chosen so far. -/
def oldestOf : Option (Fin cfg.kBucketSize) → Oldest cfg
  | none => ⟨2 ^ 64 - 1, b, 0, cfg.kBucketSize_pos⟩
  | some i => ⟨t.distance b i, b, i⟩

variable {t b}

theorem ageLoop_of_empty {indices : List (Fin cfg.kBucketSize)}
    (hempty : ∃ i ∈ indices, t.itemVec ⟨b, i⟩ = 0) (oldest : Oldest cfg) :
    ∃ i, t.ageLoop b indices oldest = .error ⟨b, i⟩ ∧ t.itemVec ⟨b, i⟩ = 0 := by
  induction indices generalizing oldest with
  | nil => exact absurd hempty (by simp)
  | cons i _ ih =>
    rw [ageLoop]
    by_cases hvec : t.itemVec ⟨b, i⟩ = 0
    · exact ⟨i, if_pos hvec, hvec⟩
    · rw [if_neg hvec]
      obtain ⟨j, hj, hzero⟩ := hempty
      obtain rfl | hj := mem_cons.mp hj
      · exact absurd hzero hvec
      · exact ih ⟨j, hj, hzero⟩ _

theorem ageLoop_of_full (hfull : ∀ i, t.itemVec ⟨b, i⟩ ≠ 0) (indices : List (Fin cfg.kBucketSize))
    (first : Option (Fin cfg.kBucketSize)) :
    t.ageLoop b indices (t.oldestOf b first) = .ok (t.oldestOf b (indices.foldl
      (List.argAux fun i j => t.distance b i < t.distance b j) first)) := by
  induction indices generalizing first with
  | nil => rfl
  | cons i rest ih =>
    have hdistance : sub64 (getTail t.pool) (getItemOffset (t.itemVec ⟨b, i⟩)) &&&
        getMask t.pool = t.distance b i := t.pool.and_getMask _
    rw [ageLoop, if_neg (hfull i), foldl_cons, ← ih, hdistance]
    refine congrArg (t.ageLoop b rest) ?_
    cases first with
    | none =>
      have hlt := Nat.mod_lt (sub64 t.pool.tail (t.offsetAt ⟨b, i⟩)) (Nat.two_pow_pos z.exponent)
      exact if_pos (hlt.trans_le (z.size_le.trans (show 2 ^ 46 ≤ 2 ^ 64 - 1 by decide)))
    | some j => exact (apply_ite (t.oldestOf b) _ (some i) (some j)).symm

/-- `get_empty_or_oldest` returns an empty slot, or that of the item that is the least far behind
the tail. -/
theorem getEmptyOrOldest_eq (heviction : cfg.kEviction = true) (t : LTable cfg (CircularLog z))
    (b : Nat) : ∃ i, t.getEmptyOrOldest b = .ok ⟨b, i⟩ ∧ (t.itemVec ⟨b, i⟩ = 0 ∨
      (∀ j, t.itemVec ⟨b, j⟩ ≠ 0) ∧ i ∈ (List.finRange cfg.kBucketSize).argmin (t.distance b)) := by
  have hstart : t.getEmptyOrOldest b = t.oldestLoop (chainFuel cfg) b (t.oldestOf b none) := rfl
  rw [hstart, chainFuel, oldestLoop]
  by_cases hfull : ∀ i, t.itemVec ⟨b, i⟩ ≠ 0
  · have hloop := ageLoop_of_full hfull (List.finRange cfg.kBucketSize) none
    cases hmin : (List.finRange cfg.kBucketSize).argmin (t.distance b) with
    | none =>
      have hmem := mem_finRange (⟨0, cfg.kBucketSize_pos⟩ : Fin cfg.kBucketSize)
      rw [argmin_eq_none.mp hmin] at hmem
      cases hmem
    | some i =>
      rw [show List.foldl _ none _ = some i from hmin] at hloop
      rw [hloop, hasExtraBucket_of_eviction heviction]
      exact ⟨i, rfl, .inr ⟨hfull, rfl⟩⟩
  · obtain ⟨i, hi⟩ := not_forall_not.mp hfull
    obtain ⟨j, hloop, hj⟩ := ageLoop_of_empty ⟨i, mem_finRange i, hi⟩ (t.oldestOf b none)
    rw [hloop]
    exact ⟨j, rfl, .inl hj⟩

end

section
variable (heviction : cfg.kEviction = true)
include heviction

theorem set_of_not_found {t t' : LTable cfg (CircularLog z)}
    {keyHash keyLength valueLength : Nat} {key value : Buffer} {overwrite : Bool} {result : Result}
    (h : t.set keyHash key keyLength value valueLength overwrite = .ok (result, t'))
    (hfind : t.findItemIndex (cfg.calcBucketIndex keyHash) keyHash (calcTag keyHash) key keyLength =
      .ok none) :
    ∃ slot, slot.bucket = cfg.calcBucketIndex keyHash ∧ (getTag (t.itemVec slot) = calcTag keyHash ∨
        ∀ slot', slot'.bucket = cfg.calcBucketIndex keyHash →
          getTag (t.itemVec slot') ≠ calcTag keyHash) ∧
      t.setNew slot false keyHash key keyLength value valueLength = .ok (result, t') := by
  obtain ⟨_, hfind', h⟩ := bind_eq_ok.mp h
  cases hfind.symm.trans hfind'
  rw [heviction] at h
  obtain ⟨same, hsame, h⟩ := bind_eq_ok.mp h
  cases same with
  | some slot =>
    exact ⟨slot, bucket_of_lookup heviction hsame, .inl (beq_iff_eq.mp (lookup_accepts hsame)), h⟩
  | none =>
    obtain ⟨_, hslot, h⟩ := bind_eq_ok.mp h
    obtain ⟨i, hi, -⟩ := getEmptyOrOldest_eq heviction t (cfg.calcBucketIndex keyHash)
    cases hi.symm.trans hslot
    refine ⟨_, rfl, .inr fun slot' hbucket => ?_, h⟩
    exact beq_eq_false_iff_ne.mp (rejects_of_lookup heviction hsame hbucket)

end

/-! ## The invariant -/

variable {hash : List UInt8 → UInt64} {values : Values} {slot : Slot cfg}

/-- The items of a bucket have different tags. -/
def DistinctTags (t : LTable cfg (CircularLog z)) : Prop :=
  ∀ slot slot', slot.bucket = slot'.bucket → t.itemVec slot ≠ 0 → t.itemVec slot' ≠ 0 →
    getTag (t.itemVec slot) = getTag (t.itemVec slot') → slot = slot'

theorem DistinctTags.keep (h : t.DistinctTags)
    (hslots : ∀ slot, t'.itemVec slot ≠ 0 → t'.itemVec slot = t.itemVec slot) :
    t'.DistinctTags := by
  intro slot slot' hbucket hslot hslot' htags
  have hsame := hslots slot hslot
  have hsame' := hslots slot' hslot'
  rw [hsame, hsame'] at htags
  exact h slot slot' hbucket (hsame ▸ hslot) (hsame' ▸ hslot') htags

theorem DistinctTags.others {tag : Nat} (h : t.DistinctTags) (hpos : 0 < tag)
    (htags : getTag (t.itemVec slot) = tag ∨
      ∀ slot', slot'.bucket = slot.bucket → getTag (t.itemVec slot') ≠ tag) (slot' : Slot cfg)
    (hne : slot' ≠ slot) (hbucket : slot'.bucket = slot.bucket) (hslot' : t.itemVec slot' ≠ 0) :
    getTag (t.itemVec slot') ≠ tag := by
  obtain rfl | hnone := htags
  · have hslot := LogInv.itemVec_ne_zero_of_tag hpos
    exact fun htag => hne (h slot' slot hbucket hslot' hslot htag)
  · exact hnone slot' hbucket

/-- One slot may get an item, with a tag that no other item of its bucket has. -/
theorem DistinctTags.place {tag : Nat} (h : t.DistinctTags)
    (hothers : ∀ slot', slot' ≠ slot → slot'.bucket = slot.bucket → t.itemVec slot' ≠ 0 →
      getTag (t.itemVec slot') ≠ tag)
    (hslots : ∀ slot', t'.itemVec slot' ≠ 0 → t'.itemVec slot' = t.itemVec slot' ∨
      slot' = slot ∧ getTag (t'.itemVec slot') = tag) : t'.DistinctTags := by
  have hplaced : ∀ slot', slot'.bucket = slot.bucket → t'.itemVec slot' ≠ 0 →
      getTag (t'.itemVec slot') = tag → slot' = slot := by
    intro slot' hbucket hslot' htag
    obtain hvec | ⟨heq, -⟩ := hslots slot' hslot'
    · rw [hvec] at hslot' htag
      exact by_contra fun hne => hothers slot' hne hbucket hslot' htag
    · exact heq
  intro slot₁ slot₂ hsame hslot₁ hslot₂ htags
  obtain hvec₁ | ⟨rfl, htag₁⟩ := hslots slot₁ hslot₁
  · obtain hvec₂ | ⟨rfl, htag₂⟩ := hslots slot₂ hslot₂
    · rw [hvec₁] at hslot₁ htags
      rw [hvec₂] at hslot₂ htags
      exact h slot₁ slot₂ hsame hslot₁ hslot₂ htags
    · exact hplaced slot₁ hsame hslot₁ (htags.trans htag₂)
  · exact (hplaced slot₂ hsame.symm hslot₂ (htags.symm.trans htag₁)).symm

/-- The item in the slot has the key and the value. -/
structure Has (hash : List UInt8 → UInt64) (t : LTable cfg (CircularLog z)) (slot : Slot cfg)
    (key value : List UInt8) : Prop where
  lengths : Lengths key.length value.length
  holds : Holds t.pool (t.pool.getItem (t.offsetAt slot)) (hash key).toNat key value
  tag : getTag (t.itemVec slot) = calcTag (hash key).toNat
  bucket : slot.bucket = cfg.calcBucketIndex (hash key).toNat

theorem Has.span_le {key value : List UInt8} (h : t.Has hash slot key value) (hintact : t.Intact)
    (hslot : t.itemVec slot ≠ 0) (hfresh : t.pool.Fresh (t.offsetAt slot)) :
    itemSpan key.length value.length ≤ t.allotted (t.offsetAt slot) := by
  obtain ⟨k, v, hk, hv, hlengths, hspan⟩ := hintact.sized slot hslot hfresh
  have hkey := h.holds.getKeyLength_eq h.lengths
  have hvalue := h.holds.getValueLength_eq h.lengths
  obtain ⟨hk', hv'⟩ := lengths_makeKvLengthVec hk hv hlengths
  rw [← hkey, ← hvalue, hk', hv']
  exact hspan

theorem Has.congr {key value : List UInt8} (h : t.Has hash slot key value)
    (htag : getTag (t'.itemVec slot) = getTag (t.itemVec slot))
    (hbytes : ∀ i < itemSpan key.length value.length,
      bytes t'.pool (t'.pool.getItem (t'.offsetAt slot)) i =
        bytes t.pool (t.pool.getItem (t.offsetAt slot)) i) :
    t'.Has hash slot key value where
  lengths := h.lengths
  holds := h.holds.congr fun i hi => hbytes i (by
    rw [itemSpan, spanned_of_dvd h.lengths.value_dvd]
    exact hi)
  tag := htag.trans h.tag
  bucket := h.bucket

/-- **The table and the values agree.** -/
structure Consistent (hash : List UInt8 → UInt64) (values : Values)
    (t : LTable cfg (CircularLog z)) : Prop where
  item : ∀ slot, t.itemVec slot ≠ 0 → t.pool.Fresh (t.offsetAt slot) →
    ∃ key value, t.Has hash slot key value ∧ values key = some value
  tags : t.DistinctTags

namespace Consistent

theorem prunes (h : t.Consistent hash values) (hprunes : t'.Prunes t) :
    t'.Consistent hash values := by
  refine ⟨fun slot hslot hfresh => ?_, h.tags.keep hprunes.slots⟩
  have hsame := hprunes.slots slot hslot
  have hoffset : t'.offsetAt slot = t.offsetAt slot := congrArg getItemOffset hsame
  rw [hoffset, hprunes.pool] at hfresh
  obtain ⟨key, value, hhas, hvalue⟩ := h.item slot (hsame ▸ hslot) hfresh
  refine ⟨key, value, hhas.congr (congrArg getTag hsame) fun i _ => ?_, hvalue⟩
  rw [hoffset, hprunes.pool]

/-- **One key changes**: its item is in the slot, and no other item of the bucket has its tag. -/
theorem change {key : List UInt8} {value : Option (List UInt8)} (h : t.Consistent hash values)
    (hintact : t.Intact) (hkept : t.KeptExcept t' slot)
    (hbucket : slot.bucket = cfg.calcBucketIndex (hash key).toNat)
    (hothers : ∀ slot', slot' ≠ slot → slot'.bucket = slot.bucket → t.itemVec slot' ≠ 0 →
      getTag (t.itemVec slot') ≠ calcTag (hash key).toNat)
    (htag : t'.itemVec slot ≠ 0 → getTag (t'.itemVec slot) = calcTag (hash key).toNat)
    (hitem : t'.itemVec slot ≠ 0 → t'.pool.Fresh (t'.offsetAt slot) →
      ∃ bytes, t'.Has hash slot key bytes ∧ value = some bytes) :
    t'.Consistent hash (update values key value) := by
  refine ⟨fun slot' hslot' hfresh => ?_, h.tags.place hothers fun slot' hslot' => ?_⟩
  · by_cases heq : slot' = slot
    · subst heq
      obtain ⟨bytes, hhas, hvalue⟩ := hitem hslot' hfresh
      exact ⟨key, bytes, hhas, by rw [update_self, hvalue]⟩
    · obtain ⟨hvec, hstay⟩ := hkept slot' heq hslot'
      have hoffset : t'.offsetAt slot' = t.offsetAt slot' := congrArg getItemOffset hvec
      rw [hoffset] at hfresh
      have hslot := hvec ▸ hslot'
      obtain ⟨key', bytes, hhas, hvalue⟩ := h.item slot' hslot (hstay.fresh hfresh)
      have hkey : key' ≠ key := by
        rintro rfl
        exact hothers slot' heq (hhas.bucket.trans hbucket.symm) hslot hhas.tag
      have hspan := hhas.span_le hintact hslot (hstay.fresh hfresh)
      refine ⟨key', bytes, hhas.congr (congrArg getTag hvec) fun i hi => ?_, ?_⟩
      · rw [hoffset]
        exact hstay.bytes hfresh i (hi.trans_le hspan)
      · rw [update_of_ne hkey, hvalue]
  · by_cases heq : slot' = slot
    · subst heq
      exact .inr ⟨rfl, htag hslot'⟩
    · exact .inl (hkept slot' heq hslot').1

/-! ## Lookups -/

section
variable {key : Buffer} {keyLength keyHash : Nat} (hdvd : 8 ∣ keyLength)
include hdvd

theorem found (h : t.Consistent hash values)
    (hfind : t.findItemIndex (cfg.calcBucketIndex keyHash) keyHash (calcTag keyHash) key keyLength =
      .ok (some slot)) (hfresh : t.pool.Fresh (t.offsetAt slot)) :
    ∃ value, t.Has hash slot (bytesOf key keyLength) value ∧
      values (bytesOf key keyLength) = some value := by
  have hmatches := lookup_accepts hfind
  obtain ⟨htag, -⟩ := findItemIndex_eq_some hfind
  have hslot := LogInv.itemVec_ne_zero_of_calcTag htag
  obtain ⟨_, value, hhas, hvalue⟩ := h.item slot hslot hfresh
  obtain ⟨-, -, rfl⟩ := (itemMatches_iff hhas.holds hhas.lengths hdvd).mp hmatches
  exact ⟨value, hhas, hvalue⟩

theorem notFound (heviction : cfg.kEviction = true)
    (hhash : keyHash = (hash (bytesOf key keyLength)).toNat)
    (hfind : t.findItemIndex (cfg.calcBucketIndex keyHash) keyHash (calcTag keyHash) key keyLength =
      .ok none) {value : List UInt8} (hhas : t.Has hash slot (bytesOf key keyLength) value) :
    False := by
  subst hhash
  have hrejects := rejects_of_lookup heviction hfind hhas.bucket
  have hmatches := (itemMatches_iff hhas.holds hhas.lengths hdvd).mpr ⟨hhas.tag, rfl, rfl⟩
  exact Bool.false_ne_true (hrejects.symm.trans hmatches)

end

/-! ## Calls -/

/-- **An item that moves to the head** keeps its value, and the others theirs. -/
theorem moveToHead {keyLength valueLength : Nat} {key bytes : List UInt8}
    (h : t.Consistent hash values) (hintact : t.Intact) (hkey : key.length ≤ kMaxKeyLength)
    (hvalue : valueLength ≤ kMaxValueLength)
    (hmove : t.moveToHead slot keyLength valueLength = .ok t')
    (hfresh : t.pool.Fresh (t.offsetAt slot)) (hhas : t.Has hash slot key bytes)
    (hexpected : values key = some bytes) (hkeyLength : keyLength = key.length)
    (hlength : valueLength = bytes.length) (htail : t'.pool.tail < 2 ^ 48) :
    t'.Consistent hash values := by
  subst hkeyLength hlength
  have htag := hhas.tag
  have hpos := htag.symm ▸ calcTag_pos _
  obtain ⟨-, hkept, hmoved⟩ := hintact.toLogInv.moveToHead hmove hpos hkey hvalue htail
  have hspan := hhas.span_le hintact (LogInv.itemVec_ne_zero_of_tag hpos) hfresh
  have hsize := itemSpan_le_itemSize hkey hvalue
  have hsame : values = update values key (some bytes) := by
    rw [← hexpected, update_eq_self]
  rw [hsame]
  refine h.change hintact hkept hhas.bucket (h.tags.others (calcTag_pos _) (.inl htag))
    (fun hslot' => ?_) fun hslot' hfresh' => ⟨bytes, ?_, rfl⟩
  · obtain ⟨hvec, -⟩ | ⟨offset, hoffset, hvec, -⟩ := hmoved hslot'
    · rw [hvec, htag]
    · rw [hvec, getTag_makeItemVec (getTag_lt _) hoffset, htag]
  · obtain ⟨hvec, hstay⟩ | ⟨offset, hoffset, hvec, -, -, hbytes⟩ := hmoved hslot'
    · have hsameOffset : t'.offsetAt slot = t.offsetAt slot := congrArg getItemOffset hvec
      rw [hsameOffset] at hfresh'
      refine hhas.congr (congrArg getTag hvec) fun i hi => ?_
      rw [hsameOffset]
      exact hstay.bytes hfresh' i (hi.trans_le hspan)
    · have hnewOffset : t'.offsetAt slot = offset := by
        rw [offsetAt, hvec, getItemOffset_makeItemVec hoffset]
      refine hhas.congr ?_ fun i hi => ?_
      · rw [hvec, getTag_makeItemVec (getTag_lt _) hoffset]
      · rw [hnewOffset]
        exact hbytes i (hi.trans_le hsize) (hi.trans_le hspan)

section Calls
variable {key value : Buffer} {keyLength valueLength keyHash : Nat} {result : Result}
  (heviction : cfg.kEviction = true) (hhash : keyHash = (hash (bytesOf key keyLength)).toNat)
include hhash

theorem setNew {overwriting : Bool} (h : t.Consistent hash values) (hintact : t.Intact)
    (hlengths : Lengths keyLength valueLength)
    (hrun : t.setNew slot overwriting keyHash key keyLength value valueLength = .ok (result, t'))
    (htail : t'.pool.tail < 2 ^ 48) (hbucket : slot.bucket = cfg.calcBucketIndex keyHash)
    (hothers : ∀ slot', slot' ≠ slot → slot'.bucket = slot.bucket → t.itemVec slot' ≠ 0 →
      getTag (t.itemVec slot') ≠ calcTag keyHash) :
    result = .kSuccess ∧ t'.Consistent hash
      (update values (bytesOf key keyLength) (some (bytesOf value valueLength))) := by
  obtain ⟨hresult, -, hkept, hvec, -, log, -, hpool⟩ :=
    hintact.toLogInv.setNew hrun hlengths.key_le hlengths.value_le htail
  have htag : t'.itemVec slot ≠ 0 → getTag (t'.itemVec slot) = calcTag keyHash := fun hslot => by
    rw [hvec hslot, getTag_makeItemVec (calcTag_lt keyHash) hintact.tail_lt]
  subst hhash
  refine ⟨hresult, h.change hintact hkept hbucket hothers htag fun hslot _ =>
    ⟨bytesOf value valueLength, ⟨?_, ?_, htag hslot, hbucket⟩, rfl⟩⟩
  · rw [length_bytesOf, length_bytesOf]
    exact hlengths
  · have hoffset : t'.offsetAt slot = t.pool.tail := by
      rw [offsetAt, hvec hslot, getItemOffset_makeItemVec hintact.tail_lt]
    have hn := itemSize_lt hlengths.key_le hlengths.value_le
    have hsize := z.le_size
    rw [hoffset, hpool]
    exact holds_setItem (log.distinct_getItem t.pool.tail (by omega)) hlengths
      (itemSpan_le_itemSize hlengths.key_le hlengths.value_le) (UInt64.toNat_lt _) key value

include heviction

theorem set {overwrite : Bool} (h : t.Consistent hash values) (hintact : t.Intact)
    (hlengths : Lengths keyLength valueLength)
    (hrun : t.set keyHash key keyLength value valueLength overwrite = .ok (result, t'))
    (hinside : t.Inside (.set keyHash key keyLength value valueLength overwrite))
    (htail : t'.pool.tail < 2 ^ 48) :
    t'.Consistent hash (values.after
      (.set keyHash key keyLength value valueLength overwrite, .result result)) := by
  obtain ⟨slot, hfind, hfound⟩ | ⟨hnone, -⟩ := set_eq_ok hrun
  · obtain ⟨-, rfl, rfl⟩ | ⟨rfl, hset⟩ := hfound
    · exact h
    · obtain ⟨htag, -, hkeyLength, -⟩ := findItemIndex_eq_some hfind
      have hslot := LogInv.itemVec_ne_zero_of_calcTag htag
      have hbucket := bucket_of_lookup heviction hfind
      have hothers := h.tags.others (calcTag_pos keyHash) (.inl htag)
      unfold setAt at hset
      dsimp only at hset
      split at hset
      · rename_i hfits
        cases hset
        rw [Bool.true_and] at hfits
        have hfresh := hintact.fresh_of_isValid hslot (Intact.isValid_of_fitsInPlace hfits)
        have hspan := Intact.span_le_of_writes (hintact.sized slot hslot hfresh)
          (hinside slot hfind hfits)
        obtain ⟨_, hhas, -⟩ := h.found hlengths.key_dvd hfind hfresh
        have hkept := (hintact.setItemValue hslot hfresh hlengths.value_le hspan value).2
        have hnew : Lengths (bytesOf key keyLength).length valueLength := by
          rw [length_bytesOf]
          exact hlengths
        subst hhash
        refine h.change hintact hkept hbucket hothers (fun _ => htag) fun _ _ =>
          ⟨bytesOf value valueLength, ⟨?_, ?_, htag, hbucket⟩, rfl⟩
        · rw [length_bytesOf value]
          exact hnew
        · refine hhas.holds.setItemValue hhas.lengths
            (t.pool.distinct_getItem (t.offsetAt slot) (hintact.size_lt hslot)) hnew ?_ value
          rw [length_bytesOf, ← hkeyLength]
          exact hspan
      · obtain ⟨rfl, hconsistent⟩ := setNew hhash h hintact hlengths hset htail hbucket hothers
        exact hconsistent
  · obtain ⟨_, hbucket, htags, hset⟩ := set_of_not_found heviction hrun hnone
    have hothers := h.tags.others (calcTag_pos keyHash) (htags.imp_right
      fun hnone slot' hb => hnone slot' (hb.trans hbucket))
    obtain ⟨rfl, hconsistent⟩ := setNew hhash h hintact hlengths hset htail hbucket hothers
    exact hconsistent

omit heviction hhash in
/-- **A `get` that succeeds returns the expected value**, and changes none. -/
theorem get {outValue : Buffer} {inValueLength : Nat} {allowMutation : Bool} {output : GetOutput}
    (h : t.Consistent hash values) (hintact : t.Intact) (hkey : keyLength ≤ kMaxKeyLength)
    (hdvd : 8 ∣ keyLength)
    (hrun : t.get keyHash key keyLength outValue inValueLength allowMutation = .ok (output, t'))
    (htail : t'.pool.tail < 2 ^ 48) :
    t'.Consistent hash values ∧ (output.result = .kSuccess →
      GetOutput.Returns output (values (bytesOf key keyLength))) := by
  obtain ⟨-, rfl, rfl⟩ | ⟨slot, hfind, hfound⟩ := get_eq_ok hrun
  · exact ⟨h, fun hresult => by cases hresult⟩
  · obtain ⟨-, rfl, hprunes⟩ | ⟨hvalue, hvalid, hmove, rfl⟩ := hfound
    · exact ⟨h.prunes hprunes, fun hresult => by cases hresult⟩
    · have hslot := LogInv.itemVec_ne_zero_of_calcTag (findItemIndex_eq_some hfind).1
      have hfresh := hintact.fresh_of_isValid hslot hvalid
      obtain ⟨bytes, hhas, hexpected⟩ := h.found hdvd hfind hfresh
      have hlength := hhas.holds.getValueLength_eq hhas.lengths
      constructor
      · obtain ⟨-, rfl⟩ | ⟨-, hmove⟩ := hmove
        · exact h
        · exact h.moveToHead hintact ((length_bytesOf key keyLength).trans_le hkey) hvalue hmove
            hfresh hhas hexpected (length_bytesOf key keyLength).symm hlength htail
      · intro hresult
        have hin : bytes.length ≤ inValueLength := by
          by_contra hlt
          dsimp only at hresult
          rw [if_pos (by
            rw [show getValueLength (kvLengthVec t.pool (getItem t.pool (getItemOffset
              (t.itemVec slot)))) = bytes.length from hlength]
            omega)] at hresult
          cases hresult
        exact ⟨bytes, hexpected, hhas.holds.readLength hhas.lengths hin,
          hhas.holds.readValue hhas.lengths (length_bytesOf key keyLength) outValue hin⟩

/-- **`increment`** adds to the expected value. -/
theorem increment {increment : Nat} {outValue : Option Nat} (h : t.Consistent hash values)
    (hintact : t.Intact) (hdvd : 8 ∣ keyLength)
    (hrun : t.increment keyHash key keyLength increment = .ok ((result, outValue), t')) :
    t'.Consistent hash (values.after
      (.increment keyHash key keyLength increment, .counter result outValue)) := by
  obtain ⟨-, rfl, -, rfl⟩ | ⟨slot, hfind, hfound⟩ := increment_eq_ok hrun
  · exact h
  · obtain ⟨-, rfl, -, rfl⟩ | ⟨hvalid, hvalue, rfl, -, rfl⟩ := hfound
    · exact h
    · obtain ⟨htag, -, hkeyLength, -⟩ := findItemIndex_eq_some hfind
      have hslot := LogInv.itemVec_ne_zero_of_calcTag htag
      have hfresh := hintact.fresh_of_isValid hslot (hvalid rfl)
      obtain ⟨bytes, hhas, hexpected⟩ := h.found hdvd hfind hfresh
      have hlength := (hhas.holds.getValueLength_eq hhas.lengths).symm.trans hvalue
      have hload : load t.pool (getItem t.pool (getItemOffset (t.itemVec slot)) +
          kItemSize + roundup8 keyLength) 8 = Memory.load id (bytes.getD · 0) 0 8 := by
        have hload := hhas.holds.load_value hlength
        rw [length_bytesOf] at hload
        exact hload
      have hspan := hhas.span_le hintact hslot hfresh
      have hstore := hhas.holds.storeValue hlength
        (t.pool.distinct_getItem (t.offsetAt slot) (hintact.size_lt hslot)) (hlength ▸ hspan)
        ((Memory.load id (bytes.getD · 0) 0 8 + increment) % 2 ^ 64)
      rw [length_bytesOf] at hstore
      have hbucket := bucket_of_lookup heviction hfind
      have hnew : Lengths (bytesOf key keyLength).length (incremented increment bytes).length := by
        rw [incremented, length_bytesOf _ 8, ← hlength]
        exact hhas.lengths
      rw [hload]
      subst hhash
      refine h.change hintact (hintact.storeValue hslot hfresh hkeyLength hvalue _).2 hbucket
        (h.tags.others (calcTag_pos _) (.inl htag)) (fun _ => htag)
        fun _ _ => ⟨incremented increment bytes, ⟨hnew, hstore, htag, hbucket⟩, ?_⟩
      rw [hexpected]
      rfl

theorem del (h : t.Consistent hash values) (hintact : t.Intact) (hdvd : 8 ∣ keyLength)
    (hrun : t.del keyHash key keyLength = .ok (result, t')) :
    t'.Consistent hash (update values (bytesOf key keyLength) none) := by
  obtain ⟨hfind, -, rfl⟩ | ⟨slot, hfind, -, hfill⟩ := del_eq_ok hrun
  · refine ⟨fun slot hslot hfresh => ?_, h.tags⟩
    obtain ⟨key', value, hhas, hvalue⟩ := h.item slot hslot hfresh
    have hkey : key' ≠ bytesOf key keyLength := by
      rintro rfl
      exact notFound hdvd heviction hhash hfind hhas
    exact ⟨key', value, hhas, by rw [update_of_ne hkey, hvalue]⟩
  · obtain ⟨htag, -⟩ := findItemIndex_eq_some hfind
    have hslot := LogInv.itemVec_ne_zero_of_calcTag htag
    have hprunes : t'.Prunes (t.setItemVec slot 0) := by
      rw [fillHole_of_eviction heviction hfill]
      exact Prunes.statDec _
    have hempty : t'.itemVec slot = 0 := by
      by_contra hne
      exact hne ((hprunes.slots slot hne).trans (itemVec_setItemVec_self t slot 0))
    subst hhash
    refine h.change hintact ((hprunes.trans (Prunes.clear t slot)).keptExcept slot)
      (bucket_of_lookup heviction hfind)
      (h.tags.others (calcTag_pos _) (.inl htag))
      (fun hne => absurd hempty hne) fun hne => absurd hempty hne

end Calls

theorem reset (hash : List UInt8 → UInt64) (t : LTable cfg (CircularLog z)) :
    t.reset.Consistent hash fun _ => none where
  item slot hslot := absurd (Intact.itemVec_reset t slot) hslot
  tags slot _ _ hslot := absurd (Intact.itemVec_reset t slot) hslot

/-- **Every call** keeps the table and the values in agreement. -/
theorem call {call : Call} {output : Output} (h : t.Consistent hash values) (hintact : t.Intact)
    (heviction : cfg.kEviction = true) (hhashed : call.Hashed hash)
    (hrun : t.call call = .ok (output, t')) (hinside : t.Inside call)
    (htail : t'.pool.tail < 2 ^ 48) : t'.Consistent hash (values.after (call, output)) := by
  cases call with
  | set =>
    obtain ⟨⟨result, t₁⟩, hset, hrun⟩ := bind_eq_ok.mp hrun
    cases hrun
    exact h.set heviction hhashed.1 hintact hhashed.2 hset hinside htail
  | get =>
    obtain ⟨⟨result, t₁⟩, hget, hrun⟩ := bind_eq_ok.mp hrun
    cases hrun
    exact (h.get hintact hhashed.2.1 hhashed.2.2 hget htail).1
  | test =>
    obtain ⟨result, -, hrun⟩ := bind_eq_ok.mp hrun
    cases hrun
    exact h
  | increment =>
    obtain ⟨⟨⟨result, _⟩, t₁⟩, hincrement, hrun⟩ := bind_eq_ok.mp hrun
    cases hrun
    exact h.increment heviction hhashed.1 hintact hhashed.2.2 hincrement
  | del =>
    obtain ⟨⟨_, _⟩, hdel, hrun⟩ := bind_eq_ok.mp hrun
    cases hrun
    exact h.del heviction hhashed.1 hintact hhashed.2.2 hdel
  | reset =>
    cases hrun
    exact reset hash t

end Consistent

/-! ## Runs -/

section
variable {pool : CircularLog z} {calls : List Call} {history : List (Call × Output)}

theorem getsExpected_nil : GetsExpected [] := by
  intro before _ _ _ _ _ _ _ _ heq
  cases before <;> cases heq

theorem getsExpected_concat {call : Call} {output : Output} (h : GetsExpected history)
    (hlast : ∀ keyHash key keyLength outValue inValueLength allowMutation value,
      call = .get keyHash key keyLength outValue inValueLength allowMutation →
      output = .value value → value.result = .kSuccess →
      GetOutput.Returns value (expected history (bytesOf key keyLength))) :
    GetsExpected (history ++ [(call, output)]) := by
  intro before after keyHash key keyLength outValue inValueLength allowMutation value heq hresult
  rcases eq_nil_or_concat after with rfl | ⟨after', last, rfl⟩
  · obtain ⟨rfl, hentry⟩ := append_inj' heq rfl
    cases hentry
    exact hlast _ _ _ _ _ _ _ rfl rfl hresult
  · have heq' : history ++ [(call, output)] = (before ++ (.get keyHash key keyLength outValue
        inValueLength allowMutation, .value value) :: after') ++ [last] := by
      rw [heq, append_assoc, concat_eq_append]
      rfl
    exact h before after' _ _ _ _ _ _ _ (append_inj' heq' rfl).1 hresult

theorem Consistent.run (heviction : cfg.kEviction = true)
    (hhashed : ∀ call ∈ calls, call.Hashed hash) (htail : TailBelow cfg pool calls)
    (hinside : EveryStep cfg pool calls Inside) (hrun : run cfg pool calls = .ok (history, t)) :
    t.Consistent hash (expected history) ∧ GetsExpected history := by
  induction calls using List.reverseRecOn generalizing history t with
  | nil =>
    cases hrun
    exact ⟨Consistent.reset hash _, getsExpected_nil⟩
  | append_singleton calls call ih =>
    have hlast := htail _ (prefix_refl _) history t hrun
    obtain ⟨history₀, t₀, _, hrun₀, hcall, rfl⟩ := run_concat_eq_ok.mp hrun
    obtain ⟨hinside₀, hinsideLast⟩ := everyStep_concat.mp hinside
    have hhashed₀ : ∀ c ∈ calls, c.Hashed hash := fun c hc => hhashed c (mem_append_left _ hc)
    have hcallHashed := hhashed call (mem_append_right _ (mem_singleton.mpr rfl))
    obtain ⟨hconsistent, hgets⟩ := ih hhashed₀ htail.initial hinside₀ hrun₀
    have hintact := Intact.run (fun c hc => (hhashed₀ c hc).bounded) htail.initial hinside₀ hrun₀
    rw [expected_concat]
    refine ⟨hconsistent.call hintact heviction hcallHashed hcall (hinsideLast history₀ t₀ hrun₀)
      hlast, getsExpected_concat hgets ?_⟩
    rintro _ _ _ _ _ _ _ rfl rfl hresult
    obtain ⟨⟨_, _⟩, hget, hcall⟩ := bind_eq_ok.mp hcall
    cases hcall
    exact (hconsistent.get hintact hcallHashed.2.1 hcallHashed.2.2 hget
      hlast).2 hresult

/-- **Lossy tables return no wrong value**: in a run whose updates in place fit, each `get` that
succeeds returns the value of the last successful set, with the increments since. -/
theorem getsExpected_of_fits (hash : List UInt8 → UInt64) (heviction : cfg.kEviction = true)
    (hhashed : ∀ call ∈ calls, call.Hashed hash) (htail : TailBelow cfg pool calls)
    (hfits : EveryStep cfg pool calls FitsItem) (hrun : run cfg pool calls = .ok (history, t)) :
    GetsExpected history := by
  have hinside := (everyStep_inside_iff (fun c hc => (hhashed c hc).bounded) htail).mpr hfits
  exact (Consistent.run heviction hhashed htail hinside hrun).2

end

end LTable

/-! ## A table with one bucket -/

/-- One bucket, with eviction. -/
def oneBucket : TableConfig where
  kEviction := true
  kBucketSize := 7
  kCollectStats := true
  logNumBuckets := 0
  numExtraBuckets := 0
  mthThreshold := 0
  supported := .inl rfl
  logNumBuckets_le := by decide

/-- The smallest log. -/
def smallLog : CircularLog ⟨21, by decide, by decide⟩ := ⟨fun _ => 0, 0, 0⟩

theorem smallLog_minimum : 21 ≤ 21 := Nat.le_refl 21

theorem smallLog_maximum : 21 ≤ 46 := by decide

/-- The same byte, again and again. -/
def filled (byte : UInt8) : Buffer := fun _ => byte

/-- A key is set and read. -/
def setAndGet : List Call :=
  [.set 1 (filled 1) 8 (filled 7) 8 false, .get 1 (filled 1) 8 (filled 0) 8 true]

/-- The value that was set is got. -/
theorem getsExpected_setAndGet : ∃ history t,
    run oneBucket smallLog setAndGet = .ok (history, t) ∧ GetsExpected history := by
  have htail : TailBelow oneBucket smallLog setAndGet := tailBelow_of_inits (by decide +kernel)
  have hfits : EveryStep oneBucket smallLog setAndGet FitsItem := by
    intro _ call _ heq _ t _
    have hmem : call ∈ setAndGet := heq ▸ mem_append_right _ mem_cons_self
    simp only [setAndGet, mem_cons, not_mem_nil, or_false] at hmem
    rcases hmem with rfl | rfl <;> trivial
  have hhashed : ∀ call ∈ setAndGet, call.Hashed fun _ => 1 := by
    intro _ hmem
    simp only [setAndGet, mem_cons, not_mem_nil, or_false] at hmem
    rcases hmem with rfl | rfl
    · exact ⟨rfl, by decide, by decide, by decide, by decide⟩
    · exact ⟨rfl, by decide, by decide⟩
  cases hrun : run oneBucket smallLog setAndGet with
  | ok outcome =>
    exact ⟨outcome.1, outcome.2, rfl,
      getsExpected_of_fits (fun _ => 1) rfl hhashed htail hfits hrun⟩
  | error =>
    exfalso
    have hok : (run oneBucket smallLog setAndGet).isOk = true := by decide +kernel
    rw [hrun] at hok
    cases hok

/-- The `get` returned something else than the expected value. -/
def wrongGet (before : List (Call × Output)) : Call × Output → Bool
  | (.get _ key keyLength _ _ _, .value output) =>
    output.result == .kSuccess &&
      match expected before (bytesOf key keyLength) with
      | some bytes => bytesOf output.outValue bytes.length != bytes
      | none => true
  | _ => false

theorem not_getsExpected {before after : List (Call × Output)} {entry : Call × Output}
    (h : wrongGet before entry = true) : ¬ GetsExpected (before ++ entry :: after) := by
  intro hexpected
  obtain ⟨call, output⟩ := entry
  cases call <;> cases output <;> try cases h
  rename_i keyHash key keyLength outValue inValueLength allowMutation output
  rw [wrongGet, Bool.and_eq_true, beq_iff_eq] at h
  obtain ⟨_, hvalue, -, hbytes⟩ := hexpected before after _ _ _ _ _ _ _ rfl h.1
  have hwrong := h.2
  rw [hvalue] at hwrong
  exact bne_iff_ne.mp hwrong hbytes

/-- A key is set to a value of eight bytes, and then, in place, to one of sixteen.  The header of
the next item is written over the rest of it. -/
def growInPlace : List Call :=
  [.set 1 (filled 1) 8 (filled 7) 8 true, .set 1 (filled 1) 8 (filled 7) 16 true,
    .set 2 (filled 2) 8 (filled 7) 8 true, .get 1 (filled 1) 8 (filled 0) 16 false]

/-- The history of a run ends with a `get` that is wrong. -/
def endsWrong (outcome : Except Fault (List (Call × Output) ×
    LTable oneBucket (CircularLog ⟨21, by decide, by decide⟩))) : Bool :=
  match outcome with
  | .ok (history, _) =>
    match history.reverse with
    | entry :: before => wrongGet before.reverse entry
    | [] => false
  | .error _ => false

theorem not_getsExpected_of_endsWrong {history : List (Call × Output)}
    {t : LTable oneBucket (CircularLog ⟨21, by decide, by decide⟩)}
    (h : endsWrong (.ok (history, t)) = true) : ¬ GetsExpected history := by
  unfold endsWrong at h
  dsimp only at h
  split at h
  · rename_i entry before hreverse
    rw [← reverse_reverse history, hreverse, reverse_cons]
    exact not_getsExpected h
  · cases h

/-- The hash of the first key is one, that of the other is two. -/
def firstByteHash (key : List UInt8) : UInt64 := if key.head? = some 2 then 2 else 1

/-- **A `get` can return bytes that were never set.** -/
theorem get_returns_header : ∃ history t,
    oneBucket.kEviction = true ∧ (∀ call ∈ growInPlace, call.Hashed firstByteHash) ∧
      TailBelow oneBucket smallLog growInPlace ∧
      run oneBucket smallLog growInPlace = .ok (history, t) ∧ ¬ GetsExpected history := by
  have htail : TailBelow oneBucket smallLog growInPlace := tailBelow_of_inits (by decide +kernel)
  have hhashed : ∀ call ∈ growInPlace, call.Hashed firstByteHash := by
    intro _ hmem
    simp only [growInPlace, mem_cons, not_mem_nil, or_false] at hmem
    rcases hmem with rfl | rfl | rfl | rfl
    · exact ⟨by decide, by decide, by decide, by decide, by decide⟩
    · exact ⟨by decide, by decide, by decide, by decide, by decide⟩
    · exact ⟨by decide, by decide, by decide, by decide, by decide⟩
    · exact ⟨by decide, by decide, by decide⟩
  have hwrong : endsWrong (run oneBucket smallLog growInPlace) = true := by decide +kernel
  cases hrun : run oneBucket smallLog growInPlace with
  | ok outcome =>
    rw [hrun] at hwrong
    exact ⟨outcome.1, outcome.2, rfl, hhashed, htail, rfl, not_getsExpected_of_endsWrong hwrong⟩
  | error =>
    rw [hrun] at hwrong
    cases hwrong

end Testbed.Mica
