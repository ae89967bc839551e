import Testbed.Mica.LossyTables

/-! # The sweep of stale items

Offsets have 48 bits, so an item that stays in the index for too long would be taken for a new
one.  `cleanup_bucket` prevents this: each time the log is appended to, it empties the slots of
stale items in the buckets that the tail has passed, where a stretch of `2 ^ 47` bytes of the log
is divided among the buckets.  An item of the bucket is stale when the tail passes the bucket for
the second time, at the latest (`Swept`), and so no item in the index is older than `2 ^ 48`
bytes.

The position of an item is the 64-bit tail at which it was appended; `Tracked` keeps it for each
slot.
-/
namespace Testbed.Mica

open Lib
open LTable Nat Pool

/-! ## Stretches of the log -/

namespace TableConfig
variable (cfg : TableConfig)

/-- The bytes of the log that belong to one bucket. -/
def stretch : Nat := 2 ^ (47 - cfg.logNumBuckets)

theorem stretch_mul_numBuckets : cfg.stretch * cfg.numBuckets = 2 ^ 47 := by
  have hle := cfg.logNumBuckets_le
  rw [stretch, numBuckets, ← Nat.pow_add, Nat.sub_add_cancel (hle.trans (by decide))]

theorem rshift_eq : cfg.rshift = 47 - cfg.logNumBuckets := by
  have hshift : ∀ n ≤ 47, ((2 ^ 47) >>> n ≤ cfg.numBuckets ↔ 47 - cfg.logNumBuckets ≤ n) := by
    intro n hn
    rw [Nat.shiftRight_eq_div_pow, Nat.pow_div hn (by decide), numBuckets,
      Nat.pow_le_pow_iff_right (by decide)]
    omega
  have hfind : (List.range 48).find? (fun n => decide ((2 ^ 47) >>> n ≤ cfg.numBuckets)) =
      some (47 - cfg.logNumBuckets) := by
    rw [List.find?_range_eq_some]
    refine ⟨decide_eq_true ((hshift _ (by omega)).mpr (le_refl _)),
      List.mem_range.mpr (by omega), fun j hj => ?_⟩
    rw [Bool.not_eq_true', decide_eq_false_iff_not, hshift j (by omega)]
    omega
  rw [rshift, hfind]
  rfl

theorem shiftRight_rshift_mod (position : Nat) :
    position >>> cfg.rshift % cfg.numBuckets = position / cfg.stretch % cfg.numBuckets := by
  rw [rshift_eq, shiftRight_eq_div_pow, stretch]

theorem offset_shiftRight_rshift_mod (position : Nat) :
    (position % 2 ^ 48) >>> cfg.rshift % cfg.numBuckets =
      position / cfg.stretch % cfg.numBuckets := by
  have hsplit : 2 ^ 48 = cfg.stretch * (cfg.numBuckets * 2) := by
    rw [← mul_assoc, stretch_mul_numBuckets]
    rfl
  rw [shiftRight_rshift_mod, hsplit, mod_mul_right_div_self, mod_mod_of_dvd _ (dvd_mul_right _ _)]

end TableConfig

namespace LTable
variable {cfg : TableConfig} {z : LogSize} {t t' : LTable cfg (CircularLog z)}

/-! ## What the sweep leaves -/

/-- The items in the bucket are valid. -/
def BucketValid (t : LTable cfg (CircularLog z)) (b : Nat) : Prop :=
  ∀ slot, slot.bucket = b → t.itemVec slot ≠ 0 → isValid t.pool (t.itemVec slot) = true

variable {b : Nat}

theorem BucketValid.prunes (h : t.BucketValid b) (hprunes : t'.Prunes t) : t'.BucketValid b := by
  intro slot hb hslot
  have hsame := hprunes.slots slot hslot
  rw [hsame, hprunes.pool]
  exact h slot hb (hsame ▸ hslot)

theorem isValid_of_cleanSlot (t : LTable cfg (CircularLog z)) (slot : Slot cfg)
    (hslot : (t.cleanSlot slot).itemVec slot ≠ 0) :
    isValid (t.cleanSlot slot).pool ((t.cleanSlot slot).itemVec slot) = true := by
  unfold cleanSlot at hslot ⊢
  split
  · rename_i hstale
    rw [if_pos hstale, itemVec_statDec, itemVec_setItemVec_self] at hslot
    exact absurd rfl hslot
  · rename_i hkept
    rw [if_neg hkept] at hslot
    by_contra hinvalid
    exact hkept ⟨hslot, hinvalid⟩

theorem cleanSlots_valid (b : Nat) (indices : List (Fin cfg.kBucketSize))
    (t : LTable cfg (CircularLog z)) {i : Fin cfg.kBucketSize} (hi : i ∈ indices)
    (hslot : (indices.foldl (fun t i => t.cleanSlot ⟨b, i⟩) t).itemVec ⟨b, i⟩ ≠ 0) :
    isValid t.pool ((indices.foldl (fun t i => t.cleanSlot ⟨b, i⟩) t).itemVec ⟨b, i⟩) =
      true := by
  induction indices generalizing t with
  | nil => cases hi
  | cons j rest ih =>
    have hpool := (Prunes.cleanSlot t ⟨b, j⟩).pool
    rcases List.mem_cons.mp hi with rfl | hmem
    · have hsame := (Prunes.cleanSlots b rest (t.cleanSlot ⟨b, i⟩)).slots _ hslot
      rw [List.foldl_cons, hsame, ← hpool]
      exact isValid_of_cleanSlot t ⟨b, i⟩ (hsame ▸ hslot)
    · rw [← hpool]
      exact ih (t.cleanSlot ⟨b, j⟩) hmem hslot

theorem cleanChain_valid (heviction : cfg.kEviction = true) {fuel : Nat}
    (h : cleanChain fuel b t = .ok t') : t'.BucketValid b := by
  cases fuel with
  | zero => cases h
  | succ =>
    have hprunes := Prunes.cleanSlots b (List.finRange cfg.kBucketSize) t
    rw [cleanChain] at h
    rw [hasExtraBucket_of_eviction heviction] at h
    cases h
    rintro ⟨b', i⟩ rfl hslot
    rw [hprunes.pool]
    exact cleanSlots_valid b' _ t (List.mem_finRange i) hslot

theorem cleanLoop_valid (heviction : cfg.kEviction = true) {d fuel first : Nat}
    (hd : d < cfg.numBuckets)
    (h : cleanLoop ((first + d) % cfg.numBuckets) fuel (first % cfg.numBuckets) t = .ok t')
    {i : Nat} (hi : i < d) : t'.BucketValid ((first + i) % cfg.numBuckets) := by
  induction d generalizing fuel first t i with
  | zero => omega
  | succ d ih =>
    cases fuel with
    | zero => cases h
    | succ =>
      rw [cleanLoop] at h
      have hne : first % cfg.numBuckets ≠ (first + (d + 1)) % cfg.numBuckets :=
        Memory.mod_ne_of_lt (by omega) (by omega)
      rw [if_neg hne] at h
      obtain ⟨_, hchain, h⟩ := bind_eq_ok.mp h
      rw [mod_add_mod, show first + (d + 1) = first + 1 + d by omega] at h
      cases i with
      | zero => exact (cleanChain_valid heviction hchain).prunes (Prunes.cleanLoop h)
      | succ i =>
        have hrest := ih (by omega) h (lt_of_succ_lt_succ hi)
        rw [show first + (i + 1) = first + 1 + i by omega]
        exact hrest

/-- **What the sweep leaves**: of the buckets whose stretch ends between the tails, the items that
are still valid. -/
theorem cleanupBucket_valid (heviction : cfg.kEviction = true) (hb : 1 ≤ cfg.logNumBuckets)
    {oldTail newTail : Nat} (hle : oldTail ≤ newTail) (hshort : newTail ≤ oldTail + 2 ^ 21)
    (h : t.cleanupBucket (oldTail % 2 ^ 48) newTail = .ok t') {k : Nat}
    (hk : oldTail < (k + 1) * cfg.stretch) (hk' : (k + 1) * cfg.stretch ≤ newTail) :
    t'.BucketValid (k % cfg.numBuckets) := by
  have hpos : 0 < cfg.stretch := Nat.two_pow_pos _
  have hsplit := cfg.stretch_mul_numBuckets
  have hfirst : oldTail / cfg.stretch ≤ k := by
    rw [← Nat.lt_succ_iff]
    exact (Nat.div_lt_iff_lt_mul hpos).mpr hk
  have hlast : k + 1 ≤ newTail / cfg.stretch := (le_div_iff_mul_le hpos).mpr hk'
  unfold cleanupBucket at h
  rw [cfg.offset_shiftRight_rshift_mod, cfg.shiftRight_rshift_mod, show newTail / cfg.stretch =
      oldTail / cfg.stretch + (newTail / cfg.stretch - oldTail / cfg.stretch) by omega] at h
  have hfew : newTail / cfg.stretch - oldTail / cfg.stretch < cfg.numBuckets := by
    by_contra hmany
    have hnew := div_mul_le_self newTail cfg.stretch
    have hold := lt_div_mul_add (a := oldTail) hpos
    have hturn : (oldTail / cfg.stretch + cfg.numBuckets) * cfg.stretch ≤
        newTail / cfg.stretch * cfg.stretch := mul_le_mul_right _ (by omega)
    rw [add_mul, mul_comm cfg.numBuckets, hsplit] at hturn
    have hhalf : cfg.stretch ≤ 2 ^ 46 := Nat.pow_le_pow_right (by decide) (by omega)
    omega
  have hvalid := cleanLoop_valid heviction (i := k - oldTail / cfg.stretch) hfew h (by omega)
  rw [show oldTail / cfg.stretch + (k - oldTail / cfg.stretch) = k by omega] at hvalid
  exact hvalid

/-! ## What a call does to the index -/

/-- The items of the index stay where they are, or are lost, and nothing is appended. -/
def Stays (t t' : LTable cfg (CircularLog z)) : Prop :=
  t'.pool.tail = t.pool.tail ∧ ∀ slot, t'.itemVec slot ≠ 0 → t'.itemVec slot = t.itemVec slot

theorem Prunes.stays (h : t'.Prunes t) : t.Stays t' := ⟨by rw [h.pool], h.slots⟩

/-- An item of `n` bytes is appended, the slot may take it, and the buckets that the tail has passed
are swept. -/
def AppendsAt (t t' : LTable cfg (CircularLog z)) (n : Nat) (slot : Slot cfg) (tag : Nat) : Prop :=
  ∃ t₁ t₂ : LTable cfg (CircularLog z), t₁.pool.tail = (t.pool.tail + (n + 8)) % 2 ^ 64 ∧
    (∀ slot', t₁.itemVec slot' = t.itemVec slot' ∨
      slot' = slot ∧ t₁.itemVec slot' = makeItemVec tag (t.pool.tail % 2 ^ 48)) ∧
    t₁.cleanupBucket (t.pool.tail % 2 ^ 48) ((t.pool.tail + (n + 8)) % 2 ^ 64) = .ok t₂ ∧
    t'.Prunes t₂

/-- An item of a call that keeps to the bounds is appended. -/
def Appends (t t' : LTable cfg (CircularLog z)) : Prop :=
  ∃ n < 2 ^ 20 + 512, ∃ slot, ∃ tag < 2 ^ 16, slot.bucket < cfg.numBuckets ∧
    t.AppendsAt t' n slot tag

section Ways
variable {slot : Slot cfg} {keyHash keyLength valueLength : Nat} {key value : Buffer}
  {result : Result}

theorem AppendsAt.slots {n tag : Nat} (h : t.AppendsAt t' n slot tag) (htag : tag < 2 ^ 16)
    (slot' : Slot cfg) (hslot' : t'.itemVec slot' ≠ 0) : t'.itemVec slot' = t.itemVec slot' ∨
      slot' = slot ∧ getTag (t'.itemVec slot') = tag := by
  obtain ⟨_, _, -, hslots, hclean, hprunes⟩ := h
  rw [(hprunes.trans (Prunes.cleanupBucket hclean)).slots slot' hslot']
  refine (hslots slot').imp_right fun ⟨heq, hvec⟩ => ⟨heq, ?_⟩
  rw [hvec, getTag_makeItemVec htag (Nat.mod_lt _ (Nat.two_pow_pos 48))]

theorem allocate_log_eq_ok {n : Nat} {found : Option Nat} (h : t.allocate n = .ok (found, t')) :
    found = some (t.pool.tail % 2 ^ 48) ∧ t'.pool.tail = (t.pool.tail + (n + 8)) % 2 ^ 64 ∧
      t'.buckets = t.buckets := by
  obtain ⟨⟨_, _⟩, hallocate, h⟩ := bind_eq_ok.mp h
  obtain ⟨rfl, _, rfl⟩ := CircularLog.allocate_eq_ok hallocate
  cases h
  exact ⟨rfl, rfl, rfl⟩

theorem tail_of_writes {log log' : CircularLog z} {a n : Nat} (h : Writes log log' a n) :
    log'.tail = log.tail := by
  rw [h.written]
  rfl

theorem itemVec_place (t : LTable cfg (CircularLog z)) (slot : Slot cfg) (vec : Nat)
    (slot' : Slot cfg) :
    ((if t.itemVec slot ≠ 0 then t.statDec else t).setItemVec slot vec).itemVec slot' =
      if slot' = slot then vec else t.itemVec slot' := by
  rw [itemVec_setItemVec]
  split
  · rfl
  · split
    · rw [itemVec_statDec]
    · rfl

theorem pool_place (t : LTable cfg (CircularLog z)) (slot : Slot cfg) (vec : Nat) :
    ((if t.itemVec slot ≠ 0 then t.statDec else t).setItemVec slot vec).pool = t.pool := by
  change (if t.itemVec slot ≠ 0 then t.statDec else t).pool = t.pool
  split
  · rw [pool_statDec]
  · rfl

theorem setNew_appends {overwriting : Bool}
    (h : t.setNew slot overwriting keyHash key keyLength value valueLength = .ok (result, t')) :
    t.AppendsAt t' (itemSize keyLength valueLength) slot (calcTag keyHash) := by
  obtain ⟨⟨found, t₁⟩, hallocate, h⟩ := bind_eq_ok.mp h
  obtain ⟨rfl, htail, hbuckets⟩ := allocate_log_eq_ok hallocate
  obtain ⟨t₃, hclean, h⟩ := bind_eq_ok.mp h
  cases h
  have hwrites := writes_setItem t₁.pool (t₁.pool.getItem (t.pool.tail % 2 ^ 48)) keyHash key value
    (le_refl (itemSpan keyLength valueLength))
  rw [show getTail t₁.pool = _ from htail] at hclean
  refine ⟨_, t₃, ?_, fun slot' => ?_, hclean, ?_⟩
  · rw [pool_place]
    exact (tail_of_writes hwrites).trans htail
  · rw [itemVec_place]
    split
    · rename_i heq
      exact .inr ⟨heq, rfl⟩
    · refine Or.inl ?_
      unfold itemVec
      rw [hbuckets]
  · refine (Prunes.statInc _).trans ?_
    cases overwriting <;> exact Prunes.refl t₃

theorem moveToHead_appends (h : t.moveToHead slot keyLength valueLength = .ok t') : t.Stays t' ∨
      t.AppendsAt t' (itemSize keyLength valueLength) slot (getTag (t.itemVec slot)) := by
  unfold moveToHead at h
  rw [if_pos (show isCircularLog (CircularLog z) = true from rfl)] at h
  dsimp only at h
  split at h
  · obtain ⟨⟨found, t₁⟩, hallocate, h⟩ := bind_eq_ok.mp h
    obtain ⟨rfl, htail, hbuckets⟩ := allocate_log_eq_ok hallocate
    dsimp only at h
    rw [show getTail t₁.pool = _ from htail] at h
    refine .inr ⟨_, t', ?_, fun slot' => ?_, h, Prunes.refl t'⟩
    · split
      · exact htail
      · exact htail
    · have hold : t₁.itemVec slot' = t.itemVec slot' := by
        unfold itemVec
        rw [hbuckets]
      split
      · rw [itemVec_setItemVec]
        split
        · rename_i heq
          exact .inr ⟨heq, rfl⟩
        · exact .inl hold
      · exact .inl hold
  · cases h
    exact .inl (Prunes.refl t).stays

/-- **What a call does to the index** of a table with eviction: an item that is appended goes to the
slot with its tag, or there is none in its bucket. -/
theorem call_index (heviction : cfg.kEviction = true) {call : Call} {output : Output}
    (hreset : call ≠ .reset) (h : t.call call = .ok (output, t')) :
    t.Stays t' ∨ ∃ n slot keyHash, (call.Bounded → n < 2 ^ 20 + 512) ∧
      slot.bucket = cfg.calcBucketIndex keyHash ∧
      (getTag (t.itemVec slot) = calcTag keyHash ∨ ∀ slot', slot'.bucket = slot.bucket →
        getTag (t.itemVec slot') ≠ calcTag keyHash) ∧
      t.AppendsAt t' n slot (calcTag keyHash) := by
  cases call with
  | set keyHash _ _ value =>
    obtain ⟨⟨result, t₁⟩, hset, h⟩ := bind_eq_ok.mp h
    cases h
    obtain ⟨slot, hfind, hfound⟩ | ⟨hnone, -⟩ := set_eq_ok hset
    · have htag := (findItemIndex_eq_some hfind).1
      obtain ⟨-, -, rfl⟩ | ⟨rfl, hsetAt⟩ := hfound
      · exact .inl (Prunes.refl _).stays
      · unfold setAt at hsetAt
        dsimp only at hsetAt
        split at hsetAt
        · cases hsetAt
          refine .inl ⟨?_, fun _ _ => rfl⟩
          exact tail_of_writes (writes_setItemValue t.pool
            (getItem t.pool (getItemOffset (t.itemVec slot))) value (le_refl _))
        · exact .inr ⟨_, slot, keyHash, fun hbounded => itemSize_lt hbounded.1 hbounded.2,
            bucket_of_lookup heviction hfind, .inl htag, setNew_appends hsetAt⟩
    · obtain ⟨slot, hbucket, htags, hsetNew⟩ := set_of_not_found heviction hset hnone
      exact .inr ⟨_, slot, keyHash, fun hbounded => itemSize_lt hbounded.1 hbounded.2, hbucket,
        hbucket ▸ htags, setNew_appends hsetNew⟩
  | get keyHash =>
    obtain ⟨⟨result, t₁⟩, hget, h⟩ := bind_eq_ok.mp h
    cases h
    obtain ⟨-, -, rfl⟩ | ⟨slot, hfind, hfound⟩ := get_eq_ok hget
    · exact .inl (Prunes.refl _).stays
    · obtain ⟨-, -, hprunes⟩ | ⟨hvalue, -, hmove, -⟩ := hfound
      · exact .inl hprunes.stays
      · obtain ⟨-, rfl⟩ | ⟨-, hmove⟩ := hmove
        · exact .inl (Prunes.refl _).stays
        · have htag := (findItemIndex_eq_some hfind).1
          refine (moveToHead_appends hmove).imp_right fun happends => ?_
          exact ⟨_, slot, keyHash, fun hbounded => itemSize_lt hbounded hvalue,
            bucket_of_lookup heviction hfind, .inl htag, htag ▸ happends⟩
  | test =>
    obtain ⟨result, -, h⟩ := bind_eq_ok.mp h
    cases h
    exact .inl (Prunes.refl _).stays
  | increment =>
    obtain ⟨⟨⟨result, _⟩, t₁⟩, hincrement, h⟩ := bind_eq_ok.mp h
    cases h
    obtain ⟨-, -, -, rfl⟩ | ⟨slot, -, hfound⟩ := increment_eq_ok hincrement
    · exact .inl (Prunes.refl _).stays
    · obtain ⟨-, -, -, rfl⟩ | ⟨-, -, -, -, rfl⟩ := hfound
      · exact .inl (Prunes.refl _).stays
      · exact .inl ⟨rfl, fun _ _ => rfl⟩
  | del =>
    obtain ⟨⟨_, _⟩, hdel, h⟩ := bind_eq_ok.mp h
    cases h
    obtain ⟨-, -, rfl⟩ | ⟨slot, -, -, hfill⟩ := del_eq_ok hdel
    · exact .inl (Prunes.refl _).stays
    · rw [fillHole_of_eviction heviction hfill]
      exact .inl ((Prunes.statDec _).trans (Prunes.clear t slot)).stays
  | reset => exact absurd rfl hreset

theorem call_stays_or_appends (heviction : cfg.kEviction = true) {call : Call} {output : Output}
    (hbounded : call.Bounded) (hreset : call ≠ .reset) (h : t.call call = .ok (output, t')) :
    t.Stays t' ∨ t.Appends t' := by
  refine (call_index heviction hreset h).imp_right ?_
  rintro ⟨n, slot, keyHash, hn, hbucket, -, happends⟩
  exact ⟨n, hn hbounded, slot, _, calcTag_lt keyHash,
    hbucket.symm ▸ Nat.mod_lt _ (Nat.two_pow_pos _), happends⟩

/-! ## Tags -/

/-- The tables that come about one call after another, with sweeps of any buckets in between. -/
inductive Sequential : LTable cfg (CircularLog z) → Prop
  | create (pool : CircularLog z) : Sequential (create cfg pool)
  | call {t t' : LTable cfg (CircularLog z)} {call : Call} {output : Output} (h : Sequential t)
      (hcall : t.call call = .ok (output, t')) : Sequential t'
  | cleanup {t t' : LTable cfg (CircularLog z)} {oldTail newTail : Nat} (h : Sequential t)
      (hclean : t.cleanupBucket oldTail newTail = .ok t') : Sequential t'

/-- The tags of a bucket are different, and none is zero. -/
structure Tagged (t : LTable cfg (CircularLog z)) : Prop where
  distinct : t.DistinctTags
  ne_zero : ∀ slot, t.itemVec slot ≠ 0 → getTag (t.itemVec slot) ≠ 0

theorem Tagged.keep (h : t.Tagged)
    (hslots : ∀ slot, t'.itemVec slot ≠ 0 → t'.itemVec slot = t.itemVec slot) : t'.Tagged := by
  refine ⟨h.distinct.keep hslots, fun slot hslot => ?_⟩
  have hsame := hslots slot hslot
  exact hsame ▸ h.ne_zero slot (hsame ▸ hslot)

theorem Tagged.reset (t : LTable cfg (CircularLog z)) : t.reset.Tagged :=
  ⟨fun slot _ _ hslot => absurd (Intact.itemVec_reset t slot) hslot,
    fun slot hslot => absurd (Intact.itemVec_reset t slot) hslot⟩

theorem Tagged.call (heviction : cfg.kEviction = true) {call : Call} {output : Output}
    (h : t.Tagged) (hcall : t.call call = .ok (output, t')) : t'.Tagged := by
  by_cases hreset : call = .reset
  · subst hreset
    cases hcall
    exact Tagged.reset t
  · obtain hstays | ⟨n, _, keyHash, -, -, htags, happends⟩ := call_index heviction hreset hcall
    · exact h.keep hstays.2
    · have hslots := happends.slots (calcTag_lt keyHash)
      have hpos := calcTag_pos keyHash
      refine ⟨h.distinct.place (h.distinct.others hpos htags) hslots, fun slot' hslot' => ?_⟩
      obtain hvec | ⟨-, htag⟩ := hslots slot' hslot'
      · exact hvec ▸ h.ne_zero slot' (hvec ▸ hslot')
      · exact htag ▸ hpos.ne'

theorem Sequential.tagged (heviction : cfg.kEviction = true) (h : t.Sequential) : t.Tagged := by
  induction h with
  | create => exact Tagged.reset _
  | call _ hcall ih => exact ih.call heviction hcall
  | cleanup _ hclean ih => exact ih.keep (Prunes.cleanupBucket hclean).slots

/-- **Tags are unique in a bucket**, so that a key has at most one entry. -/
theorem tags_unique (heviction : cfg.kEviction = true) (h : t.Sequential) :
    (∀ slot slot', slot.bucket = slot'.bucket → t.itemVec slot ≠ 0 → t.itemVec slot' ≠ 0 →
      getTag (t.itemVec slot) = getTag (t.itemVec slot') → slot = slot') ∧
    (∀ slot, t.itemVec slot ≠ 0 → getTag (t.itemVec slot) ≠ 0) ∧
    ∀ keyHash key keyLength slot slot', slot.bucket = cfg.calcBucketIndex keyHash →
      slot'.bucket = cfg.calcBucketIndex keyHash →
      t.itemMatches keyHash (calcTag keyHash) key keyLength (t.itemVec slot) = true →
      t.itemMatches keyHash (calcTag keyHash) key keyLength (t.itemVec slot') = true →
      slot = slot' := by
  obtain ⟨hdistinct, hne⟩ := h.tagged heviction
  refine ⟨hdistinct, hne, fun keyHash key keyLength slot slot' hb hb' hmatches hmatches' => ?_⟩
  have htag : ∀ slot, t.itemMatches keyHash (calcTag keyHash) key keyLength (t.itemVec slot) →
      getTag (t.itemVec slot) = calcTag keyHash := by
    intro slot hmatches
    unfold itemMatches at hmatches
    simp only [Bool.and_eq_true, beq_iff_eq] at hmatches
    exact hmatches.1.1
  have hslot : ∀ slot, getTag (t.itemVec slot) = calcTag keyHash → t.itemVec slot ≠ 0 :=
    fun slot htag => LogInv.itemVec_ne_zero_of_calcTag htag
  have htag₁ := htag slot hmatches
  have htag₂ := htag slot' hmatches'
  exact hdistinct slot slot' (hb.trans hb'.symm) (hslot slot htag₁) (hslot slot' htag₂)
    (htag₁.trans htag₂.symm)

/-- Whether the first slot is used after a call. -/
def fillsFirst : Except Fault (Output × LTable oneBucket
    (CircularLog ⟨21, smallLog_minimum, smallLog_maximum⟩)) → Bool
  | .ok (_, t) => decide (t.itemVec ⟨0, 0, by decide⟩ ≠ 0)
  | .error _ => false

/-- A table with one item. -/
theorem tags_unique_set : ∃ t : LTable oneBucket (CircularLog ⟨21, by decide, by decide⟩),
    t.Sequential ∧ ∃ slot, t.itemVec slot ≠ 0 ∧ getTag (t.itemVec slot) ≠ 0 := by
  let call : Call := .set 1 (filled 1) 8 (filled 7) 8 false
  have hset : fillsFirst ((create _ smallLog).call call) = true := by decide +kernel
  cases hcall : (create oneBucket smallLog).call call with
  | error =>
    rw [hcall] at hset
    cases hset
  | ok =>
    rw [hcall] at hset
    have hslot := of_decide_eq_true hset
    have h := (Sequential.create smallLog).call hcall
    exact ⟨_, h, _, hslot, (tags_unique rfl h).2.1 _ hslot⟩

end Ways

end LTable

/-! ## Positions of items -/

/-- A table, and the position at which the item of each slot was appended. -/
structure Tracked (cfg : TableConfig) (z : LogSize) where
  table : LTable cfg (CircularLog z)
  position : Slot cfg → Nat

namespace Tracked
variable {cfg : TableConfig} {z : LogSize} {s s' : Tracked cfg z}

def start (pool : CircularLog z) : Tracked cfg z := ⟨create cfg pool, fun _ => 0⟩

/-- A call appends at most one item, at the tail.  A slot whose `item_vec` is another one after the
call holds this item. -/
def step (s : Tracked cfg z) (call : Call) : Except Fault (Tracked cfg z) := do
  let (_, table) ← s.table.call call
  return {
    table
    position := fun slot =>
      if table.itemVec slot = s.table.itemVec slot then s.position slot else s.table.pool.tail }

/-- The states of a table that is not reset, with fewer than `2 ^ 63` bytes appended. -/
inductive Reachable : Tracked cfg z → Prop
  | start (pool : CircularLog z) : Reachable (start pool)
  | step {s s' : Tracked cfg z} {call : Call} (h : Reachable s) (hbounded : call.Bounded)
      (hreset : call ≠ .reset) (hstep : s.step call = .ok s')
      (htail : s'.table.pool.tail < 2 ^ 63) : Reachable s'

/-- **Items do not outlive a sweep**: each time the tail has passed the bucket of the item, the item
was valid. -/
structure Swept (s : Tracked cfg z) : Prop where
  tail_lt : s.table.pool.tail < 2 ^ 63
  itemVec_lt : ∀ slot, s.table.itemVec slot < 2 ^ 64
  bucket : ∀ slot, s.table.itemVec slot ≠ 0 → slot.bucket < cfg.numBuckets
  position_lt : ∀ slot, s.table.itemVec slot ≠ 0 → s.position slot < s.table.pool.tail
  offset : ∀ slot, s.table.itemVec slot ≠ 0 → s.table.offsetAt slot = s.position slot % 2 ^ 48
  passed : ∀ slot, s.table.itemVec slot ≠ 0 → ∀ k, k % cfg.numBuckets = slot.bucket →
    s.position slot < (k + 1) * cfg.stretch → (k + 1) * cfg.stretch ≤ s.table.pool.tail →
    (k + 1) * cfg.stretch ≤ s.position slot + z.size
  distinct : ∀ slot slot', s.table.itemVec slot ≠ 0 → s.table.itemVec slot' ≠ 0 →
    s.position slot = s.position slot' → slot = slot'

theorem exists_passed (cfg : TableConfig) (hb : b < cfg.numBuckets) (x : Nat) :
    ∃ k, k % cfg.numBuckets = b ∧ x < (k + 1) * cfg.stretch ∧
      (k + 1) * cfg.stretch ≤ x + 2 ^ 47 := by
  have hsplit := cfg.stretch_mul_numBuckets
  have hfirst : (b + 1) * cfg.stretch ≤ 2 ^ 47 := by
    rw [← hsplit, mul_comm cfg.stretch]
    exact mul_le_mul_right _ hb
  have hround : ∀ m, (b + m * cfg.numBuckets + 1) * cfg.stretch =
      (b + 1) * cfg.stretch + m * 2 ^ 47 := by
    intro m
    rw [← hsplit, add_right_comm, add_mul (b + 1), mul_assoc, mul_comm cfg.numBuckets]
  have hmod : ∀ m, (b + m * cfg.numBuckets) % cfg.numBuckets = b := fun m => by
    rw [add_mul_mod_self_right, mod_eq_of_lt hb]
  by_cases hlt : x < (b + 1) * cfg.stretch
  · exact ⟨b, mod_eq_of_lt hb, hlt, hfirst.trans (le_add_left _ _)⟩
  · refine ⟨b + ((x - (b + 1) * cfg.stretch) / 2 ^ 47 + 1) * cfg.numBuckets, hmod _, ?_, ?_⟩
    all_goals
      rw [hround]
      omega

theorem Swept.tail_lt_position (h : s.Swept) {slot : Slot cfg} (hslot : s.table.itemVec slot ≠ 0) :
    s.table.pool.tail < s.position slot + z.size + 2 ^ 47 := by
  by_contra hold
  obtain ⟨k, hk, _⟩ := exists_passed cfg (h.bucket slot hslot) (s.position slot + z.size)
  have hpassed := h.passed slot hslot k hk (by omega) (by omega)
  omega

/-- `is_valid` is right about an item that is not older than `2 ^ 48` bytes, by its offset and by
its `item_vec`. -/
theorem isValid_iff_of_recent (log : CircularLog z) {vec position : Nat} (hvec : vec < 2 ^ 64)
    (hsame : vec % 2 ^ 48 = position % 2 ^ 48) (hposition : position ≤ log.tail)
    (htail : log.tail < 2 ^ 63) (hrecent : log.tail < position + 2 ^ 48) :
    isValid log vec = true ↔ log.tail ≤ position + z.size := by
  have hdistance : sub64 log.tail vec &&& kOffsetMask = log.tail - position := by
    rw [kOffsetMask, and_two_pow_sub_one_eq_mod, sub64]
    omega
  change decide (sub64 log.tail vec &&& kOffsetMask ≤ z.size) = true ↔ _
  rw [decide_eq_true_eq, hdistance]
  omega

theorem Swept.start (pool : CircularLog z) : (start pool : Tracked cfg z).Swept where
  tail_lt := Nat.two_pow_pos 63
  itemVec_lt _ := Nat.two_pow_pos 64
  bucket slot hslot := absurd (Intact.itemVec_reset _ slot) hslot
  position_lt slot hslot := absurd (Intact.itemVec_reset _ slot) hslot
  offset slot hslot := absurd (Intact.itemVec_reset _ slot) hslot
  passed slot hslot := absurd (Intact.itemVec_reset _ slot) hslot
  distinct slot _ hslot := absurd (Intact.itemVec_reset _ slot) hslot

section Step
variable (h : s.Swept) (htable : s'.position = fun slot =>
  if s'.table.itemVec slot = s.table.itemVec slot then s.position slot else s.table.pool.tail)
include h htable

theorem Swept.stays (hstays : s.table.Stays s'.table) : s'.Swept := by
  obtain ⟨htail, hslots⟩ := hstays
  have hposition : ∀ slot, s'.table.itemVec slot ≠ 0 → s'.position slot = s.position slot :=
    fun slot hslot => by rw [htable]; exact if_pos (hslots slot hslot)
  refine ⟨htail ▸ h.tail_lt, fun slot => ?_, fun slot hslot => ?_, fun slot hslot => ?_,
    fun slot hslot => ?_, fun slot hslot => ?_, fun slot slot' hslot hslot' heq => ?_⟩
  · by_cases hslot : s'.table.itemVec slot = 0
    · rw [hslot]
      exact Nat.two_pow_pos 64
    · exact hslots slot hslot ▸ h.itemVec_lt slot
  · exact h.bucket slot (hslots slot hslot ▸ hslot)
  · rw [hposition slot hslot, htail]
    exact h.position_lt slot (hslots slot hslot ▸ hslot)
  · rw [hposition slot hslot, offsetAt, hslots slot hslot]
    exact h.offset slot (hslots slot hslot ▸ hslot)
  · rw [hposition slot hslot, htail]
    exact h.passed slot (hslots slot hslot ▸ hslot)
  · rw [hposition slot hslot, hposition slot' hslot'] at heq
    exact h.distinct slot slot' (hslots slot hslot ▸ hslot) (hslots slot' hslot' ▸ hslot') heq

theorem Swept.appends (heviction : cfg.kEviction = true) (hb : 1 ≤ cfg.logNumBuckets)
    (happends : s.table.Appends s'.table) (hbound : s'.table.pool.tail < 2 ^ 63) : s'.Swept := by
  obtain ⟨n, _, slot, tag, _, hbucket, _, _, htail, hslots, hclean, hprunes⟩ := happends
  have hsize := z.le_size
  have hsizeLe := z.size_le
  have hold := h.tail_lt
  have hsum : (s.table.pool.tail + (n + 8)) % 2 ^ 64 = s.table.pool.tail + (n + 8) :=
    mod_eq_of_lt (by omega)
  rw [hsum] at htail hclean
  have hall := hprunes.trans (Prunes.cleanupBucket hclean)
  have htail' : s'.table.pool.tail = s.table.pool.tail + (n + 8) := by rw [hall.pool, htail]
  -- an item of the new table is one of the old table, or the new one
  have hcases : ∀ slot', s'.table.itemVec slot' ≠ 0 →
      (s'.table.itemVec slot' = s.table.itemVec slot' ∧ s'.position slot' = s.position slot') ∨
        slot' = slot ∧ s'.table.itemVec slot' = makeItemVec tag (s.table.pool.tail % 2 ^ 48) ∧
          s'.position slot' = s.table.pool.tail := by
    intro slot' hslot'
    by_cases hsame : s'.table.itemVec slot' = s.table.itemVec slot'
    · exact .inl ⟨hsame, by rw [htable]; exact if_pos hsame⟩
    · have hvec := hall.slots slot' hslot'
      obtain hkept | ⟨heq, hnew⟩ := hslots slot'
      · exact absurd (hvec.trans hkept) hsame
      · exact .inr ⟨heq, hvec.trans hnew, by rw [htable]; exact if_neg hsame⟩
  have hoffset : s.table.pool.tail % 2 ^ 48 < 2 ^ 48 := Nat.mod_lt _ (Nat.two_pow_pos 48)
  refine ⟨hbound, fun slot' => ?_, fun slot' hslot' => ?_, fun slot' hslot' => ?_,
    fun slot' hslot' => ?_, fun slot' hslot' k hk hlt hle => ?_,
    fun slot₁ slot₂ hslot₁ hslot₂ heq => ?_⟩
  · by_cases hslot' : s'.table.itemVec slot' = 0
    · rw [hslot']
      exact Nat.two_pow_pos 64
    · obtain ⟨hsame, -⟩ | ⟨-, hnew, -⟩ := hcases slot' hslot'
      · exact hsame ▸ h.itemVec_lt slot'
      · rw [hnew, makeItemVec_eq hoffset]
        omega
  · obtain ⟨hsame, -⟩ | ⟨rfl, -⟩ := hcases slot' hslot'
    · exact h.bucket slot' (hsame ▸ hslot')
    · exact hbucket
  · obtain ⟨hsame, hposition⟩ | ⟨-, -, hposition⟩ := hcases slot' hslot'
    · have hlt := h.position_lt slot' (hsame ▸ hslot')
      omega
    · omega
  · obtain ⟨hsame, hposition⟩ | ⟨-, hnew, hposition⟩ := hcases slot' hslot'
    · rw [offsetAt, hsame, hposition]
      exact h.offset slot' (hsame ▸ hslot')
    · rw [offsetAt, hnew, hposition, getItemOffset_makeItemVec hoffset]
  · obtain ⟨hsame, hposition⟩ | ⟨-, -, hposition⟩ := hcases slot' hslot'
    · have hslot : s.table.itemVec slot' ≠ 0 := hsame ▸ hslot'
      rw [hposition] at hlt ⊢
      by_cases hbefore : (k + 1) * cfg.stretch ≤ s.table.pool.tail
      · exact h.passed slot' hslot k hk hlt hbefore
      · -- the bucket was swept just now, so the item is valid
        have hvalid := (cleanupBucket_valid heviction hb (by omega) (by omega) hclean
          (by omega) (htail' ▸ hle)).prunes hprunes slot' hk.symm hslot'
        have hrecent := h.tail_lt_position hslot
        have hmod := h.offset slot' hslot
        rw [offsetAt, getItemOffset_eq_mod] at hmod
        rw [isValid_iff_of_recent _ (hsame ▸ h.itemVec_lt slot') (hsame ▸ hmod) (by omega) hbound
          (by omega)] at hvalid
        omega
    · rw [hposition]
      omega
  · -- the new item is the only one at the old tail
    obtain ⟨hsame₁, hposition₁⟩ | ⟨rfl, -, hposition₁⟩ := hcases slot₁ hslot₁
    · have hlt₁ := h.position_lt slot₁ (hsame₁ ▸ hslot₁)
      obtain ⟨hsame₂, hposition₂⟩ | ⟨-, -, hposition₂⟩ := hcases slot₂ hslot₂
      · rw [hposition₁, hposition₂] at heq
        exact h.distinct slot₁ slot₂ (hsame₁ ▸ hslot₁) (hsame₂ ▸ hslot₂) heq
      · omega
    · obtain ⟨hsame₂, hposition₂⟩ | ⟨rfl, -⟩ := hcases slot₂ hslot₂
      · have hlt₂ := h.position_lt slot₂ (hsame₂ ▸ hslot₂)
        omega
      · rfl

end Step

theorem Reachable.swept (heviction : cfg.kEviction = true) (hb : 1 ≤ cfg.logNumBuckets)
    (h : s.Reachable) : s.Swept := by
  induction h with
  | start pool => exact Swept.start pool
  | step _ hbounded hreset hstep htail ih =>
    obtain ⟨⟨_, _⟩, hcall, hstep⟩ := bind_eq_ok.mp hstep
    cases hstep
    obtain hstays | happends := call_stays_or_appends heviction hbounded hreset hcall
    · exact ih.stays rfl hstays
    · exact ih.appends rfl heviction hb happends htail

/-- **Stale items are swept before offsets wrap around**: an item in the index was appended less
than `2 ^ 48` bytes ago, so that `is_valid` tells whether it was appended at most `size_` bytes
ago, and an item that it accepts shares no place with what was appended later. -/
theorem swept_before_wrap (heviction : cfg.kEviction = true) (hb : 1 ≤ cfg.logNumBuckets)
    (h : s.Reachable) {slot : Slot cfg} (hslot : s.table.itemVec slot ≠ 0) :
    s.position slot < s.table.pool.tail ∧ s.table.offsetAt slot = s.position slot % 2 ^ 48 ∧
      s.table.pool.tail - s.position slot < 2 ^ 48 ∧
      (isValid s.table.pool (s.table.offsetAt slot) = true ↔
        s.table.pool.tail - s.position slot ≤ z.size) ∧
      (isValid s.table.pool (s.table.offsetAt slot) = true →
        ∀ x y, s.position slot ≤ x → x < y → y < s.table.pool.tail → x % z.size ≠ y % z.size) := by
  have hswept := h.swept heviction hb
  have hposition := hswept.position_lt slot hslot
  have hoffset := hswept.offset slot hslot
  have hrecent := hswept.tail_lt_position hslot
  have hsize := z.size_le
  have hvalid := isValid_iff_of_recent s.table.pool
    ((getItemOffset_lt (s.table.itemVec slot)).trans (by decide))
    (by rw [← offsetAt, hoffset, mod_mod]) (le_of_lt hposition) hswept.tail_lt
    (by omega)
  refine ⟨hposition, hoffset, by omega, hvalid.trans (by omega), fun haccepted x y hx hxy hy => ?_⟩
  have hfresh := hvalid.mp haccepted
  exact Memory.mod_ne_of_lt hxy (by omega)

/-- Two buckets, with eviction. -/
def twoBuckets : TableConfig := { oneBucket with logNumBuckets := 1, logNumBuckets_le := by decide }

/-- The first slot that is used, and the tail, after a key was set. -/
def afterSet : Except Fault (Tracked twoBuckets ⟨21, smallLog_minimum, smallLog_maximum⟩) → Bool
  | .ok s => decide (s.table.itemVec ⟨0, 0, by decide⟩ ≠ 0 ∧ s.table.pool.tail < 2 ^ 63)
  | .error _ => false

/-- An item in a log that has not wrapped around. -/
theorem swept_before_wrap_set : ∃ s : Tracked twoBuckets ⟨21, by decide, by decide⟩, ∃ slot,
    s.table.itemVec slot ≠ 0 ∧ s.table.pool.tail - s.position slot < 2 ^ 48 := by
  have hset : afterSet ((start smallLog).step (.set 1 (filled 1) 8 (filled 7) 8 false)) = true := by
    decide +kernel
  cases hstep : (start smallLog : Tracked twoBuckets _).step
      (.set 1 (filled 1) 8 (filled 7) 8 false) with
  | error =>
    rw [hstep] at hset
    cases hset
  | ok s =>
    rw [hstep] at hset
    obtain ⟨hslot, htail⟩ := of_decide_eq_true hset
    have hbounded : (Call.set 1 (filled 1) 8 (filled 7) 8 false).Bounded := ⟨by decide, by decide⟩
    have hreachable := (Reachable.start smallLog).step hbounded (by intro h; cases h) hstep htail
    exact ⟨s, _, hslot, (swept_before_wrap rfl (by decide) hreachable hslot).2.2.1⟩

/-! ## The item that is evicted -/

theorem distance_eq {t : LTable cfg (CircularLog z)} {i : Fin cfg.kBucketSize} {position : Nat}
    (hoffset : t.offsetAt ⟨b, i⟩ = position % 2 ^ 48) (hle : position ≤ t.pool.tail) :
    t.distance b i = (t.pool.tail - position) % z.size := by
  have hdvd : z.size ∣ 2 ^ 48 := pow_dvd_pow 2 (z.maximum.trans (by decide))
  have hmod : sub64 t.pool.tail (position % 2 ^ 48) % 2 ^ 48 =
      (t.pool.tail - position) % 2 ^ 48 := by
    unfold sub64
    omega
  rw [distance, hoffset, ← mod_mod_of_dvd _ hdvd, hmod, mod_mod_of_dvd _ hdvd]

/-- The slot that is taken is empty or, if none is, has the item that was appended first. -/
def TakesOldest (s : Tracked cfg z) (b : Nat) : Prop :=
  ∃ i, s.table.getEmptyOrOldest b = .ok ⟨b, i⟩ ∧ (s.table.itemVec ⟨b, i⟩ = 0 ∨
    ∀ j, s.table.itemVec ⟨b, j⟩ ≠ 0 ∧ s.position ⟨b, i⟩ ≤ s.position ⟨b, j⟩)

/-- How many bytes were appended since the item of the slot was. -/
def age (s : Tracked cfg z) (slot : Slot cfg) : Nat := s.table.pool.tail - s.position slot

/-- The items of the bucket were appended at their positions, one after another. -/
structure Placed (s : Tracked cfg z) (b : Nat) : Prop where
  offset : ∀ i, s.table.itemVec ⟨b, i⟩ ≠ 0 →
    s.table.offsetAt ⟨b, i⟩ = s.position ⟨b, i⟩ % 2 ^ 48
  le_tail : ∀ i, s.table.itemVec ⟨b, i⟩ ≠ 0 → s.position ⟨b, i⟩ ≤ s.table.pool.tail
  distinct : ∀ i j, s.table.itemVec ⟨b, i⟩ ≠ 0 → s.table.itemVec ⟨b, j⟩ ≠ 0 →
    s.position ⟨b, i⟩ = s.position ⟨b, j⟩ → i = j

theorem Swept.placed (h : s.Swept) (b : Nat) : s.Placed b where
  offset _ hi := h.offset _ hi
  le_tail _ hi := (h.position_lt _ hi).le
  distinct i j hi hj heq := by
    have hslot := h.distinct ⟨b, i⟩ ⟨b, j⟩ hi hj heq
    cases hslot
    rfl

/-- The first of the least elements, compared with each of the others. -/
theorem mem_argmin_finRange {n : Nat} {f : Fin n → Nat} {i : Fin n} :
    i ∈ (List.finRange n).argmin f ↔ ∀ j ≠ i, f i < f j ∨ f i = f j ∧ i < j := by
  rw [List.mem_argmin_iff]
  simp only [List.mem_finRange, true_and, forall_const, List.idxOf_finRange]
  constructor
  · rintro ⟨hle, hfirst⟩ j hj
    rcases (hle j).lt_or_eq with hlt | heq
    · exact .inl hlt
    · exact .inr ⟨heq, lt_of_le_of_ne (hfirst j heq.ge) hj.symm⟩
  · intro h
    have hcases : ∀ j, j = i ∨ f i < f j ∨ f i = f j ∧ i < j := fun j =>
      (eq_or_ne j i).imp_right (h j)
    refine ⟨fun j => ?_, fun j hj => ?_⟩
    · rcases hcases j with rfl | hlt | ⟨heq, -⟩
      exacts [le_refl _, hlt.le, heq.le]
    · rcases hcases j with rfl | hlt | ⟨-, hlt⟩
      exacts [le_refl _, absurd hlt hj.not_gt, hlt.le]

/-- Behind the tail of the log, which wraps around, the oldest item of the bucket comes before the
others: it is older than each of them by so many bytes that it was passed more often. -/
def OldestFirst (s : Tracked cfg z) (b : Nat) : Prop :=
  ∃ o, ∀ j ≠ o, s.age ⟨b, j⟩ < s.age ⟨b, o⟩ ∧
    (s.age ⟨b, o⟩ % z.size < s.age ⟨b, j⟩ % z.size ∨
      s.age ⟨b, o⟩ % z.size = s.age ⟨b, j⟩ % z.size ∧ o < j)

theorem takesOldest_iff_oldestFirst (heviction : cfg.kEviction = true) (hplaced : s.Placed b) :
    s.TakesOldest b ↔ (∃ i, s.table.itemVec ⟨b, i⟩ = 0) ∨ s.OldestFirst b := by
  obtain ⟨i, hi, hempty | ⟨hfull, hmin⟩⟩ := getEmptyOrOldest_eq heviction s.table b
  · exact iff_of_true ⟨i, hi, .inl hempty⟩ (.inl ⟨i, hempty⟩)
  · have hdistance : s.table.distance b = fun j => s.age ⟨b, j⟩ % z.size := funext fun j =>
      distance_eq (hplaced.offset j (hfull j)) (hplaced.le_tail j (hfull j))
    rw [hdistance] at hmin
    have hages := fun j => hplaced.le_tail j (hfull j)
    constructor
    · rintro ⟨i', hi', hzero | hfirst⟩
      · exact absurd hzero (hfull i')
      · cases hi.symm.trans hi'
        refine .inr ⟨i, fun j hj => ⟨?_, mem_argmin_finRange.mp hmin j hj⟩⟩
        have hne : s.position ⟨b, j⟩ ≠ s.position ⟨b, i⟩ := fun heq =>
          hj (hplaced.distinct j i (hfull j) (hfull i) heq)
        have hle := (hfirst j).2
        have hj' := hages j
        unfold age
        omega
    · rintro (⟨j, hj⟩ | ⟨o, hoften⟩)
      · exact absurd hj (hfull j)
      · have hmin' : o ∈ (List.finRange cfg.kBucketSize).argmin fun j =>
            s.age ⟨b, j⟩ % z.size := mem_argmin_finRange.mpr fun j hj => (hoften j hj).2
        cases Option.mem_unique hmin hmin'
        refine ⟨i, hi, .inr fun j => ⟨hfull j, ?_⟩⟩
        rcases eq_or_ne j i with rfl | hj
        · exact le_refl _
        · have hlt := (hoften j hj).1
          have hi' := hages i
          unfold age at hlt
          omega

/-- **Which item is evicted** from a bucket without an empty slot: the one that is the least far
behind the tail, modulo the size of the log.  It is the oldest one just if the log has wrapped
around between that item and all others.  While all items are still in the log, the newest one is
evicted, so that it is the oldest one only in a bucket of one slot. -/
theorem takesOldest_iff (heviction : cfg.kEviction = true) (s : Tracked cfg z) (b : Nat)
    (hplaced : s.Placed b) :
    (s.TakesOldest b ↔ (∃ i, s.table.itemVec ⟨b, i⟩ = 0) ∨ s.OldestFirst b) ∧
    ((∀ i, s.age ⟨b, i⟩ < z.size) →
      (s.TakesOldest b ↔ (∃ i, s.table.itemVec ⟨b, i⟩ = 0) ∨ cfg.kBucketSize = 1)) := by
  refine ⟨takesOldest_iff_oldestFirst heviction hplaced, fun hrecent => ?_⟩
  rw [takesOldest_iff_oldestFirst heviction hplaced]
  refine or_congr_right ⟨fun ⟨o, hoften⟩ => ?_, fun hone => ?_⟩
  · -- two items in one round of the log stand in the order of their ages
    by_contra hmore
    have hpos := cfg.kBucketSize_pos
    have : Nontrivial (Fin cfg.kBucketSize) := Fin.nontrivial_iff_two_le.mpr (by omega)
    obtain ⟨j, hj⟩ := exists_ne o
    obtain ⟨holder, hbehind⟩ := hoften j hj
    rw [mod_eq_of_lt (hrecent o), mod_eq_of_lt (hrecent j)] at hbehind
    omega
  · refine ⟨⟨0, cfg.kBucketSize_pos⟩, fun j hj => absurd (Fin.ext ?_) hj⟩
    have hlt := j.isLt
    change (j : Nat) = 0
    omega

/-- A step that leaves the tail below its bound. -/
def boundedStep (s : Tracked cfg z) (call : Call) : Option (Tracked cfg z) :=
  (s.step call).toOption.filter fun s' => s'.table.pool.tail < 2 ^ 63

theorem Reachable.steps {calls : List Call} (h : s.Reachable)
    (hcalls : ∀ call ∈ calls, call.Bounded ∧ call ≠ .reset)
    (hrun : calls.foldlM boundedStep s = some s') : s'.Reachable := by
  induction calls generalizing s with
  | nil =>
    cases hrun
    exact h
  | cons call _ ih =>
    obtain ⟨_, hstep, hrun⟩ := Option.bind_eq_some_iff.mp hrun
    obtain ⟨hstep, htail⟩ := Option.filter_eq_some_iff.mp hstep
    obtain ⟨hbounded, hreset⟩ := hcalls call List.mem_cons_self
    refine ih (h.step hbounded hreset ?_ (of_decide_eq_true htail))
      (fun c hc => hcalls c (List.mem_cons_of_mem _ hc)) hrun
    cases hresult : s.step call with
    | error =>
      rw [hresult] at hstep
      cases hstep
    | ok =>
      rw [hresult] at hstep
      cases hstep
      rfl

/-- Seven keys are set in one bucket. -/
def sevenSets : List Call :=
  (List.range 7).map fun i => Call.set (i + 1) (filled 1) 8 (filled 7) 8 false

theorem reachable_sevenSets {s : Tracked twoBuckets ⟨21, smallLog_minimum, smallLog_maximum⟩}
    (hsteps : sevenSets.foldlM boundedStep (start smallLog) = some s) : s.Reachable :=
  (Reachable.start smallLog).steps (fun call hcall => by
    obtain ⟨i, -, rfl⟩ := List.mem_map.mp hcall
    exact ⟨⟨by decide, by decide⟩, nofun⟩) hsteps

/-- In a full bucket with items that are all in the log, the oldest one is not taken. -/
theorem takesOldest_sevenSets : ∃ s : Tracked twoBuckets ⟨21, smallLog_minimum, smallLog_maximum⟩,
    s.Reachable ∧ (∀ i, s.table.itemVec ⟨0, i⟩ ≠ 0) ∧ (∀ i, s.age ⟨0, i⟩ < 2 ^ 21) ∧
      ¬ s.TakesOldest 0 := by
  have hrun : ((sevenSets.foldlM boundedStep (start smallLog : Tracked twoBuckets _)).any fun s =>
      decide ((∀ i, s.table.itemVec ⟨0, i⟩ ≠ 0) ∧ ∀ i, s.age ⟨0, i⟩ < 2 ^ 21)) = true := by
    decide +kernel
  obtain ⟨s, hsteps, hs⟩ := (Option.any_eq_true _ _).mp hrun
  obtain ⟨hfull, hrecent⟩ := of_decide_eq_true hs
  have hreachable := reachable_sevenSets hsteps
  have hplaced := (hreachable.swept rfl (by decide)).placed 0
  refine ⟨s, hreachable, hfull, hrecent, fun htakes => ?_⟩
  rcases ((takesOldest_iff rfl s 0 hplaced).2 hrecent).mp htakes with ⟨i, hi⟩ | hone
  · exact hfull i hi
  · exact absurd hone (by decide)

/-- A bucket with seven items: the next one takes the slot of the last. -/
theorem newest_evicted :
    ¬ ∀ s : Tracked twoBuckets ⟨21, smallLog_minimum, smallLog_maximum⟩, s.Reachable →
      ∀ b < twoBuckets.numBuckets, s.TakesOldest b := by
  intro h
  have hrun : ((sevenSets.foldlM boundedStep (start smallLog : Tracked twoBuckets _)).any fun s =>
      decide (s.table.getEmptyOrOldest 0 = .ok ⟨0, 6, by decide⟩ ∧
        s.table.itemVec ⟨0, 6, by decide⟩ ≠ 0 ∧
        s.position ⟨0, 0, by decide⟩ < s.position ⟨0, 6, by decide⟩)) = true := by
    decide +kernel
  obtain ⟨s, hsteps, hs⟩ := (Option.any_eq_true _ _).mp hrun
  obtain ⟨htaken, hslot, hlater⟩ := of_decide_eq_true hs
  obtain ⟨i, hi, hempty | hfirst⟩ := h s (reachable_sevenSets hsteps) 0 (by decide)
  · cases htaken.symm.trans hi
    exact hslot hempty
  · cases htaken.symm.trans hi
    exact absurd (hfirst ⟨0, by decide⟩).2 (Nat.not_le_of_lt hlater)

end Tracked

end Testbed.Mica
