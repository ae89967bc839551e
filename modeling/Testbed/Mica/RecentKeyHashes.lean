import Mathlib.Logic.Function.Basic
import Testbed.Lib.RecencyLists

/-! # Recent key hashes

`is_recent_key_hash` and `update_recent_key_hash` of `Partitions`, for one lcore: an array of
buckets, each with the 16-bit tags of some key hashes.  The search of an update ends before the
last way of the bucket, so a tag that is found there is handled as one that is not found.
-/
namespace Testbed.Mica

open List Lib

/-- `kRecentKeyHashBuckets` and `kRecentKeyHashAssociativity`. -/
structure RecentKeyHashes where
  buckets : Nat
  associativity : Nat
  associativity_pos : 0 < associativity

namespace RecentKeyHashes
variable (cfg : RecentKeyHashes) (v : Nat → UInt16) (keyHash : UInt64) (b : Nat)

/-- The upper half of a key hash picks its bucket. -/
def bucketOf : Nat :=
  keyHash.toNat >>> 32 &&& (cfg.buckets - 1)

def index : Nat :=
  cfg.bucketOf keyHash * cfg.associativity

/-- `is_recent_key_hash`, for the array of an lcore. -/
def isRecentKeyHash : Bool :=
  if cfg.associativity = 1 then v (cfg.index keyHash) == keyHash.toUInt16
  else (range cfg.associativity).any fun i => v (cfg.index keyHash + i) == keyHash.toUInt16

/-- Shift key hashes to the right by 1 slot. -/
def shift (index : Nat) : Nat → (Nat → UInt16) → Nat → UInt16
  | 0, v => v
  | j + 1, v => shift index j (Function.update v (index + (j + 1)) (v (index + j)))

/-- `update_recent_key_hash`. -/
def updateRecentKeyHash : Nat → UInt16 :=
  let index := cfg.index keyHash
  let tag := keyHash.toUInt16
  if v index = tag then v
  else
    -- the search ends before the last way, whether the tag is there or not
    let i := 1 + (range (cfg.associativity - 2)).findIdx fun i => v (index + (1 + i)) == tag
    Function.update (if 1 < cfg.associativity then shift index i v else v) index tag

/-- The ways of a bucket. -/
def bucket : List UInt16 :=
  (range cfg.associativity).map fun i => v (b * cfg.associativity + i)

theorem getElem?_bucket (i : Nat) : (cfg.bucket v b)[i]? =
    if i < cfg.associativity then some (v (b * cfg.associativity + i)) else none := by
  split_ifs with hi <;> simp [bucket, hi]

theorem shift_apply (index i x : Nat) :
    shift index i v x = if index < x ∧ x ≤ index + i then v (x - 1) else v x := by
  induction i generalizing v with
  | zero => rw [if_neg (by omega), shift]
  | succ i ih =>
    rw [shift, ih, Function.update_apply, Function.update_apply]
    grind

/-- The search, up to the last way, ends at the tag or at the last way. -/
theorem search_eq {f : Nat → Bool} (hf : f 0 = false) (n : Nat) :
    1 + (range n).findIdx (fun i => f (1 + i)) = min (n + 1) ((range (n + 2)).findIdx f) := by
  have hrest : (range (n + 2)).findIdx f = 1 + (range (n + 1)).findIdx fun i => f (1 + i) := by
    rw [range_succ_eq_map, findIdx_cons, hf, findIdx_map]
    simp [Function.comp_def, Nat.add_comm]
  have hlast : (range n).findIdx (fun i => f (1 + i)) =
      min n ((range (n + 1)).findIdx fun i => f (1 + i)) := by
    rw [← findIdx_take, take_range, Nat.min_eq_left n.le_succ]
  omega

theorem updateRecentKeyHash_eq : cfg.updateRecentKeyHash v keyHash =
      Function.update (shift (cfg.index keyHash) (min (cfg.associativity - 1)
        ((cfg.bucket v (cfg.bucketOf keyHash)).idxOf keyHash.toUInt16)) v)
        (cfg.index keyHash) keyHash.toUInt16 := by
  unfold bucket updateRecentKeyHash idxOf index
  rw [findIdx_map]
  generalize cfg.bucketOf keyHash * cfg.associativity = index
  generalize keyHash.toUInt16 = tag
  obtain ⟨n, hn⟩ := Nat.exists_eq_add_one.mpr cfg.associativity_pos
  rw [hn]
  by_cases hfirst : v index = tag
  · subst hfirst
    simp [range_succ_eq_map, findIdx_cons, shift]
  · rw [if_neg hfirst]
    cases n with
    | zero => simp [shift]
    | succ n =>
      have hsearch := search_eq (f := fun i => v (index + i) == tag) (by simpa using hfirst) n
      dsimp only
      rw [if_pos (by omega)]
      exact congrArg (fun i => Function.update (shift index i v) index tag) hsearch

/-- **An update** makes the tag the most recent one of its bucket. -/
theorem bucket_updateRecentKeyHash : cfg.bucket (cfg.updateRecentKeyHash v keyHash) b =
    if cfg.bucketOf keyHash = b then touch cfg.associativity (cfg.bucket v b) keyHash.toUInt16
    else cfg.bucket v b := by
  have hpos := cfg.associativity_pos
  refine ext_getElem? fun j => ?_
  rw [updateRecentKeyHash_eq, getElem?_bucket, index]
  by_cases hj : j < cfg.associativity
  · rw [if_pos hj]
    split_ifs with hb
    · subst hb
      rw [touch, ← eraseIdx_idxOf_eq_erase, getElem?_take, if_pos hj]
      generalize (cfg.bucket v (cfg.bucketOf keyHash)).idxOf _ = k
      cases j with
      | zero => simp
      | succ j =>
        rw [getElem?_cons_succ, getElem?_eraseIdx, getElem?_bucket, getElem?_bucket,
          Function.update_of_ne (by omega), shift_apply]
        grind
    · have hapart : b * cfg.associativity + j < cfg.bucketOf keyHash * cfg.associativity ∨
          (cfg.bucketOf keyHash + 1) * cfg.associativity ≤ b * cfg.associativity + j := by
        rcases Nat.lt_or_gt_of_ne hb with hlt | hlt
        · exact .inr (Nat.le_trans (Nat.mul_le_mul_right _ hlt) (Nat.le_add_right ..))
        · have hle := Nat.mul_le_mul_right cfg.associativity hlt
          rw [Nat.succ_mul] at hle
          omega
      rw [Nat.succ_mul] at hapart
      rw [getElem?_bucket, if_pos hj, Function.update_of_ne (by omega), shift_apply,
        if_neg (by omega)]
  · rw [if_neg hj]
    split_ifs
    · rw [touch, getElem?_take, if_neg hj]
    · rw [getElem?_bucket, if_neg hj]

/-- The most recent tags of a bucket; entries that are missing are zero. -/
def recentTags (updates : List UInt64) : List UInt16 :=
  ((updates.filter fun keyHash => cfg.bucketOf keyHash = b).map UInt64.toUInt16).dedup.reverse ++
    replicate cfg.associativity 0

/-- **The filter is an LRU set.**  After any updates of the empty array every bucket holds the
most recent distinct tags of its own updates, the latest first, and a lookup finds just the tags
that its bucket holds. -/
theorem recent_key_hashes (cfg : RecentKeyHashes) (updates : List UInt64) :
    let v := updates.foldl cfg.updateRecentKeyHash fun _ => 0
    (∀ b, cfg.bucket v b = (cfg.recentTags b updates).take cfg.associativity) ∧
      ∀ keyHash, cfg.isRecentKeyHash v keyHash = true ↔ keyHash.toUInt16 ∈
        (cfg.recentTags (cfg.bucketOf keyHash) updates).take cfg.associativity := by
  have hbucket (b : Nat) : cfg.bucket (updates.foldl cfg.updateRecentKeyHash fun _ => 0) b =
      (cfg.recentTags b updates).take cfg.associativity := by
    rw [recentTags, ← foldl_touch]
    induction updates using reverseRecOn with
    | nil => simp [bucket]
    | append_singleton updates keyHash ih =>
      rw [foldl_append, foldl_cons, foldl_nil, bucket_updateRecentKeyHash, ih, filter_append,
        map_append, foldl_append]
      split_ifs with hb <;> simp [hb]
  refine ⟨hbucket, fun keyHash => ?_⟩
  rw [← hbucket, isRecentKeyHash, bucket]
  split_ifs with hways
  · simp [hways, index]
    exact eq_comm
  · simp [index]

end RecentKeyHashes

end Testbed.Mica
