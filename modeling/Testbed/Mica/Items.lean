import Testbed.Mica.LTable

/-! # Items and the words that name them

What is packed into an `item_vec` or a `kv_length_vec` comes out again, and what `set_item`
writes to a region of a pool is read back from there: the lengths, the hash, and as many bytes
of the key and the value as `memcpy<8>` copies.  The bytes between, up to the next multiple of
eight, are those that were in the pool before.
-/
namespace Testbed.Mica

open Lib Nat List Pool Memory

/-! ## Lengths -/

theorem le_roundup8 (n : Nat) : n ≤ roundup8 n := by
  unfold roundup8
  omega

theorem roundup8_lt (n : Nat) : roundup8 n < n + 8 := by
  unfold roundup8
  omega

theorem dvd_roundup8 (n : Nat) : 8 ∣ roundup8 n := dvd_mul_left 8 _

variable {n : Nat}

theorem roundup8_of_dvd (h : 8 ∣ n) : roundup8 n = n := by
  unfold roundup8
  omega

theorem spanned_le (n : Nat) : spanned n ≤ n := by
  unfold spanned
  split <;> omega

theorem spanned_of_dvd (h : 8 ∣ n) : spanned n = n := by
  unfold spanned
  split <;> omega

theorem memcmpEqual8_iff {a b : Buffer} :
    memcmpEqual8 a b n = true ↔ ∀ i < spanned n, a i = b i := by
  simp [memcmpEqual8, all_eq_true, mem_range, beq_iff_eq]

/-- Keys are compared with their padding. -/
theorem compareKeys_iff {key₁ key₂ : Buffer} {keyLength₁ keyLength₂ : Nat} :
    compareKeys key₁ keyLength₁ key₂ keyLength₂ = true ↔
      keyLength₁ = keyLength₂ ∧ ∀ i < roundup8 keyLength₂, key₁ i = key₂ i := by
  rw [compareKeys, Bool.and_eq_true, beq_iff_eq, memcmpEqual8_iff,
    spanned_of_dvd (dvd_roundup8 keyLength₁)]
  exact and_congr_right fun h => by rw [h]

/-- Sizes in the range of the table do not wrap around. -/
theorem itemSize_eq {keyLength valueLength : Nat} (hkey : keyLength ≤ kMaxKeyLength)
    (hvalue : valueLength ≤ kMaxValueLength) :
    itemSize keyLength valueLength = kItemSize + roundup8 keyLength + roundup8 valueLength := by
  have hkeyLength := roundup8_lt keyLength
  have hvalueLength := roundup8_lt valueLength
  unfold kMaxKeyLength at hkey
  unfold kMaxValueLength at hvalue
  exact mod_eq_of_lt (by unfold kItemSize; omega)

theorem itemSize_lt {keyLength valueLength : Nat} (hkey : keyLength ≤ kMaxKeyLength)
    (hvalue : valueLength ≤ kMaxValueLength) : itemSize keyLength valueLength < 2 ^ 20 + 512 := by
  have hkeyLength := roundup8_lt keyLength
  have hvalueLength := roundup8_lt valueLength
  rw [itemSize_eq hkey hvalue]
  unfold kMaxKeyLength at hkey
  unfold kMaxValueLength at hvalue
  unfold kItemSize
  omega

theorem dvd_itemSize (keyLength valueLength : Nat) : 8 ∣ itemSize keyLength valueLength := by
  have hkey := dvd_roundup8 keyLength
  have hvalue := dvd_roundup8 valueLength
  unfold itemSize kItemSize
  omega

/-! ## Packed words -/

variable (itemVec : Nat)

theorem getItemOffset_eq_mod : getItemOffset itemVec = itemVec % 2 ^ 48 :=
  and_two_pow_sub_one_eq_mod itemVec 48

theorem getTag_eq_div : getTag itemVec = itemVec / 2 ^ 48 % 2 ^ 16 := by
  rw [getTag, shiftRight_eq_div_pow]

theorem getTag_lt : getTag itemVec < 2 ^ 16 := Nat.mod_lt _ (Nat.two_pow_pos 16)

theorem getItemOffset_lt : getItemOffset itemVec < 2 ^ 48 := by
  rw [getItemOffset_eq_mod]
  exact Nat.mod_lt _ (Nat.two_pow_pos 48)

section
variable {tag offset : Nat}

theorem makeItemVec_eq (hoffset : offset < 2 ^ 48) :
    makeItemVec tag offset = tag * 2 ^ 48 + offset := by
  rw [makeItemVec, ← shiftLeft_add_eq_or_of_lt hoffset, shiftLeft_eq]

theorem getItemOffset_makeItemVec (hoffset : offset < 2 ^ 48) :
    getItemOffset (makeItemVec tag offset) = offset := by
  rw [getItemOffset_eq_mod, makeItemVec_eq hoffset]
  omega

theorem getTag_makeItemVec (htag : tag < 2 ^ 16) (hoffset : offset < 2 ^ 48) :
    getTag (makeItemVec tag offset) = tag := by
  rw [getTag_eq_div, makeItemVec_eq hoffset]
  omega

theorem makeItemVec_ne_zero (htag : 0 < tag) (hoffset : offset < 2 ^ 48) :
    makeItemVec tag offset ≠ 0 := by
  rw [makeItemVec_eq hoffset]
  omega

end

theorem calcTag_pos (keyHash : Nat) : 0 < calcTag keyHash := by
  unfold calcTag
  dsimp only
  split <;> omega

theorem calcTag_lt (keyHash : Nat) : calcTag keyHash < 2 ^ 16 := by
  unfold calcTag
  dsimp only
  split <;> omega

theorem makeKvLengthVec_lt (keyLength valueLength : Nat) :
    makeKvLengthVec keyLength valueLength < 2 ^ 32 :=
  Nat.mod_lt _ (Nat.two_pow_pos 32)

section
variable {keyLength valueLength : Nat}

theorem makeKvLengthVec_eq (hkey : keyLength < 2 ^ 8) (hvalue : valueLength < 2 ^ 24) :
    makeKvLengthVec keyLength valueLength = keyLength * 2 ^ 24 + valueLength := by
  rw [makeKvLengthVec, ← shiftLeft_add_eq_or_of_lt hvalue, shiftLeft_eq]
  exact mod_eq_of_lt (by omega)

theorem getKeyLength_makeKvLengthVec (hkey : keyLength < 2 ^ 8) (hvalue : valueLength < 2 ^ 24) :
    getKeyLength (makeKvLengthVec keyLength valueLength) = keyLength := by
  rw [getKeyLength, shiftRight_eq_div_pow, makeKvLengthVec_eq hkey hvalue]
  omega

theorem getValueLength_makeKvLengthVec (hkey : keyLength < 2 ^ 8) (hvalue : valueLength < 2 ^ 24) :
    getValueLength (makeKvLengthVec keyLength valueLength) = valueLength := by
  rw [getValueLength, makeKvLengthVec_eq hkey hvalue]
  omega

theorem lengths_makeKvLengthVec {vec : Nat} (hkey : keyLength ≤ kMaxKeyLength)
    (hvalue : valueLength ≤ kMaxValueLength) (h : vec = makeKvLengthVec keyLength valueLength) :
    getKeyLength vec = keyLength ∧ getValueLength vec = valueLength := by
  unfold kMaxKeyLength at hkey
  unfold kMaxValueLength at hvalue
  rw [h]
  exact ⟨getKeyLength_makeKvLengthVec (by omega) (by omega),
    getValueLength_makeKvLengthVec (by omega) (by omega)⟩

end

/-! ## Pools whose memory can be written -/

/-- A write changes nothing but the memory. -/
class LawfulPool (P : Type) [Pool P] : Prop where
  memory_withMemory : ∀ (p : P) (m : Memory), memory (withMemory p m) = m
  withMemory_withMemory : ∀ (p : P) (m m' : Memory),
    withMemory (withMemory p m) m' = withMemory p m'
  place_withMemory : ∀ (p : P) (m : Memory), place (withMemory p m) = place p

instance CircularLog.lawfulPool {z : LogSize} : LawfulPool (CircularLog z) where
  memory_withMemory _ _ := rfl
  withMemory_withMemory _ _ _ := rfl
  place_withMemory _ _ := rfl

namespace Pool
variable {P : Type} [Pool P]

theorem bytes_add (p : P) (a d i : Nat) : bytes p (a + d) i = bytes p a (d + i) := by
  rw [bytes, bytes, add_assoc]

/-- `p'` is the pool `p` after writes to the `n` bytes from the address `a` on. -/
structure Writes (p p' : P) (a n : Nat) : Prop where
  written : p' = withMemory p (memory p')
  kept : ∀ x, (∀ i < n, place p (a + i) ≠ x) → memory p' x = memory p x

variable [LawfulPool P]

open LawfulPool (memory_withMemory withMemory_withMemory place_withMemory)

namespace Writes
variable {p p' p'' : P} {a n : Nat}

theorem place_eq (h : Writes p p' a n) : place p' = place p := by
  rw [h.written, place_withMemory]

theorem trans (h : Writes p p' a n) (h' : Writes p' p'' a n) : Writes p p'' a n := by
  refine ⟨?_, fun x hx => (h'.kept x ?_).trans (h.kept x hx)⟩
  · rw [h'.written, h.written, withMemory_withMemory, memory_withMemory]
  · rw [h.place_eq]
    exact hx

variable {k w : Nat}

omit [LawfulPool P] in
theorem within {d : Nat} (h : Writes p p' (a + d) k) (hk : d + k ≤ n) : Writes p p' a n := by
  refine ⟨h.written, fun x hx => h.kept x fun i hi => ?_⟩
  rw [add_assoc]
  exact hx (d + i) (by omega)

/-- Other bytes are read as before. -/
theorem load_apart {b : Nat} (h : Writes p p' a n) (hapart : Apart (place p) a n b w) :
    load p' b w = load p b w := by
  unfold load
  rw [h.place_eq]
  exact load_congr fun i hi => h.kept _ fun j hj => hapart j hj i hi

end Writes

section
variable (p : P) (a : Nat)

theorem writes_store (w v : Nat) : Writes p (store p a w v) a w := by
  refine ⟨?_, fun x hx => ?_⟩
  · rw [store, memory_withMemory]
  · rw [store, memory_withMemory]
    exact copy_of_ne hx

theorem writes_memcpy8 (source : Buffer) (n : Nat) :
    Writes p (memcpy8 p a source n) a (spanned n) := by
  refine ⟨?_, fun x hx => ?_⟩
  · rw [memcpy8, memory_withMemory]
  · rw [memcpy8, memory_withMemory]
    exact copy_of_ne hx

variable {p a} {n d i : Nat} (h : Distinct (place p) a n) (hi : i < n)
include h hi

theorem bytes_copy {source : Buffer} (hd : d + k ≤ n) :
    bytes (withMemory p (copy (place p) (memory p) (a + d) source k)) a i =
      if d ≤ i ∧ i < d + k then source (i - d) else bytes p a i := by
  unfold bytes
  rw [memory_withMemory, place_withMemory]
  split
  · rename_i hin
    have hplace : place p (a + i) = place p (a + d + (i - d)) := by congr 1; omega
    rw [hplace]
    exact copy_at (h.shift hd) (by omega)
  · rename_i hout
    refine copy_of_ne fun j hj heq => hout ?_
    have hsame := h (d + j) (by omega) i hi (by rw [← add_assoc]; exact heq)
    omega

theorem bytes_store (hd : d + w ≤ n) : bytes (store p (a + d) w v) a i =
      if d ≤ i ∧ i < d + w then byteOf v (i - d) else bytes p a i :=
  bytes_copy h hi hd

theorem bytes_store_start (hw : w ≤ n) :
    bytes (store p a w v) a i = if i < w then byteOf v i else bytes p a i := by
  have hstore := bytes_store (d := 0) (v := v) h hi (Nat.zero_add w ▸ hw)
  simpa only [Nat.add_zero, Nat.zero_le, true_and, Nat.zero_add, Nat.sub_zero] using hstore

theorem bytes_memcpy8 {source : Buffer} (hd : d + spanned k ≤ n) :
    bytes (memcpy8 p (a + d) source k) a i =
      if d ≤ i ∧ i < d + spanned k then source (i - d) else bytes p a i :=
  bytes_copy h hi hd

omit h hi

@[simp] theorem place_store (w v : Nat) : place (store p a w v) = place p :=
  (writes_store p a w v).place_eq

@[simp] theorem place_memcpy8 (source : Buffer) (n : Nat) :
    place (memcpy8 p a source n) = place p :=
  (writes_memcpy8 p a source n).place_eq

end

end Pool

/-! ## `set_item` -/

section SetItem
variable {P : Type} [Pool P] [LawfulPool P] {p : P} {item keyLength valueLength n : Nat}

/-- The bytes that `set_item` may write. -/
def itemSpan (keyLength valueLength : Nat) : Nat :=
  kItemSize + roundup8 keyLength + spanned valueLength

theorem itemSpan_le_itemSize (hkey : keyLength ≤ kMaxKeyLength)
    (hvalue : valueLength ≤ kMaxValueLength) :
    itemSpan keyLength valueLength ≤ itemSize keyLength valueLength := by
  rw [itemSize_eq hkey hvalue, itemSpan]
  have hspanned := spanned_le valueLength
  have hroundup := le_roundup8 valueLength
  omega

section
variable (p item) (hn : itemSpan keyLength valueLength ≤ n)
include hn

theorem writes_kvLengthVec (v : Nat) : Writes p (store p item 4 v) item n :=
  (writes_store p item 4 v).within (d := 0) (by unfold itemSpan kItemSize at hn; omega)

theorem writes_keyHash (v : Nat) : Writes p (store p (item + 8) 8 v) item n :=
  (writes_store p (item + 8) 8 v).within (by unfold itemSpan kItemSize at hn; omega)

theorem writes_key (key : Buffer) :
    Writes p (memcpy8 p (item + kItemSize) key keyLength) item n := by
  have hkey := (spanned_le keyLength).trans (le_roundup8 keyLength)
  exact (writes_memcpy8 p (item + kItemSize) key keyLength).within (by unfold itemSpan at hn; omega)

theorem writes_value (value : Buffer) :
    Writes p (memcpy8 p (item + kItemSize + roundup8 keyLength) value valueLength)
      item n := by
  rw [add_assoc]
  exact (writes_memcpy8 p _ value valueLength).within hn

end

/-- An item is written inside of its span. -/
theorem writes_setItem (p : P) (item keyHash : Nat) (key value : Buffer)
    (hn : itemSpan keyLength valueLength ≤ n) :
    Writes p (setItem p item keyHash key keyLength value valueLength) item n :=
  ((writes_kvLengthVec p item hn _).trans (writes_keyHash _ item hn _)).trans
    ((writes_key _ item hn key).trans (writes_value _ item hn value))

theorem writes_setItemValue (p : P) (item : Nat) (value : Buffer)
    (hn : itemSpan (getKeyLength (kvLengthVec p item)) valueLength ≤ n) :
    Writes p (setItemValue p item value valueLength) item n :=
  (writes_kvLengthVec p item hn _).trans (writes_value _ item hn value)

/-! ## What is read back -/

section
variable {i : Nat} (hdistinct : Distinct (place p) item n) (hi : i < n)
include hdistinct hi

/-- **The bytes of an item** that `set_item` has written. -/
theorem bytes_setItem (hn : itemSpan keyLength valueLength ≤ n) (keyHash : Nat)
    (key value : Buffer) :
    bytes (setItem p item keyHash key keyLength value valueLength) item i =
      if kItemSize + roundup8 keyLength ≤ i ∧ i < itemSpan keyLength valueLength then
        value (i - (kItemSize + roundup8 keyLength))
      else if kItemSize ≤ i ∧ i < kItemSize + spanned keyLength then key (i - kItemSize)
      else if 8 ≤ i ∧ i < 16 then byteOf keyHash (i - 8)
      else if i < 4 then byteOf (makeKvLengthVec keyLength valueLength) i
      else bytes p item i := by
  have hkey := (spanned_le keyLength).trans (le_roundup8 keyLength)
  have hdata : kItemSize + spanned keyLength ≤ n := by
    unfold itemSpan at hn
    omega
  have hheader := (le_add_right 16 _).trans hdata
  unfold setItem
  rw [add_assoc item, bytes_memcpy8 (n := n) (by simpa using hdistinct) hi hn,
    bytes_memcpy8 (n := n) (by simpa using hdistinct) hi hdata,
    bytes_store (n := n) (by simpa using hdistinct) hi (by omega),
    bytes_store_start hdistinct hi (by omega)]
  rfl

/-- **A value that is set** changes the lengths and the value, and nothing else. -/
theorem bytes_setItemValue (hk : getKeyLength (kvLengthVec p item) = k)
    (hn : itemSpan k valueLength ≤ n) (value : Buffer) :
    bytes (setItemValue p item value valueLength) item i =
      if kItemSize + roundup8 k ≤ i ∧ i < itemSpan k valueLength then
        value (i - (kItemSize + roundup8 k))
      else if i < 4 then byteOf (makeKvLengthVec k valueLength) i
      else bytes p item i := by
  have hheader : 4 ≤ n := by
    unfold itemSpan kItemSize at hn
    omega
  unfold setItemValue
  rw [hk]
  dsimp only
  rw [add_assoc item, bytes_memcpy8 (n := n) (by simpa using hdistinct) hi hn,
    bytes_store_start hdistinct hi hheader]
  rfl

end

end SetItem

/-! ## Items with a key and a value -/

/-- The first bytes of a buffer. -/
def bytesOf (b : Buffer) (n : Nat) : List UInt8 := (List.range n).map b

@[simp] theorem length_bytesOf (b : Buffer) (n : Nat) : (bytesOf b n).length = n := by
  rw [bytesOf, length_map, length_range]

theorem bytesOf_inj {b b' : Buffer} : bytesOf b n = bytesOf b' n ↔ ∀ i < n, b i = b' i := by
  simp [bytesOf, map_inj_left, mem_range]

section Holds
variable {P : Type} [Pool P] {p p' : P} {item : Nat}

theorem kvLengthVec_of_bytes (hv : v < 2 ^ 32)
    (h : ∀ i < 4, bytes p item i = byteOf v i) : kvLengthVec p item = v :=
  (load_of_byteOf h).trans (mod_eq_of_lt hv)

theorem itemKeyHash_of_bytes (hv : v < 2 ^ 64)
    (h : ∀ i < 8, bytes p item (8 + i) = byteOf v i) : itemKeyHash p item = v := by
  refine (load_of_byteOf (v := v) fun i hi => ?_).trans (mod_eq_of_lt hv)
  rw [add_assoc]
  exact h i hi

/-- The item at the address has the hash, the key and the value. -/
structure Holds (p : P) (item keyHash : Nat) (key value : List UInt8) : Prop where
  lengths : kvLengthVec p item = makeKvLengthVec key.length value.length
  hash : itemKeyHash p item = keyHash
  keyBytes : bytesOf (bytes p (item + kItemSize)) key.length = key
  valueBytes : bytesOf (bytes p (item + kItemSize + roundup8 key.length)) value.length = value

variable {keyHash : Nat} {key value : List UInt8}

/-- An item is held where its bytes are. -/
theorem Holds.congr {item' : Nat} (h : Holds p item keyHash key value)
    (hbytes : ∀ i < kItemSize + roundup8 key.length + value.length,
      bytes p' item' i = bytes p item i) : Holds p' item' keyHash key value := by
  have hkey := le_roundup8 key.length
  have hload : ∀ d w, d + w ≤ kItemSize → load p' (item' + d) w = load p (item + d) w := by
    intro d w hw
    refine load_congr fun i hi => ?_
    rw [add_assoc, add_assoc]
    exact hbytes (d + i) (by omega)
  refine ⟨(hload 0 4 (by decide)).trans h.lengths, (hload 8 8 (by decide)).trans h.hash, ?_, ?_⟩
  · refine Eq.trans (bytesOf_inj.mpr fun i hi => ?_) h.keyBytes
    rw [bytes_add, bytes_add]
    exact hbytes (kItemSize + i) (by omega)
  · refine Eq.trans (bytesOf_inj.mpr fun i hi => ?_) h.valueBytes
    rw [add_assoc, add_assoc, bytes_add, bytes_add]
    exact hbytes (kItemSize + roundup8 key.length + i) (by omega)

/-- Lengths that are multiples of eight, within the limits. -/
structure Lengths (keyLength valueLength : Nat) : Prop where
  key_le : keyLength ≤ kMaxKeyLength
  key_dvd : 8 ∣ keyLength
  value_le : valueLength ≤ kMaxValueLength
  value_dvd : 8 ∣ valueLength

variable [LawfulPool P] {n keyLength valueLength : Nat}

section
variable (hdistinct : Distinct (place p) item n)
include hdistinct

theorem kvLengthVec_setItem
    (hn : itemSpan keyLength valueLength ≤ n) (keyHash : Nat) (key value : Buffer) :
    kvLengthVec (setItem p item keyHash key keyLength value valueLength) item =
      makeKvLengthVec keyLength valueLength := by
  have hheader : 16 ≤ n := by
    unfold itemSpan kItemSize at hn
    omega
  refine kvLengthVec_of_bytes (makeKvLengthVec_lt keyLength valueLength) fun i hi => ?_
  rw [bytes_setItem hdistinct (by omega) hn]
  unfold kItemSize
  rw [if_neg (by omega), if_neg (by omega), if_neg (by omega), if_pos hi]

theorem kvLengthVec_setItemValue (hkey : getKeyLength (kvLengthVec p item) = keyLength)
    (hn : itemSpan keyLength valueLength ≤ n) (value : Buffer) :
    kvLengthVec (setItemValue p item value valueLength) item =
      makeKvLengthVec keyLength valueLength := by
  have hheader : 16 ≤ n := by
    unfold itemSpan kItemSize at hn
    omega
  refine kvLengthVec_of_bytes (makeKvLengthVec_lt keyLength valueLength) fun i hi => ?_
  rw [bytes_setItemValue hdistinct (by omega) hkey hn]
  unfold kItemSize
  rw [if_neg (by omega), if_pos hi]

/-- **What `set_item` has written** is an item with the key and the value. -/
theorem holds_setItem
    (hlengths : Lengths keyLength valueLength) (hn : itemSpan keyLength valueLength ≤ n)
    (hhash : keyHash < 2 ^ 64) (key value : Buffer) :
    Holds (setItem p item keyHash key keyLength value valueLength) item keyHash
      (bytesOf key keyLength) (bytesOf value valueLength) := by
  have hbytes := fun i (hi : i < itemSpan keyLength valueLength) =>
    bytes_setItem hdistinct (hi.trans_le hn) hn keyHash key value
  rw [itemSpan, roundup8_of_dvd hlengths.key_dvd, spanned_of_dvd hlengths.key_dvd,
    spanned_of_dvd hlengths.value_dvd] at hbytes
  unfold kItemSize at hbytes
  refine ⟨?_, ?_, ?_, ?_⟩
  · rw [length_bytesOf, length_bytesOf]
    exact kvLengthVec_setItem hdistinct hn keyHash key value
  · refine itemKeyHash_of_bytes hhash fun i hi => ?_
    rw [hbytes (8 + i) (by omega), if_neg (by omega), if_neg (by omega), if_pos (by omega),
      Nat.add_sub_cancel_left]
  · rw [length_bytesOf, bytesOf_inj]
    intro i hi
    rw [bytes_add]
    unfold kItemSize
    rw [hbytes (16 + i) (by omega), if_neg (by omega), if_pos (by omega), Nat.add_sub_cancel_left]
  · rw [length_bytesOf, length_bytesOf, bytesOf_inj, roundup8_of_dvd hlengths.key_dvd]
    intro i hi
    rw [add_assoc item, bytes_add]
    unfold kItemSize
    rw [hbytes (16 + keyLength + i) (by omega), if_pos (by omega), Nat.add_sub_cancel_left]

end

section Update
variable (h : Holds p item keyHash key value)
include h

omit [LawfulPool P] in
theorem Holds.getKeyLength_eq (hlengths : Lengths key.length value.length) :
    getKeyLength (kvLengthVec p item) = key.length :=
  (lengths_makeKvLengthVec hlengths.key_le hlengths.value_le h.lengths).1

omit [LawfulPool P] in
theorem Holds.getValueLength_eq (hlengths : Lengths key.length value.length) :
    getValueLength (kvLengthVec p item) = value.length :=
  (lengths_makeKvLengthVec hlengths.key_le hlengths.value_le h.lengths).2

omit [LawfulPool P] in
theorem Holds.replace (newValue : Buffer)
    (hkept : ∀ i, 8 ≤ i → i < kItemSize + roundup8 key.length → bytes p' item i = bytes p item i)
    (hlengths : kvLengthVec p' item = makeKvLengthVec key.length valueLength)
    (hvalue : ∀ i < valueLength, bytes p' item (kItemSize + roundup8 key.length + i) = newValue i) :
    Holds p' item keyHash key (bytesOf newValue valueLength) := by
  have hkey := le_roundup8 key.length
  refine ⟨?_, ?_, ?_, ?_⟩
  · rw [length_bytesOf]
    exact hlengths
  · rw [← h.hash]
    refine load_congr fun i hi => ?_
    rw [add_assoc]
    exact hkept (8 + i) (by omega) (by unfold kItemSize; omega)
  · refine Eq.trans (bytesOf_inj.mpr fun i hi => ?_) h.keyBytes
    rw [bytes_add, bytes_add]
    exact hkept (kItemSize + i) (by unfold kItemSize; omega) (by omega)
  · rw [length_bytesOf, bytesOf_inj]
    intro i hi
    rw [add_assoc item, bytes_add]
    exact hvalue i hi

/-- **An item with another value** is held after `set_item_value`. -/
theorem Holds.setItemValue (hold : Lengths key.length value.length)
    (hdistinct : Distinct (place p) item n) (hlengths : Lengths key.length valueLength)
    (hn : itemSpan key.length valueLength ≤ n) (newValue : Buffer) :
    Holds (setItemValue p item newValue valueLength) item keyHash key
      (bytesOf newValue valueLength) := by
  have hbytes := fun i (hi : i < itemSpan key.length valueLength) =>
    bytes_setItemValue hdistinct (hi.trans_le hn) (h.getKeyLength_eq hold) hn newValue
  unfold itemSpan kItemSize at hbytes
  rw [spanned_of_dvd hlengths.value_dvd] at hbytes
  refine h.replace newValue (fun i hi hlt => ?_)
    (kvLengthVec_setItemValue hdistinct (h.getKeyLength_eq hold) hn newValue) fun i hi => ?_
  · unfold kItemSize at hlt
    rw [hbytes i (by omega), if_neg (by omega), if_neg (by omega)]
  · unfold kItemSize
    rw [hbytes _ (by omega), if_pos (by omega), Nat.add_sub_cancel_left]

omit [LawfulPool P] in
theorem Holds.load_value (hlength : value.length = 8) :
    load p (item + kItemSize + roundup8 key.length) 8 = load id (value.getD · 0) 0 8 := by
  refine load_congr fun i hi => ?_
  have hget : value.getD i 0 = (bytesOf (bytes p (item + kItemSize + roundup8 key.length))
      value.length).getD i 0 := by rw [h.valueBytes]
  rw [id_eq, zero_add, hget, getD_eq_getElem?_getD, bytesOf, getElem?_map,
    getElem?_range (by omega)]
  rfl

theorem Holds.storeValue (hlength : value.length = 8) (hdistinct : Distinct (place p) item n)
    (hn : itemSpan key.length 8 ≤ n) (x : Nat) :
    Holds (store p (item + kItemSize + roundup8 key.length) 8 x) item keyHash key
      (bytesOf (byteOf x) 8) := by
  have hbytes := fun i (hi : i < itemSpan key.length 8) =>
    bytes_store (v := x) hdistinct (hi.trans_le hn) (d := kItemSize + roundup8 key.length)
      (w := 8) hn
  have hspan : itemSpan key.length 8 = kItemSize + roundup8 key.length + 8 := rfl
  rw [← add_assoc] at hbytes
  have hheader : ∀ i < kItemSize + roundup8 key.length, bytes
      (store p (item + kItemSize + roundup8 key.length) 8 x) item i = bytes p item i := by
    intro i hi
    rw [hbytes i (by omega), if_neg (by omega)]
  refine h.replace (byteOf x) (fun i _ hlt => hheader i hlt) ?_ fun i hi => ?_
  · refine Eq.trans ?_ (hlength ▸ h.lengths)
    exact load_congr fun i hi => hheader i (by unfold kItemSize; omega)
  · rw [hbytes _ (by omega), if_pos (by omega), Nat.add_sub_cancel_left]

end Update

omit [LawfulPool P] in
/-- An item matches just if it has the tag and the key. -/
theorem itemMatches_iff {cfg : TableConfig} {t : LTable cfg P} {vec tag keyHash' : Nat}
    {key' : Buffer} (h : Holds t.pool (getItem t.pool (getItemOffset vec)) keyHash key value)
    (hlengths : Lengths key.length value.length) (hdvd : 8 ∣ keyLength) :
    t.itemMatches keyHash' tag key' keyLength vec = true ↔
      getTag vec = tag ∧ keyHash = keyHash' ∧ key = bytesOf key' keyLength := by
  unfold LTable.itemMatches
  simp only [Bool.and_eq_true, beq_iff_eq, compareKeys_iff, h.hash, h.getKeyLength_eq hlengths,
    roundup8_of_dvd hdvd, and_assoc]
  refine and_congr_right fun _ => and_congr_right fun _ => ⟨fun ⟨hlength, hbytes⟩ => ?_, ?_⟩
  · rw [← h.keyBytes, hlength]
    exact bytesOf_inj.mpr hbytes
  · intro hkey
    have hlength : key.length = keyLength := by rw [hkey, length_bytesOf]
    refine ⟨hlength, bytesOf_inj.mp ?_⟩
    rw [← hlength, h.keyBytes, hlength]
    exact hkey

variable {inValueLength : Nat}

omit [LawfulPool P] in
theorem Holds.readLength (h : Holds p item keyHash key value)
    (hlengths : Lengths key.length value.length) (hin : value.length ≤ inValueLength) :
    LTable.readLength p item inValueLength = some value.length := by
  have hlength := h.getValueLength_eq hlengths
  rw [LTable.readLength, if_pos (hlength.trans_le hlengths.value_le), hlength, min_eq_left hin]

omit [LawfulPool P] in
/-- **The value of an item is read.** -/
theorem Holds.readValue (h : Holds p item keyHash key value)
    (hlengths : Lengths key.length value.length) (hkey : key.length = keyLength)
    (outValue : Buffer) (hin : value.length ≤ inValueLength) :
    bytesOf (LTable.readValue p item keyLength outValue inValueLength) value.length = value := by
  have hlength := h.getValueLength_eq hlengths
  refine Eq.trans (bytesOf_inj.mpr fun i hi => ?_) h.valueBytes
  rw [LTable.readValue, if_pos (hlength.trans_le hlengths.value_le), hlength, min_eq_left hin,
    spanned_of_dvd hlengths.value_dvd, if_pos hi, hkey]

end Holds

end Testbed.Mica
