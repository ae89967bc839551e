import Testbed.Anna.TierEquivalence

/-! # Priorities in the two tiers

Both serializers keep the first of the entries of least priority.  In memory a key
starts with the priority `INT_MAX`.  On disk it starts with an empty file, which
parses as the priority `0`; so entries of priority `0` and above are never written.

An answer is an error and a text, and the text decodes to an entry also if the error is
`KEY_DNE`: memory then answers with the entry that it has, and disk with the empty text.
The tiers agree on a read just if the first entry of least priority that was put before
is below `0` with a value that is not empty, or is the one that the empty text decodes to
(`priority_tiers_agree_iff`).
-/
namespace Testbed.Anna

open Std (ExtTreeMap)
open Lib Lib.ExtremeRegisters Std.ExtTreeMap

section Priorities
variable {D : Type} [Priority D] (codecs : ValueCodecs D)

/-- The priority and the value of a payload. -/
def decodePriority (payload : String) : D × String :=
  let message := (codecs.priority.parseFromString payload).1
  (message.priority, message.value)

/-- The entries put to a key since it was removed last. -/
def putsTo (key : Key) (ops : List StoreOp) : List (D × String) :=
  ops.foldl (fun puts op =>
    match op with
    | .put key' serialized =>
      if key' = key then puts ++ [decodePriority codecs serialized] else puts
    | .get _ => puts
    | .remove key' => if key' = key then [] else puts) []

/-- The entry that memory has for a key before anything is put. -/
def memoryStart : D × String := (Priority.intMax, "")

/-- The entry that disk has for a key before anything is put. -/
def diskStart : D × String := (Priority.zero, "")

/-- The tiers can agree on a key with these entries: the first of least priority is below
`0` and not empty, or it is what disk starts with. -/
def Agreeable (puts : List (D × String)) : Prop :=
  ∃ p, FirstLeast puts p ∧ (p.1 < Priority.zero ∧ p.2 ≠ "" ∨ p = diskStart)

/-- The answers to a call have the same error, and decode to the same value whatever the
error. -/
def SameDecoded {V : Type} (decode : String → V) :
    Option (String × AnnaError) → Option (String × AnnaError) → Prop
  | some res, some res' => res.2 = res'.2 ∧ decode res.1 = decode res'.1
  | none, none => True
  | _, _ => False

omit codecs in
/-- **What the two registers end with agrees just for agreeable entries.** -/
theorem agreeable_iff (puts : List (D × String)) : Agreeable puts ↔
      replay keepFirst memoryStart puts = replay keepFirst diskStart puts ∧
          (replay keepFirst memoryStart puts).2 ≠ "" ∨
        replay keepFirst memoryStart puts = diskStart ∧
          (replay keepFirst diskStart puts).2 = "" := by
  have hstart : (diskStart : D × String).1 < (memoryStart : D × String).1 :=
    Priority.zero_lt_intMax
  have hmemory := replay_keepFirst (memoryStart : D × String) puts
  rcases replay_keepFirst_of_le hstart.le puts with ⟨hlt, heq⟩ | ⟨hle, heq⟩
  · -- an entry below `0` was put, and both registers hold the first least one
    rcases hmemory with ⟨hsame, -⟩ | ⟨hfirst, -⟩
    · rw [hsame] at hlt
      exact absurd hlt hstart.not_gt
    · rw [heq]
      constructor
      · rintro ⟨p, hp, ⟨-, hvalue⟩ | rfl⟩
        · exact .inl ⟨rfl, hp.unique hfirst ▸ hvalue⟩
        · rw [hp.unique hfirst] at hlt
          exact absurd hlt (lt_irrefl _)
      · rintro (⟨-, hvalue⟩ | ⟨hzero, -⟩)
        · exact ⟨_, hfirst, .inl ⟨hlt, hvalue⟩⟩
        · rw [hzero] at hlt
          exact absurd hlt (lt_irrefl _)
  · -- disk still holds what it started with
    rw [heq]
    constructor
    · rintro ⟨p, hp, hcase⟩
      have hlow : p.1 ≤ (Priority.zero : D) := by
        rcases hcase with ⟨hneg, -⟩ | rfl
        · exact hneg.le
        · exact le_refl _
      rcases hmemory with ⟨-, hall⟩ | ⟨hfirst, -⟩
      · exact absurd ((hall p hp.mem).trans hlow) hstart.not_ge
      · rw [← hp.unique hfirst] at hle ⊢
        rcases hcase with ⟨hneg, -⟩ | hzero
        · exact absurd hneg hle.not_gt
        · exact .inr ⟨hzero, rfl⟩
    · rintro (⟨hzero, hvalue⟩ | ⟨hzero, -⟩)
      · rw [hzero] at hvalue
        exact absurd rfl hvalue
      · rcases hmemory with ⟨hsame, -⟩ | ⟨hfirst, -⟩
        · rw [hzero] at hsame
          exact absurd (congrArg Prod.fst hsame) hstart.ne
        · exact ⟨_, hfirst, .inr hzero⟩

/-! ## The state after a run -/

theorem putsTo_concat (key : Key) (ops : List StoreOp) (op : StoreOp) :
    putsTo codecs key (ops ++ [op]) =
      match op with
      | .put key' serialized =>
        if key' = key then putsTo codecs key ops ++ [decodePriority codecs serialized]
        else putsTo codecs key ops
      | .get _ => putsTo codecs key ops
      | .remove key' => if key' = key then [] else putsTo codecs key ops := by
  rw [putsTo, List.foldl_append]
  rfl

/-- A lattice as an entry. -/
def priorityEntry (v : PriorityValuePair D) : D × String := (v.priority, v.value)

omit codecs in
theorem priorityEntry_doMerge (v p : PriorityValuePair D) :
    priorityEntry (PriorityLattice.doMerge v p) =
      keepFirst (priorityEntry v) (priorityEntry p) := by
  unfold PriorityLattice.doMerge keepFirst
  by_cases h : p.priority < v.priority
  · rw [if_pos h, if_pos (by exact h)]
  · rw [if_neg h, if_neg (by exact h)]

variable (ops : List StoreOp)

theorem memory_entry (key : Key) :
    priorityEntry (KVStore.value (finalState (memoryPrioritySerializer codecs).step ⊥ ops) key) =
      replay keepFirst memoryStart (putsTo codecs key ops) := by
  induction ops using List.reverseRecOn with
  | nil => rfl
  | append_singleton ops op ih =>
    rw [finalState_concat, putsTo_concat]
    generalize finalState (memoryPrioritySerializer codecs).step ⊥ ops = kvs at ih ⊢
    cases op with
    | put key' serialized =>
      change priorityEntry (KVStore.value
        ((memoryPrioritySerializer codecs).put kvs key' serialized).2 key) = _
      rw [memoryPrioritySerializer, memorySerializer_put, KVStore.value_put]
      by_cases hkey : key' = key
      · subst hkey
        rw [if_pos rfl, priorityEntry_doMerge, ih]
        simp only [if_true, replay_concat]
        rfl
      · rw [if_neg hkey, ih]
        simp only [hkey, if_false]
    | get key' =>
      exact (congrArg priorityEntry (KVStore.get_frame kvs key key' .noError).1).trans ih
    | remove key' =>
      change priorityEntry ((kvs.element.erase key').getD key default) = _
      by_cases hkey : key' = key
      · subst hkey
        rw [getD_erase_self]
        simp only [if_true]
        rfl
      · rw [getD_erase, if_neg (by simpa using hkey)]
        simp only [hkey, if_false]
        exact ih

/-- What is in the file of a key, where no file is like an empty one, is a message of
this entry. -/
def FileHolds (files : Files) (key : Key) (entry : D × String) : Prop :=
  codecs.priority.parseFromString (files.getD key "") = (⟨entry.1, entry.2⟩, true)

variable {files : Files} {key : Key}

theorem fileHolds_start (h : files.getD key "" = "") : FileHolds codecs files key diskStart := by
  rw [FileHolds, h, codecs.priority.parse_empty]
  rfl

variable {entry : D × String}

theorem disk_put_holds (serialized : String) (h : FileHolds codecs files key entry) :
    FileHolds codecs ((diskPrioritySerializer codecs).put files key serialized).2 key
      (keepFirst entry (decodePriority codecs serialized)) := by
  unfold FileHolds at h ⊢
  unfold diskPrioritySerializer keepFirst
  simp only [h, not_true_eq_false, false_or]
  by_cases hlt : (codecs.priority.parseFromString serialized).1.priority < entry.1
  · rw [if_pos hlt, if_pos (by exact hlt), getD_insert_self, codecs.priority.parse_serialize]
    rfl
  · rw [if_neg hlt, if_neg (by exact hlt), getD_insert_self]
    exact h

theorem disk_put_other {key' : Key} (serialized : String) (h : key' ≠ key) :
    ((diskPrioritySerializer codecs).put files key' serialized).2.getD key "" =
      files.getD key "" := by
  unfold diskPrioritySerializer
  dsimp only
  split <;> exact getD_insert.trans (if_neg (by simpa using h))

theorem disk_entry (key : Key) :
    FileHolds codecs (finalState (diskPrioritySerializer codecs).step ∅ ops) key
      (replay keepFirst diskStart (putsTo codecs key ops)) := by
  induction ops using List.reverseRecOn with
  | nil => exact fileHolds_start codecs getD_empty
  | append_singleton ops op ih =>
    rw [finalState_concat, putsTo_concat]
    generalize finalState (diskPrioritySerializer codecs).step ∅ ops = files at ih ⊢
    cases op with
    | put key' serialized =>
      change FileHolds codecs ((diskPrioritySerializer codecs).put files key' serialized).2 key _
      by_cases hkey : key' = key
      · subst hkey
        simp only [if_true, replay_concat]
        exact disk_put_holds codecs serialized ih
      · simp only [hkey, if_false]
        unfold FileHolds at ih ⊢
        rw [disk_put_other codecs serialized hkey]
        exact ih
    | get => exact ih
    | remove key' =>
      change FileHolds codecs (files.erase key') key _
      by_cases hkey : key' = key
      · subst hkey
        simp only [if_true]
        exact fileHolds_start codecs getD_erase_self
      · simp only [hkey, if_false]
        unfold FileHolds at ih ⊢
        rw [getD_erase, if_neg (by simpa using hkey)]
        exact ih

/-! ## One read -/

theorem memory_get (kvs : KVStore (PriorityValuePair D)) (key : Key) :
    ((memoryPrioritySerializer codecs).get kvs key).1 =
      (codecs.priority.serializeAsString (ofPriority (KVStore.value kvs key)),
        if (KVStore.value kvs key).value = "" then .keyDne else .noError) := by
  rw [memoryPrioritySerializer, memory_get_fst]
  by_cases hvalue : (KVStore.value kvs key).value = ""
  · simp [hvalue]
  · -- a value that is not the default one belongs to an entry
    have hcontains : kvs.contains key = true := by
      by_contra hnone
      rw [MapLattice.contains, contains_eq_isSome_getElem?, Option.not_isSome_iff_eq_none] at hnone
      rw [KVStore.value, getD_eq_getD_getElem?, hnone] at hvalue
      exact hvalue rfl
    simp [hvalue, hcontains]

theorem disk_get (h : FileHolds codecs files key entry) :
    ((diskPrioritySerializer codecs).get files key).1 =
      if entry.2 = "" then ("", .keyDne)
      else (codecs.priority.serializeAsString ⟨entry.1, entry.2⟩, .noError) := by
  change diskGet codecs.priority (fun value => value.value == "") files key = _
  unfold FileHolds at h
  unfold diskGet
  rw [getD_eq_getD_getElem?] at h
  cases hfile : files[key]? with
  | none =>
    rw [hfile, Option.getD_none, codecs.priority.parse_empty] at h
    have hvalue : entry.2 = "" := (congrArg (fun r => r.1.value) h).symm
    rw [if_pos hvalue]
  | some =>
    rw [hfile, Option.getD_some] at h
    simp only [h, not_true_eq_false, if_false, beq_iff_eq]

/-- **A read agrees** just if the entries put before are agreeable. -/
theorem get_agrees_iff (key : Key) : SameDecoded (decodePriority codecs)
        ((memoryPrioritySerializer codecs).step
          (finalState (memoryPrioritySerializer codecs).step ⊥ ops) (.get key)).1
        ((diskPrioritySerializer codecs).step
          (finalState (diskPrioritySerializer codecs).step ∅ ops) (.get key)).1 ↔
      Agreeable (putsTo codecs key ops) := by
  rw [agreeable_iff, ← memory_entry codecs ops key]
  have hdisk := disk_get codecs (disk_entry codecs ops key)
  generalize replay keepFirst diskStart (putsTo codecs key ops) = e at hdisk ⊢
  change SameDecoded _ (some _) (some _) ↔ _
  rw [memory_get, hdisk]
  generalize KVStore.value (finalState (memoryPrioritySerializer codecs).step ⊥ ops) key = v
  obtain ⟨priority, value⟩ := v
  obtain ⟨priority', value'⟩ := e
  have hempty : decodePriority codecs "" = diskStart := by
    rw [decodePriority, codecs.priority.parse_empty]
    rfl
  have hpayload : ∀ message : PriorityValue D,
      decodePriority codecs (codecs.priority.serializeAsString message) =
        (message.priority, message.value) := by
    intro message
    rw [decodePriority, codecs.priority.parse_serialize]
  by_cases hvalue : value = "" <;> by_cases hvalue' : value' = "" <;>
    simp [SameDecoded, priorityEntry, ofPriority, hempty, hpayload, hvalue, hvalue', diskStart]

end Priorities

/-- **When the tiers agree on priorities.**  All reads of a run have the same error and
decode to the same entry just if before each of them the first entry of least priority that
was put to its key is negative and not empty, or is `(0, "")`. -/
theorem priority_tiers_agree_iff {D : Type} [Priority D] (codecs : ValueCodecs D)
    (ops : List StoreOp) :
    List.Forall₂ (SameDecoded (decodePriority codecs))
        (outputs (memoryPrioritySerializer codecs).step ⊥ ops)
        (outputs (diskPrioritySerializer codecs).step ∅ ops) ↔
      ∀ before key after, ops = before ++ .get key :: after →
        Agreeable (putsTo codecs key before) := by
  rw [forall₂_outputs_iff]
  constructor
  · intro h before key after hops
    exact (get_agrees_iff codecs before key).mp (h before _ after hops)
  · intro h before op after hops
    cases op with
    | put => trivial
    | get key => exact (get_agrees_iff codecs before key).mpr (h before key after hops)
    | remove => trivial

/-- The first value put to a key, of priority `5`, is kept in memory and lost on
disk. -/
theorem first_priority_lost :
    ¬ ∀ (D : Type) [Priority D] (codecs : ValueCodecs D) (ops : List StoreOp),
      List.Forall₂ (SameDecoded (decodePriority codecs))
        (outputs (memoryPrioritySerializer codecs).step ⊥ ops)
        (outputs (diskPrioritySerializer codecs).step ∅ ops) := by
  intro h
  obtain ⟨codecs⟩ := ValueCodecs.nonempty Int
  let payload := codecs.priority.serializeAsString ⟨5, "v"⟩
  have hagree := (get_agrees_iff codecs [.put "k" payload] "k").mp
    (forall₂_outputs_iff.mp (h Int codecs [.put "k" payload, .get "k"]) [.put "k" payload]
      (.get "k") [] rfl)
  have hputs : putsTo codecs "k" [.put "k" payload] = [((5 : Int), "v")] := by
    change [decodePriority codecs payload] = _
    rw [decodePriority, codecs.priority.parse_serialize]
  rw [hputs] at hagree
  obtain ⟨p, hp, hcase⟩ := hagree
  rw [List.mem_singleton.mp hp.mem] at hcase
  exact absurd hcase (by decide)

end Testbed.Anna
