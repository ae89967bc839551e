import Mathlib.Data.List.Induction
import Mathlib.Data.List.Infix
import Testbed.Mica.Slots

/-! # Calls of a table

A table is used through its member functions.  `Call` lists them with their arguments, and
`LTable.call` makes one; a run is a list of calls on a table that was just constructed.
-/
namespace Testbed.Mica

open Lib Pool

/-- A call of a member function of the table. -/
inductive Call where
  | set (keyHash : Nat) (key : Buffer) (keyLength : Nat) (value : Buffer) (valueLength : Nat)
    (overwrite : Bool)
  | get (keyHash : Nat) (key : Buffer) (keyLength : Nat) (outValue : Buffer) (inValueLength : Nat)
    (allowMutation : Bool)
  | test (keyHash : Nat) (key : Buffer) (keyLength : Nat)
  | increment (keyHash : Nat) (key : Buffer) (keyLength increment : Nat)
  | del (keyHash : Nat) (key : Buffer) (keyLength : Nat)
  | reset

/-- What it returns. -/
inductive Output where
  | result (result : Result)
  | value (output : LTable.GetOutput)
  | counter (result : Result) (outValue : Option Nat)
  | unit

/-- The lengths are those that the functions assert. -/
def Call.Bounded : Call → Prop
  | .set _ _ keyLength _ valueLength _ =>
    keyLength ≤ kMaxKeyLength ∧ valueLength ≤ kMaxValueLength
  | .get _ _ keyLength _ _ _ | .test _ _ keyLength | .increment _ _ keyLength _
  | .del _ _ keyLength => keyLength ≤ kMaxKeyLength
  | .reset => True

namespace LTable
variable {cfg : TableConfig} {P : Type} [Pool P] (t : LTable cfg P)

def call : Call → Except Fault (Output × LTable cfg P)
  | .set keyHash key keyLength value valueLength overwrite => do
    let (result, t) ← t.set keyHash key keyLength value valueLength overwrite
    return (.result result, t)
  | .get keyHash key keyLength outValue inValueLength allowMutation => do
    let (output, t) ← t.get keyHash key keyLength outValue inValueLength allowMutation
    return (.value output, t)
  | .test keyHash key keyLength => do
    let result ← t.test keyHash key keyLength
    return (.result result, t)
  | .increment keyHash key keyLength increment => do
    let ((result, outValue), t) ← t.increment keyHash key keyLength increment
    return (.counter result outValue, t)
  | .del keyHash key keyLength => do
    let (result, t) ← t.del keyHash key keyLength
    return (.result result, t)
  | .reset => return (.unit, t.reset)

/-- One call after others, with what they returned. -/
def step (acc : List (Call × Output) × LTable cfg P) (call : Call) :
    Except Fault (List (Call × Output) × LTable cfg P) := do
  let (output, t) ← acc.2.call call
  return (acc.1 ++ [(call, output)], t)

/-- Calls on a new table. -/
def run (cfg : TableConfig) (pool : P) (calls : List Call) :
    Except Fault (List (Call × Output) × LTable cfg P) :=
  calls.foldlM step ([], create cfg pool)

/-- The table comes about by calls with lengths within the limits. -/
def Reachable : Prop :=
  ∃ pool calls history, (∀ call ∈ calls, call.Bounded) ∧ run cfg pool calls = .ok (history, t)

/-- Something holds of each call of a run, and of the table that it is made on. -/
def EveryStep (cfg : TableConfig) (pool : P) (calls : List Call)
    (holds : LTable cfg P → Call → Prop) : Prop :=
  ∀ before call after, calls = before ++ call :: after →
    ∀ history t, run cfg pool before = .ok (history, t) → holds t call

section
variable {pool : P} {calls : List Call} {call : Call}

/-- A run ends with its last call. -/
theorem run_concat_eq_ok {history' : List (Call × Output)} {t' : LTable cfg P} :
    run cfg pool (calls ++ [call]) = .ok (history', t') ↔
      ∃ history t output, run cfg pool calls = .ok (history, t) ∧
        t.call call = .ok (output, t') ∧ history' = history ++ [(call, output)] := by
  unfold run
  rw [foldlM_concat_eq_ok]
  constructor
  · rintro ⟨⟨history, t⟩, hrun, hstep⟩
    obtain ⟨⟨output, t₁⟩, hcall, hstep⟩ := bind_eq_ok.mp hstep
    cases hstep
    exact ⟨history, t, output, hrun, hcall, rfl⟩
  · rintro ⟨history, t, output, hrun, hcall, rfl⟩
    exact ⟨(history, t), hrun, bind_eq_ok.mpr ⟨(output, t'), hcall, rfl⟩⟩

/-- What holds at each step of a run holds at the last one, and before. -/
theorem everyStep_concat {holds : LTable cfg P → Call → Prop} :
    EveryStep cfg pool (calls ++ [call]) holds ↔ EveryStep cfg pool calls holds ∧
        ∀ history t, run cfg pool calls = .ok (history, t) → holds t call := by
  constructor
  · intro h
    refine ⟨fun before call' after heq => ?_, h calls call [] rfl⟩
    refine h before call' (after ++ [call]) ?_
    rw [heq, List.append_assoc]
    rfl
  · rintro ⟨h, hlast⟩ before call' after heq
    rcases List.eq_nil_or_concat after with rfl | ⟨after', last, rfl⟩
    · obtain ⟨rfl, hcall⟩ := List.append_inj' heq rfl
      cases hcall
      exact hlast
    · have heq' : calls ++ [call] = (before ++ call' :: after') ++ [last] := by
        rw [heq, List.append_assoc, List.concat_eq_append]
        rfl
      exact h before call' after' (List.append_inj' heq' rfl).1

end

/-- The address is one that `set_item_value` writes to. -/
def SetItemValueWrites (p : P) (item valueLength address : Nat) : Prop :=
  let data := item + kItemSize + roundup8 (getKeyLength (kvLengthVec p item))
  item ≤ address ∧ address < item + 4 ∨ data ≤ address ∧ address < data + spanned valueLength

/-- The bytes that `set_item_value` writes are inside of the span. -/
theorem SetItemValueWrites.inside {p : P} {item valueLength address n : Nat}
    (h : SetItemValueWrites p item valueLength address)
    (hn : itemSpan (getKeyLength (kvLengthVec p item)) valueLength ≤ n) :
    item ≤ address ∧ address < item + n := by
  unfold SetItemValueWrites kItemSize at h
  unfold itemSpan kItemSize at hn
  omega

/-- If the call overwrites an item in place, it writes to the region that `allocate` returned for
the item. -/
def Inside : Call → Prop
  | .set keyHash key keyLength _ valueLength true =>
    ∀ slot, t.findItemIndex (cfg.calcBucketIndex keyHash) keyHash (calcTag keyHash) key keyLength =
        .ok (some slot) →
      t.fitsInPlace (getItemOffset (t.itemVec slot)) (itemSize keyLength valueLength) = true →
      let item := getItem t.pool (getItemOffset (t.itemVec slot))
      ∀ address, SetItemValueWrites t.pool item valueLength address →
        item ≤ address ∧ address < item + t.allotted (getItemOffset (t.itemVec slot))
  | _ => True

/-! ## The ways through a call -/

section Ways
variable {t t' : LTable cfg P} {keyHash keyLength valueLength : Nat} {key value : Buffer}
  {result : Result}

/-- **What `set` does**: the key is there and stays, or its item is replaced, or there is none
and a slot is chosen. -/
theorem set_eq_ok {overwrite : Bool}
    (h : t.set keyHash key keyLength value valueLength overwrite = .ok (result, t')) :
    (∃ slot, t.findItemIndex (cfg.calcBucketIndex keyHash) keyHash (calcTag keyHash) key keyLength =
        .ok (some slot) ∧
      (overwrite = false ∧ result = .kExists ∧ t' = t ∨ overwrite = true ∧
          t.setAt slot true keyHash key keyLength value valueLength = .ok (result, t'))) ∨
    t.findItemIndex (cfg.calcBucketIndex keyHash) keyHash (calcTag keyHash) key keyLength =
        .ok none ∧
      (result = .kInsufficientSpace ∧ t'.Prunes t ∨ ∃ slot, ∃ t₀ : LTable cfg P, t₀.Prunes t ∧
          t₀.setNew slot false keyHash key keyLength value valueLength = .ok (result, t')) := by
  obtain ⟨found, hfind, h⟩ := bind_eq_ok.mp h
  cases found with
  | some slot =>
    refine .inl ⟨slot, hfind, ?_⟩
    cases overwrite with
    | false =>
      cases h
      exact .inl ⟨rfl, rfl, rfl⟩
    | true => exact .inr ⟨rfl, h⟩
  | none =>
    refine .inr ⟨hfind, ?_⟩
    dsimp only at h
    split at h
    · obtain ⟨same, -, h⟩ := bind_eq_ok.mp h
      cases same with
      | some slot => exact .inr ⟨slot, t, Prunes.refl t, h⟩
      | none =>
        obtain ⟨slot, -, h⟩ := bind_eq_ok.mp h
        exact .inr ⟨slot, t, Prunes.refl t, h⟩
    · obtain ⟨⟨empty, t₀⟩, hempty, h⟩ := bind_eq_ok.mp h
      have hprunes := Prunes.getEmpty hempty
      cases empty with
      | some slot => exact .inr ⟨slot, t₀, hprunes, h⟩
      | none =>
        cases h
        exact .inl ⟨rfl, hprunes⟩

/-- **What `get` does**: there is no item, or it is no longer valid, or its value is copied. -/
theorem get_eq_ok {outValue : Buffer} {inValueLength : Nat} {allowMutation : Bool}
    {output : GetOutput}
    (h : t.get keyHash key keyLength outValue inValueLength allowMutation = .ok (output, t')) :
    t.findItemIndex (cfg.calcBucketIndex keyHash) keyHash (calcTag keyHash) key keyLength =
        .ok none ∧ output = ⟨.kNotFound, outValue, none⟩ ∧ t' = t ∨
    ∃ slot, t.findItemIndex (cfg.calcBucketIndex keyHash) keyHash (calcTag keyHash) key keyLength =
        .ok (some slot) ∧
      let offset := getItemOffset (t.itemVec slot)
      let item := getItem t.pool offset
      let valueLength := getValueLength (kvLengthVec t.pool item)
      let value := readValue t.pool item keyLength outValue inValueLength
      let length := readLength t.pool item inValueLength
      ((valueLength > kMaxValueLength ∨ ¬ isValid t.pool offset) ∧
          output = ⟨.kNotFound, value, length⟩ ∧ t'.Prunes t ∨
        valueLength ≤ kMaxValueLength ∧ isValid t.pool offset = true ∧
          (allowMutation = false ∧ t' = t ∨
            allowMutation = true ∧ t.moveToHead slot keyLength valueLength = .ok t') ∧
          output = ⟨if valueLength ≠ min valueLength inValueLength then .kPartialValue
            else .kSuccess, value, length⟩) := by
  obtain ⟨found, hfind, h⟩ := bind_eq_ok.mp h
  cases found with
  | none =>
    cases h
    exact .inl ⟨hfind, rfl, rfl⟩
  | some slot =>
    refine .inr ⟨slot, hfind, ?_⟩
    have hprunes : (if allowMutation = true ∧ t.itemVec slot ≠ 0 then (t.setItemVec slot 0).statDec
        else t).Prunes t := by
      split
      · exact (Prunes.statDec _).trans (Prunes.clear t slot)
      · exact Prunes.refl t
    dsimp only [getAt] at h ⊢
    split at h
    · rename_i hstale
      cases h
      exact .inl ⟨hstale, rfl, hprunes⟩
    · rename_i hvalid
      obtain ⟨hlength, hvalid⟩ := not_or.mp hvalid
      refine .inr ⟨Nat.le_of_not_lt hlength, not_not.mp hvalid, ?_⟩
      split at h
      · rename_i hmutation
        obtain ⟨t₁, hmove, h⟩ := bind_eq_ok.mp h
        cases h
        exact ⟨.inr ⟨hmutation, hmove⟩, rfl⟩
      · rename_i hmutation
        obtain ⟨t₁, hsame, h⟩ := bind_eq_ok.mp h
        cases h
        exact ⟨.inl ⟨Bool.not_eq_true _ ▸ hmutation, (Except.ok.inj hsame).symm⟩, rfl⟩

/-- **What `increment` does**. -/
theorem increment_eq_ok {increment : Nat} {outValue : Option Nat}
    (h : t.increment keyHash key keyLength increment = .ok ((result, outValue), t')) :
    t.findItemIndex (cfg.calcBucketIndex keyHash) keyHash (calcTag keyHash) key keyLength =
        .ok none ∧ result = .kNotFound ∧ outValue = none ∧ t' = t ∨
    ∃ slot, t.findItemIndex (cfg.calcBucketIndex keyHash) keyHash (calcTag keyHash) key keyLength =
        .ok (some slot) ∧
      let offset := getItemOffset (t.itemVec slot)
      let item := getItem t.pool offset
      let valueLength := getValueLength (kvLengthVec t.pool item)
      let value := item + kItemSize + roundup8 keyLength
      let newValue := (load t.pool value 8 + increment) % 2 ^ 64
      ((isCircularLog P = true ∧ ¬ isValid t.pool offset ∨ valueLength ≠ 8) ∧
          result = .kError ∧ outValue = none ∧ t' = t ∨
        (isCircularLog P = true → isValid t.pool offset = true) ∧ valueLength = 8 ∧
          result = .kSuccess ∧ outValue = some newValue ∧
          t' = { t with pool := store t.pool value 8 newValue }) := by
  obtain ⟨found, hfind, h⟩ := bind_eq_ok.mp h
  cases found with
  | none =>
    cases h
    exact .inl ⟨hfind, rfl, rfl, rfl⟩
  | some slot =>
    refine .inr ⟨slot, hfind, ?_⟩
    dsimp only at h ⊢
    split at h
    · rename_i hstale
      cases h
      exact .inl ⟨.inl hstale, rfl, rfl, rfl⟩
    · rename_i hvalid
      split at h
      · rename_i hlength
        cases h
        exact .inl ⟨.inr hlength, rfl, rfl, rfl⟩
      · rename_i hlength
        cases h
        refine .inr ⟨fun hlog => ?_, not_not.mp hlength, rfl, rfl, rfl⟩
        exact not_not.mp fun hinvalid => hvalid ⟨hlog, hinvalid⟩

/-- **What `del` does**. -/
theorem del_eq_ok (h : t.del keyHash key keyLength = .ok (result, t')) :
    t.findItemIndex (cfg.calcBucketIndex keyHash) keyHash (calcTag keyHash) key keyLength =
        .ok none ∧ result = .kNotFound ∧ t' = t ∨
    ∃ slot, t.findItemIndex (cfg.calcBucketIndex keyHash) keyHash (calcTag keyHash) key keyLength =
        .ok (some slot) ∧ result = .kSuccess ∧
      fillHole slot (chainFuel cfg) (LTable.statDec (LTable.setItemVec { t with
        pool := release t.pool (getItemOffset (t.itemVec slot)) } slot 0)) = .ok t' := by
  obtain ⟨found, hfind, h⟩ := bind_eq_ok.mp h
  cases found with
  | none =>
    cases h
    exact .inl ⟨hfind, rfl, rfl⟩
  | some slot =>
    obtain ⟨t₁, hfill, h⟩ := bind_eq_ok.mp h
    cases h
    exact .inr ⟨slot, hfind, rfl, hfill⟩

end Ways

end LTable

end Testbed.Mica
