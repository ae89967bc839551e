import Mathlib.Data.Multiset.Lattice
import Mathlib.Data.Multiset.Basic

/-! # Deliveries of a finite collection of updates

A replica starts from an initial state and applies updates one at a time with a
merge function.  A *delivery* of a finite multiset of updates is a list that
applies every one of them at least as often as the multiset holds it, in any
order, possibly more often, and applies nothing else.  A merge function
*converges* on the multiset when all its deliveries end in the same state.

This is the vocabulary in which the registers of `Testbed.Lib.DominatingVersions`
and `Testbed.Lib.ExtremeRegisters` state their convergence criteria.
-/
namespace Testbed.Lib

open Multiset

variable {α σ : Type*}

/-- `l` delivers `S`: every update of `S` at least as often as in `S`, in any
order, and no other update. -/
def Delivers (S : Multiset α) (l : List α) : Prop :=
  S ≤ (l : Multiset α) ∧ ∀ p ∈ l, p ∈ S

/-- The state a replica reaches from `init` by merging the updates of `l`. -/
def replay (merge : σ → α → σ) (init : σ) (l : List α) : σ := l.foldl merge init

/-- All deliveries of `S` end in the same state. -/
def Converges (merge : σ → α → σ) (init : σ) (S : Multiset α) : Prop :=
  ∀ l₁ l₂, Delivers S l₁ → Delivers S l₂ → replay merge init l₁ = replay merge init l₂

variable {S : Multiset α} {l : List α} {merge : σ → α → σ} {β : Type*}

theorem Delivers.mem_iff (h : Delivers S l) (p : α) : p ∈ l ↔ p ∈ S :=
  ⟨h.2 p, fun hp => mem_coe.mp (mem_of_le h.1 hp)⟩

theorem delivers_append_toList (h : ∀ p ∈ l, p ∈ S) : Delivers S (l ++ S.toList) := by
  refine ⟨?_, ?_⟩
  · rw [← coe_add, coe_toList]
    exact le_add_left S _
  · intro p hp
    rcases List.mem_append.mp hp with hp | hp
    · exact h p hp
    · exact mem_toList.mp hp

theorem delivers_toList_append (h : ∀ p ∈ l, p ∈ S) : Delivers S (S.toList ++ l) := by
  refine ⟨?_, ?_⟩
  · rw [← coe_add, coe_toList]
    exact le_add_right S _
  · intro p hp
    rcases List.mem_append.mp hp with hp | hp
    · exact mem_toList.mp hp
    · exact h p hp

variable (merge)

@[simp] theorem replay_nil (init : σ) : replay merge init [] = init := rfl

theorem replay_append (init : σ) (l₁ l₂ : List α) :
    replay merge init (l₁ ++ l₂) = replay merge (replay merge init l₁) l₂ :=
  List.foldl_append

theorem replay_concat (init : σ) (l : List α) (p : α) :
    replay merge init (l ++ [p]) = merge (replay merge init l) p := by
  rw [replay_append]; rfl

variable {merge}

/-- What the state has already changes nothing. -/
theorem replay_fixed {s : σ} (h : ∀ p ∈ l, merge s p = s) : replay merge s l = s := by
  induction l with
  | nil => rfl
  | cons p l ih =>
    change replay merge (merge s p) l = s
    rw [h p (List.mem_cons_self ..)]
    exact ih fun q hq => h q (List.mem_cons_of_mem _ hq)

/-- A map that respects the merges respects replays. -/
theorem replay_map {τ : Type*} {merge' : τ → β → τ} (f : σ → τ) (g : α → β)
    (h : ∀ s p, f (merge s p) = merge' (f s) (g p)) (init : σ) (l : List α) :
    f (replay merge init l) = replay merge' (f init) (l.map g) := by
  induction l generalizing init with
  | nil => rfl
  | cons p l ih =>
    change f (replay merge (merge init p) l) = replay merge' (merge' (f init) (g p)) (l.map g)
    rw [ih (merge init p), h]

theorem delivers_map (g : α ≃ β) : Delivers (S.map g) (l.map g) ↔ Delivers S l := by
  unfold Delivers
  rw [← map_coe, map_le_map_iff g.injective]
  simp

/-- Equivalent merges converge together. -/
theorem converges_map_iff {τ : Type*} {merge' : τ → β → τ} (f : σ ≃ τ) (g : α ≃ β)
    (h : ∀ s p, f (merge s p) = merge' (f s) (g p)) (init : σ) (S : Multiset α) :
    Converges merge init S ↔ Converges merge' (f init) (S.map g) := by
  constructor
  · intro hc l₁ l₂ h₁ h₂
    have e : ∀ l : List β, (l.map g.symm).map g = l := fun l => by simp
    have key := hc (l₁.map g.symm) (l₂.map g.symm)
      ((delivers_map g).mp (by rwa [e])) ((delivers_map g).mp (by rwa [e]))
    have := congrArg f key
    rwa [replay_map f g h, replay_map f g h, e, e] at this
  · intro hc l₁ l₂ h₁ h₂
    have key := hc (l₁.map g) (l₂.map g) ((delivers_map g).mpr h₁) ((delivers_map g).mpr h₂)
    rw [← replay_map f g h, ← replay_map f g h] at key
    exact f.injective key

end Testbed.Lib
