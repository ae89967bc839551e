import Mathlib.Order.BoundedOrder.Basic
import Mathlib.Order.Lattice
import Mathlib.Data.List.Induction
import Testbed.Lib.Delivery

/-! # Registers that keep an extreme entry

Two registers over entries `(rank, value)` with linearly ordered ranks.

* `overwrite` takes an incoming entry unless its rank is smaller: the register
  ends with the **last** entry of greatest rank (`replay_overwrite`), so its rank
  never depends on the delivery order and its value does not exactly when all
  entries of greatest rank carry the same value (`converges_overwrite_iff`).
* `keepFirst` takes an incoming entry only if its rank is strictly smaller: the
  register ends with the **first** entry of least rank, or with its initial entry
  (`replay_keepFirst`).  Two such registers that start from different ranks agree
  from the first entry below both on (`replay_keepFirst_of_le`).
-/
namespace Testbed.Lib.ExtremeRegisters

variable {T V : Type*} [LinearOrder T]

/-! ## Last of the greatest -/

/-- The entry `p` replaces `s` unless its rank is smaller. -/
def overwrite (s p : T × V) : T × V := if s.1 ≤ p.1 then p else s

/-- `p` is an entry of `S` of greatest rank. -/
def Latest (S : Multiset (T × V)) (p : T × V) : Prop := p ∈ S ∧ ∀ q ∈ S, q.1 ≤ p.1

variable {l : List (T × V)} {S : Multiset (T × V)} {p q : T × V}

/-- **The register ends with an entry of greatest rank.** -/
theorem replay_overwrite [OrderBot T] (v : V) (hl : l ≠ []) :
    Latest (l : Multiset (T × V)) (replay overwrite (⊥, v) l) := by
  induction l using List.reverseRecOn with
  | nil => exact absurd rfl hl
  | append_singleton l p ih =>
    rw [replay_concat]
    rcases eq_or_ne l [] with rfl | hne
    · simp [Latest, overwrite]
    · obtain ⟨hmem, hmax⟩ := ih hne
      have hold : ∀ q ∈ l, q.1 ≤ (replay overwrite (⊥, v) l).1 :=
        fun q hq => hmax q (Multiset.mem_coe.mpr hq)
      by_cases h : (replay overwrite (⊥, v) l).1 ≤ p.1
      · rw [overwrite, if_pos h]
        refine ⟨by simp, fun q hq => ?_⟩
        rcases List.mem_append.mp (Multiset.mem_coe.mp hq) with hq | hq
        · exact (hold q hq).trans h
        · rw [List.mem_singleton.mp hq]
      · rw [overwrite, if_neg h]
        refine ⟨by simpa using .inl hmem, fun q hq => ?_⟩
        rcases List.mem_append.mp (Multiset.mem_coe.mp hq) with hq | hq
        · exact hold q hq
        · rw [List.mem_singleton.mp hq]
          exact le_of_not_ge h

theorem latest_of_delivers [OrderBot T] (v : V) (h : Delivers S l) (hl : l ≠ []) :
    Latest S (replay overwrite (⊥, v) l) := by
  obtain ⟨hmem, hmax⟩ := replay_overwrite v hl
  exact ⟨h.2 _ hmem, fun q hq => hmax q (Multiset.mem_coe.mpr ((h.mem_iff q).mpr hq))⟩

theorem Latest.rank_eq (hp : Latest S p) (hq : Latest S q) :
    p.1 = q.1 := le_antisymm (hq.2 p hp.1) (hp.2 q hq.1)

omit [LinearOrder T] in
theorem eq_nil_of_delivers {l₁ l₂ : List (T × V)} (h₁ : Delivers S l₁) (h₂ : Delivers S l₂)
    (h : l₁ = []) : l₂ = [] := by
  subst h
  refine List.eq_nil_iff_forall_not_mem.mpr fun p hp => ?_
  have := (h₁.mem_iff p).mpr ((h₂.mem_iff p).mp hp)
  simp at this

theorem rank_eq_of_delivers [OrderBot T] (v : V) {l₁ l₂ : List (T × V)} (h₁ : Delivers S l₁)
    (h₂ : Delivers S l₂) : (replay overwrite (⊥, v) l₁).1 = (replay overwrite (⊥, v) l₂).1 := by
  rcases eq_or_ne l₁ [] with rfl | hne
  · rw [eq_nil_of_delivers h₁ h₂ rfl]
  · have hne₂ : l₂ ≠ [] := fun h => hne (eq_nil_of_delivers h₂ h₁ h)
    exact (latest_of_delivers v h₁ hne).rank_eq (latest_of_delivers v h₂ hne₂)

/-- **When replicas converge**: all entries of greatest rank carry one value. -/
theorem converges_overwrite_iff [OrderBot T] (v : V) (S : Multiset (T × V)) :
    Converges overwrite (⊥, v) S ↔ ∀ p q, Latest S p → Latest S q → p.2 = q.2 := by
  constructor
  · intro hc p q hp hq
    -- deliver everything, then one of the two entries last
    have last : ∀ r, Latest S r → replay overwrite (⊥, v) (S.toList ++ [r]) = r := by
      intro r hr
      rw [replay_concat, overwrite, if_pos]
      rcases eq_or_ne S.toList [] with hnil | hne
      · rw [hnil]; exact bot_le
      · exact hr.2 _ (Multiset.mem_toList.mp (replay_overwrite v hne).1)
    have h := hc _ _ (delivers_toList_append (l := [p]) (by simpa using hp.1))
      (delivers_toList_append (l := [q]) (by simpa using hq.1))
    rw [last p hp, last q hq] at h
    exact congrArg Prod.snd h
  · intro hval l₁ l₂ h₁ h₂
    rcases eq_or_ne l₁ [] with rfl | hne
    · rw [eq_nil_of_delivers h₁ h₂ rfl]
    · have hne₂ : l₂ ≠ [] := fun h => hne (eq_nil_of_delivers h₂ h₁ h)
      have hl₁ := latest_of_delivers v h₁ hne
      have hl₂ := latest_of_delivers v h₂ hne₂
      exact Prod.ext (hl₁.rank_eq hl₂) (hval _ _ hl₁ hl₂)

/-! ## First of the least -/

/-- The entry `p` replaces `s` only if its rank is strictly smaller. -/
def keepFirst (s p : T × V) : T × V := if p.1 < s.1 then p else s

/-- `p` is the first entry of least rank of `l`. -/
def FirstLeast (l : List (T × V)) (p : T × V) : Prop :=
  ∃ pre post, l = pre ++ p :: post ∧ (∀ q ∈ pre, p.1 < q.1) ∧ ∀ q ∈ post, p.1 ≤ q.1

theorem FirstLeast.mem (h : FirstLeast l p) : p ∈ l := by
  obtain ⟨_, _, rfl, -⟩ := h
  simp

theorem FirstLeast.le (h : FirstLeast l p) (hq : q ∈ l) : p.1 ≤ q.1 := by
  obtain ⟨_, _, rfl, hpre, hpost⟩ := h
  rcases List.mem_append.mp hq with hq | hq
  · exact (hpre q hq).le
  · rcases List.mem_cons.mp hq with rfl | hq
    · exact le_rfl
    · exact hpost q hq

/-- **The register ends with its initial entry, or with the first entry of least
rank.** -/
theorem replay_keepFirst (d : T × V) (l : List (T × V)) :
    (replay keepFirst d l = d ∧ ∀ q ∈ l, d.1 ≤ q.1) ∨
      (FirstLeast l (replay keepFirst d l) ∧ (replay keepFirst d l).1 < d.1) := by
  induction l using List.reverseRecOn with
  | nil => exact .inl ⟨rfl, by simp⟩
  | append_singleton l p ih =>
    rw [replay_concat]
    have hmem : ∀ q ∈ l ++ [p], q ∈ l ∨ q = p := fun q hq => by simpa using hq
    rcases ih with ⟨hd, hle⟩ | ⟨hfirst, hlt⟩
    · rw [hd]
      by_cases h : p.1 < d.1
      · rw [keepFirst, if_pos h]
        exact .inr ⟨⟨l, [], rfl, fun q hq => h.trans_le (hle q hq), by simp⟩, h⟩
      · rw [keepFirst, if_neg h]
        refine .inl ⟨rfl, fun q hq => ?_⟩
        rcases hmem q hq with hq | rfl
        · exact hle q hq
        · exact le_of_not_gt h
    · by_cases h : p.1 < (replay keepFirst d l).1
      · rw [keepFirst, if_pos h]
        exact .inr ⟨⟨l, [], rfl, fun q hq => h.trans_le (hfirst.le hq), by simp⟩, h.trans hlt⟩
      · rw [keepFirst, if_neg h]
        refine .inr ⟨?_, hlt⟩
        obtain ⟨pre, post, hl, hpre, hpost⟩ := hfirst
        refine ⟨pre, post ++ [p], ?_, hpre, fun q hq => ?_⟩
        · rw [← List.cons_append, ← List.append_assoc, ← hl]
        · rcases List.mem_append.mp hq with hq | hq
          · exact hpost q hq
          · rw [List.mem_singleton.mp hq]
            exact le_of_not_gt h

theorem FirstLeast.unique (hp : FirstLeast l p) (hq : FirstLeast l q) : p = q := by
  have hrank := le_antisymm (hp.le hq.mem) (hq.le hp.mem)
  obtain ⟨_, _, hl, hpre, -⟩ := hp
  obtain ⟨_, _, hl', hpre', -⟩ := hq
  have hsplit := hl.symm.trans hl'
  rcases List.append_eq_append_iff.mp hsplit with ⟨a, hp', h⟩ | ⟨a, hq', h⟩
  · cases a with
    | nil => exact (List.cons.inj h).1
    | cons =>
      obtain ⟨rfl, -⟩ := List.cons.inj h
      exact absurd (hpre' p (by simp [hp'])) (by simp [hrank])
  · cases a with
    | nil => exact ((List.cons.inj h).1).symm
    | cons =>
      obtain ⟨rfl, -⟩ := List.cons.inj h
      exact absurd (hpre q (by simp [hq'])) (by simp [hrank])

/-- Registers that start from `d` and from a lower `e` hold the same entry once an
entry below `e` has come, and until then the second still holds `e`. -/
theorem replay_keepFirst_of_le {d e : T × V} (hed : e.1 ≤ d.1) (l : List (T × V)) :
    ((replay keepFirst d l).1 < e.1 ∧ replay keepFirst e l = replay keepFirst d l) ∨
      (e.1 ≤ (replay keepFirst d l).1 ∧ replay keepFirst e l = e) := by
  induction l using List.reverseRecOn with
  | nil => exact .inr ⟨hed, rfl⟩
  | append_singleton l p ih =>
    rw [replay_concat, replay_concat]
    rcases ih with ⟨hlt, heq⟩ | ⟨hle, heq⟩
    · rw [heq]
      refine .inl ⟨?_, rfl⟩
      unfold keepFirst
      split
      · rename_i h; exact h.trans hlt
      · exact hlt
    · rw [heq]
      by_cases h : p.1 < e.1
      · rw [keepFirst, keepFirst, if_pos h, if_pos (h.trans_le hle)]
        exact .inl ⟨h, rfl⟩
      · refine .inr ⟨?_, by rw [keepFirst, if_neg h]⟩
        unfold keepFirst
        split
        · exact le_of_not_gt h
        · exact hle

end Testbed.Lib.ExtremeRegisters
