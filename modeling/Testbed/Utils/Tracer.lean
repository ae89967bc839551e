import Mathlib.Data.List.Infix
import Mathlib.Tactic.Common

/-! # Splitting the lines of a workload

`supersplit` of `tracer.h` cuts a text at a delimiter, a bounded number of times, and the fields are
to be the text again when they are joined.

What they should be is told by `scan`, which finds all delimiters from left to right.  The loop of
`supersplit` goes along with it as long as the bound is not reached (`splitLoop_spec`).  Where the
bound ends the loop, the rest of the text is appended twice, and an empty rest is not appended at
all.  So nothing is lost or repeated just if the text is empty, or has no more delimiters than the
bound and some text after the last one (`supersplit_lossless_iff`).
-/
namespace Testbed.Utils

open List

/-- What can go wrong: there is a loop. -/
inductive Fault where
  | nonTermination
  deriving DecidableEq

section
variable {α : Type} [DecidableEq α] {c s a rest : List α} {n found fuel : Nat}

/-- `s.find(c)`: the text before the first occurrence, and the text after it. -/
def find (c : List α) : List α → Option (List α × List α)
  | [] => if c = [] then some ([], []) else none
  | x :: s =>
    if c <+: x :: s then some ([], (x :: s).drop c.length)
    else (find c s).map fun (a, rest) => (x :: a, rest)

/-- The loop of `supersplit`, from `pos1` on.  After the loop the rest is appended, also where
the loop has appended it already. -/
def splitLoop (c : List α) (n : Nat) : Nat → Nat → List α → List (List α) →
    Except Fault (List (List α))
  | 0, _, _, _ => .error .nonTermination
  | fuel + 1, found, s, v =>
    match find c s with
    | none => .ok (if s ≠ [] then v ++ [s] else v)
    | some (a, rest) =>
      if found = n then .ok (if s ≠ [] then v ++ [s] ++ [s] else v ++ [s])
      else splitLoop c n fuel (found + 1) rest (v ++ [a])

def supersplit (s c : List α) (n : Nat) : Except Fault (List (List α)) :=
  splitLoop c n (s.length + 1) 0 s []

/-- The first occurrence is found: there is none before it. -/
theorem find_eq_some (hc : c ≠ []) (h : find c s = some (a, rest)) :
    s = a ++ c ++ rest ∧ ¬ c <:+: a := by
  induction s generalizing a with
  | nil =>
    rw [find, if_neg hc] at h
    cases h
  | cons x s ih =>
    rw [find] at h
    split at h
    · rename_i hprefix
      obtain ⟨rest', hs⟩ := hprefix
      cases h
      rw [← hs, drop_left]
      exact ⟨rfl, fun hinfix => hc (eq_nil_of_infix_nil hinfix)⟩
    · rename_i hprefix
      obtain ⟨⟨a', _⟩, hfind, heq⟩ := Option.map_eq_some_iff.mp h
      cases heq
      obtain ⟨rfl, hnone⟩ := ih hfind
      refine ⟨rfl, fun hinfix => ?_⟩
      obtain hfirst | hlater := infix_cons_iff.mp hinfix
      · exact hprefix (hfirst.trans ⟨c ++ rest, by simp⟩)
      · exact hnone hlater

theorem find_eq_none (h : find c s = none) : ¬ c <:+: s := by
  induction s with
  | nil =>
    rw [find] at h
    split at h
    · cases h
    · exact fun hinfix => absurd (eq_nil_of_infix_nil hinfix) ‹_›
  | cons x s ih =>
    rw [find] at h
    split at h
    · cases h
    · intro hinfix
      obtain hfirst | hlater := infix_cons_iff.mp hinfix
      · exact absurd hfirst ‹_›
      · exact ih (Option.map_eq_none_iff.mp h) hlater

theorem length_find (hc : c ≠ []) (h : find c s = some (a, rest)) : rest.length < s.length := by
  have hlength := congrArg length (find_eq_some hc h).1
  have hpos := length_pos_iff.mpr hc
  simp only [length_append] at hlength
  omega

/-- The texts before the occurrences of the delimiter, found left to right, and the text after the
last one. -/
def scan (c s : List α) : List (List α) × List α :=
  if _ : c = [] then ([], s)
  else
    match _ : find c s with
    | none => ([], s)
    | some (a, rest) => (a :: (scan c rest).1, (scan c rest).2)
termination_by s.length
decreasing_by all_goals exact length_find ‹_› ‹_›

theorem scan_of_none (h : find c s = none) : scan c s = ([], s) := by
  rw [scan]
  split
  · rfl
  · split
    · rfl
    · rename_i heq
      cases h.symm.trans heq

theorem scan_of_some (hc : c ≠ []) (h : find c s = some (a, rest)) :
    scan c s = (a :: (scan c rest).1, (scan c rest).2) := by
  rw [scan, dif_neg hc]
  split
  · rename_i heq
    cases h.symm.trans heq
  · rename_i heq
    cases h.symm.trans heq
    rfl

/-- Joined, the parts are the text, and there is no delimiter in them. -/
theorem scan_spec (hc : c ≠ []) (s : List α) :
    c.intercalate ((scan c s).1 ++ [(scan c s).2]) = s ∧
      ∀ f ∈ (scan c s).1 ++ [(scan c s).2], ¬ c <:+: f := by
  cases h : find c s with
  | none =>
    rw [scan_of_none h]
    refine ⟨by simp [intercalate], fun f hf => ?_⟩
    rw [nil_append, mem_singleton] at hf
    exact hf ▸ find_eq_none h
  | some found =>
    obtain ⟨a, rest⟩ := found
    obtain ⟨hs, ha⟩ := find_eq_some hc h
    have := length_find hc h
    obtain ⟨hjoin, hnone⟩ := scan_spec hc rest
    rw [scan_of_some hc h]
    constructor
    · cases hfields : (scan c rest).1 ++ [(scan c rest).2] with
      | nil => simp at hfields
      | cons b fields =>
        rw [hfields] at hjoin
        rw [cons_append, hfields, hs, ← hjoin]
        simp [intercalate]
    · intro f hf
      rw [cons_append, mem_cons] at hf
      obtain rfl | hf := hf
      · exact ha
      · exact hnone f hf
termination_by s.length

/-- Within the bound the parts are appended, and the last one if it is not empty; beyond it there
are two fields too many. -/
theorem splitLoop_spec (hc : c ≠ []) (hfuel : s.length < fuel) (hfound : found ≤ n)
    (v : List (List α)) :
    ((scan c s).1.length ≤ n - found → splitLoop c n fuel found s v = .ok (v ++ (scan c s).1 ++
      if (scan c s).2 = [] then [] else [(scan c s).2])) ∧
    (n - found < (scan c s).1.length → ∃ more, splitLoop c n fuel found s v = .ok (v ++ more) ∧
      more.length = n - found + 2) := by
  induction fuel generalizing found s v with
  | zero => omega
  | succ fuel ih =>
    rw [splitLoop]
    cases h : find c s with
    | none =>
      rw [scan_of_none h]
      refine ⟨fun _ => ?_, fun hlt => absurd hlt (Nat.not_lt_zero _)⟩
      dsimp only
      split <;> simp_all
    | some pair =>
      obtain ⟨a, rest⟩ := pair
      have hlength := length_find hc h
      rw [scan_of_some hc h, length_cons]
      dsimp only
      by_cases hlast : found = n
      · rw [if_pos hlast, if_pos (ne_nil_of_length_pos (by omega))]
        refine ⟨by omega, fun _ => ⟨[s, s], ?_, ?_⟩⟩
        · rw [append_assoc]
          rfl
        · rw [hlast, Nat.sub_self]
          rfl
      · rw [if_neg hlast]
        obtain ⟨hwithin, hbeyond⟩ :=
          ih (s := rest) (by omega) (Nat.lt_of_le_of_ne hfound hlast) (v ++ [a])
        constructor
        · intro hle
          rw [hwithin (by omega)]
          simp
        · intro hlt
          obtain ⟨more, hmore, hcount⟩ := hbeyond (by omega)
          refine ⟨a :: more, ?_, ?_⟩
          · rw [hmore, append_assoc]
            rfl
          · rw [length_cons, hcount]
            omega

/-- The text can be put together again, and the fields are as many as there are delimiters within
the bound, and one. -/
structure Lossless (s c : List α) (n : Nat) (v : List (List α)) : Prop where
  count_le : v.length ≤ n + 1
  join : c.intercalate v = s
  fields : ∀ f ∈ v.take n, ¬ c <:+: f
  empty : s = [] → v = []
  count : s ≠ [] → v.length = min n (scan c s).1.length + 1

/-- **Splitting loses nothing** just if the text is empty, or has no more delimiters than the bound
and text after the last one. -/
theorem supersplit_lossless_iff (s : List α) (hc : c ≠ []) (n : Nat) :
    (∃ v, supersplit s c n = .ok v ∧ Lossless s c n v) ↔
      s = [] ∨ (scan c s).1.length ≤ n ∧ (scan c s).2 ≠ [] := by
  obtain ⟨hwithin, hbeyond⟩ :=
    splitLoop_spec hc (Nat.lt_succ_self s.length) (Nat.zero_le n) ([] : List (List α))
  obtain ⟨hjoin, hnone⟩ := scan_spec hc s
  rw [Nat.sub_zero, nil_append] at hwithin
  constructor
  · rintro ⟨v, hv, hlossless⟩
    rw [or_iff_not_imp_left]
    intro hs
    have hcount := hlossless.count hs
    obtain hle | hlt := le_or_gt (scan c s).1.length n
    · refine ⟨hle, fun hrest => ?_⟩
      cases hv.symm.trans (hwithin hle)
      rw [if_pos hrest, append_nil] at hcount
      omega
    · obtain ⟨more, hmore, hcount'⟩ := hbeyond hlt
      cases hv.symm.trans hmore
      rw [nil_append] at hcount
      omega
  · rintro (rfl | ⟨hle, hrest⟩)
    · have hempty : scan c [] = ([], []) := scan_of_none (by rw [find, if_neg hc])
      rw [hempty] at hwithin
      refine ⟨[], hwithin (Nat.zero_le n), by simp, rfl, by simp, fun _ => rfl, absurd rfl⟩
    · have hv := hwithin hle
      rw [if_neg hrest] at hv
      refine ⟨_, hv, ?_, hjoin, fun f hf => hnone f (mem_of_mem_take hf), ?_, fun _ => ?_⟩
      · rw [length_append, length_singleton]
        omega
      · rintro rfl
        exact absurd (by rw [scan_of_none (by rw [find, if_neg hc])]) hrest
      · rw [length_append, length_singleton, min_eq_right hle]

/-- Two fields, and a bound of three. -/
theorem supersplit_lossless_two : ∃ v, supersplit "a b".toList " ".toList 3 = .ok v ∧
    Lossless "a b".toList " ".toList 3 v := by
  refine (supersplit_lossless_iff _ (by decide) 3).mpr (.inr ?_)
  have hfirst : find " ".toList "a b".toList = some (['a'], ['b']) := by decide
  rw [scan_of_some (by decide) hfirst, scan_of_none (by decide)]
  decide

/-- The rest is there twice, so that the fields are too many. -/
theorem supersplit_repeats : supersplit "a b c".toList " ".toList 1 =
      .ok ["a".toList, "b c".toList, "b c".toList] ∧
    ¬ Lossless "a b c".toList " ".toList 1 ["a".toList, "b c".toList, "b c".toList] :=
  ⟨by decide, fun h => absurd h.count_le (by decide)⟩

end

end Testbed.Utils
